/-!
# Operand counts
-/

namespace DeferredIR

/-- How many operands a node may read. -/
inductive Arity where
  | exactly (n : Nat)
  | atLeast (n : Nat)
deriving DecidableEq, Repr

namespace Arity

/-- Whether `count` operands are allowed. -/
def accepts : Arity → Nat → Bool
  | exactly n, count => count == n
  | atLeast n, count => n ≤ count

@[simp] theorem accepts_exactly {n count : Nat} : (exactly n).accepts count ↔ count = n := by
  simp [accepts]

@[simp] theorem accepts_atLeast {n count : Nat} : (atLeast n).accepts count ↔ n ≤ count := by
  simp [accepts]

def text : Arity → String
  | exactly n => n.repr
  | atLeast n => "at least " ++ n.repr

end Arity

end DeferredIR
