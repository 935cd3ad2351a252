import DeferredIR.Graph.Edit
import DeferredIR.Fold.Replacement

/-!
# Fold passes

A round tries each node that was live when the round began, in order of creation; a node that folds
is replaced by the value it restates and dies. A pass repeats rounds until one of them folds
nothing, or its bound is reached. An argument node without its formal argument ends the pass with an
error, and the folds made before stay made.
-/

namespace DeferredIR

/-- What a fold pass did. -/
structure FoldReport where
  rounds : Nat := 0
  folded : Nat := 0
  /-- The folds by mnemonic, in order of the first fold of each. -/
  byMnemonic : List (String × Nat) := []
deriving DecidableEq, Repr

namespace FoldReport

/-- The counts after one more of `key`. -/
def tally (key : String) : List (String × Nat) → List (String × Nat)
  | [] => [(key, 1)]
  | (k, count) :: counts =>
      if k = key then (k, count + 1) :: counts else (k, count) :: tally key counts

/-- One more round. -/
def addRound (s : FoldReport) : FoldReport := { s with rounds := s.rounds + 1 }

/-- One more fold. -/
def addFold (s : FoldReport) (k : Opcode) : FoldReport :=
  { s with folded := s.folded + 1, byMnemonic := tally k.mnemonic s.byMnemonic }

end FoldReport

namespace Edit

/-- Folds `n` if it restates a value, and returns its opcode if so. -/
def foldNode (options : FoldOptions) (n : NodeId) : Edit (Option Opcode) := do
  match ← read fun g => g.replacement? options n with
  | some v =>
      let node ← read fun g => g.node n
      discard (redirect node.result v)
      retire n
      return some node.opcode
  | none => return none

/-- Folds the given nodes in turn. -/
def foldNodes (options : FoldOptions) : List NodeId → FoldReport → Edit FoldReport
  | [], report => return report
  | n :: nodes, report => do
      match ← foldNode options n with
      | some opcode => foldNodes options nodes (report.addFold opcode)
      | none => foldNodes options nodes report

/-- Folds in at most the given number of rounds. -/
def foldRounds (options : FoldOptions) : Nat → FoldReport → Edit FoldReport
  | 0, report => return report
  | bound + 1, report => do
      let live := (← get).live
      let after ← foldNodes options live report.addRound
      if after.folded = report.folded then return after else foldRounds options bound after

/-- Folds until nothing folds, within the bound of `options`. -/
def foldAll (options : FoldOptions) : Edit FoldReport := foldRounds options options.maxRounds {}

end Edit

end DeferredIR
