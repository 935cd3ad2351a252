import DeferredIR.Binary64

/-!
# Shortest decimals

`Decimal.shortest` gives a finite double its fewest decimal digits that read back as the same
double, and of those the nearest. All arithmetic is exact: a magnitude is a multiple of `2⁻¹⁰⁷⁴`,
so the midpoints between neighbouring magnitudes are multiples of `2⁻¹⁰⁷⁵`.
-/

namespace DeferredIR

/-- The number `digits · 10 ^ exponent`. -/
structure Decimal where
  digits : Nat
  exponent : Int
deriving DecidableEq, Repr

namespace Decimal

open Binary64

/-- The power `10 ^ k`. -/
def tenPow (k : Nat) : Nat := Nat.pow 10 k

/-- The numerator of a decimal whose denominator is a power of ten. -/
def num (d : Decimal) : Nat := d.digits * tenPow d.exponent.toNat

/-- The power of ten that is the denominator of a decimal. -/
def den (d : Decimal) : Nat := tenPow (-d.exponent).toNat

/-- Whether `d` rounds to the magnitude of `rank`: it lies between the midpoints to the
neighbouring magnitudes, which round to the even rank. -/
def readsAs (d : Decimal) (rank : Nat) : Bool :=
  let low := (magnitude (rank - 1) + magnitude rank) * d.den
  let high := (magnitude rank + magnitude (rank + 1)) * d.den
  let x := d.num * twoPow 1075
  if rank % 2 = 0 then low ≤ x && x ≤ high else low < x && x < high

/-- Where a number halfway between two decimals goes. -/
inductive Ties where
  | awayFromZero
  | toEven
deriving DecidableEq, Repr

/-- The multiple of `10 ^ k` that stands for the magnitude of `rank`: one of its two neighbours on
that grid, if either reads back; the nearer, if both do. -/
def onGrid? (ties : Ties) (rank : Nat) (k : Int) : Option Decimal :=
  let n := magnitude rank * tenPow (-k).toNat
  let m := twoPow 1074 * tenPow k.toNat
  let below : Decimal := ⟨n / m, k⟩
  let above : Decimal := ⟨n / m + 1, k⟩
  let tieBelow := ties = .toEven ∧ below.digits % 2 = 0
  match below.readsAs rank, above.readsAs rank with
  | true, true =>
      if 2 * (n % m) < m ∨ (2 * (n % m) = m ∧ tieBelow) then some below else some above
  | true, false => some below
  | false, true => some above
  | false, false => none

/-- The exponent of the leading digit of a positive magnitude. No magnitude is below
`10 ^ (-324)`, so the digits of its integral multiple of that are counted. -/
def leading (rank : Nat) : Int :=
  ((magnitude rank * tenPow 324 / twoPow 1074).repr.length : Int) - 325

/-- All digits of a magnitude. -/
def exact (rank : Nat) : Decimal := ⟨magnitude rank * Nat.pow 5 1074, -1074⟩

/-- `d` with at most `n` trailing zeros moved from its digits into its exponent. -/
def dropZeros : Nat → Decimal → Decimal
  | 0, d => d
  | n + 1, d => if d.digits % 10 = 0 then dropZeros n ⟨d.digits / 10, d.exponent + 1⟩ else d

/-- The shortest decimal that reads back as the magnitude of `rank`, the nearest of its length.
Seventeen digits suffice for every double. -/
def shortest (ties : Ties) (rank : Nat) : Decimal :=
  if rank = 0 then ⟨0, 0⟩
  else dropZeros 17 <|
    ((List.range 17).findSome? fun i : Nat =>
      onGrid? ties rank (leading rank - i)).getD (exact rank)

end Decimal

end DeferredIR
