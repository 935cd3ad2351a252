/-!
# Double-precision numbers

The numbers of the IEEE 754 binary64 format. Two numbers are equal when their bit patterns are,
except that there is only one not-a-number: a zero keeps its sign, a not-a-number has none.
-/

namespace DeferredIR

namespace Binary64

/-- The sign bit of a pattern. -/
def signBit : Nat := 0x8000000000000000

/-- The number of finite magnitudes: the pattern of an infinity without its sign. -/
def infiniteRank : Nat := 0x7FF0000000000000

/-- The lowest bit above the fraction, whose place is that of the implied leading one. -/
def impliedBit : Nat := 0x10000000000000

/-- The power `2 ^ k`. -/
def twoPow (k : Nat) : Nat := Nat.pow 2 k

end Binary64

/-- A double. The finite magnitudes are numbered from zero upwards by their rank, which is the bit
pattern without its sign. -/
inductive Binary64 where
  | nan
  | infinity (negative : Bool)
  | finite (negative : Bool) (rank : Fin Binary64.infiniteRank)
deriving DecidableEq, Repr

namespace Binary64

/-- The number with bit pattern `bits`. -/
def ofBits (bits : UInt64) : Binary64 :=
  let negative := decide (signBit ≤ bits.toNat)
  let rank := bits.toNat % signBit
  if h : rank < infiniteRank then .finite negative ⟨rank, h⟩
  else if rank = infiniteRank then .infinity negative
  else .nan

/-- The magnitude of a rank in units of `2⁻¹⁰⁷⁴`, the least positive double. The low 52 bits are
the fraction; a leading one is implied unless the other bits are zero. -/
def magnitude (rank : Nat) : Nat :=
  let fraction := rank % impliedBit
  match rank / impliedBit with
  | 0 => fraction
  | e + 1 => (impliedBit + fraction) * twoPow e

end Binary64

end DeferredIR
