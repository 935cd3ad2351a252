import DeferredIR.Decimal.Shortest

/-!
# Decimal layout

A decimal is written positionally, with at least one digit after the point, or in scientific form.
A `Style` says which exponents are written positionally and how an exponent is written.
-/

namespace DeferredIR.Decimal

/-- The choices of a number format. -/
structure Style where
  /-- Where a number halfway between two shortest decimals goes. -/
  ties : Ties
  /-- The least leading exponent that is written positionally. -/
  positionalFrom : Int
  /-- The greatest leading exponent that is written positionally. -/
  positionalTo : Int
  /-- Whether a positive exponent has a sign. -/
  plus : Bool

/-- The digits of `n`, filled up with zeros on the left to at least `width`. -/
def padded (width n : Nat) : String :=
  String.ofList ((Nat.toDigits 10 n).leftpad width '0')

/-- The number `n · 10 ^ (-places)` with `places` digits after the point. -/
def fixed (n places : Nat) : String :=
  (n / tenPow places).repr ++ "." ++ padded places (n % tenPow places)

/-- The positional form; an integer is written with one zero after the point. -/
def positional (d : Decimal) : String :=
  if 0 ≤ d.exponent then fixed (d.digits * tenPow (d.exponent.toNat + 1)) 1
  else fixed d.digits (-d.exponent).toNat

/-- The exponent of the leading digit. -/
def lead (d : Decimal) : Int := d.exponent + d.digits.repr.length - 1

/-- The scientific form: one digit before the point, and no point after a single digit. -/
def scientific (s : Style) (d : Decimal) : String :=
  let rest := d.digits.repr.length - 1
  let mantissa := if rest = 0 then d.digits.repr else fixed d.digits rest
  let sign := if d.lead < 0 then "-" else if s.plus then "+" else ""
  mantissa ++ "e" ++ sign ++ d.lead.natAbs.repr

/-- The text of a decimal. -/
def text (s : Style) (d : Decimal) : String :=
  if s.positionalFrom ≤ d.lead ∧ d.lead ≤ s.positionalTo then positional d else scientific s d

end DeferredIR.Decimal

namespace DeferredIR.Binary64

/-- The text of a finite double. A zero keeps its sign. -/
def finiteText (s : Decimal.Style) (negative : Bool) (rank : Fin infiniteRank) : String :=
  (if negative then "-" else "") ++ (Decimal.shortest s.ties rank).text s

end DeferredIR.Binary64
