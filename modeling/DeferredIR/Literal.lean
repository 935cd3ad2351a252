import DeferredIR.Json
import DeferredIR.Text.Printable

/-!
# Literals

The constants a node can hold, their source spelling and their JSON form.
-/

namespace DeferredIR

inductive Literal where
  | none
  | bool (b : Bool)
  | int (n : Int64)
  | float (x : Binary64)
  | str (s : String)
  | tuple (items : List Literal)

namespace Literal

/-- Quotes, backslashes and the common control characters are escaped by a letter, other characters
that are not printable by their number. -/
def escape (c : Char) : List Char :=
  if c = '"' then ['\\', '"']
  else if c = '\\' then ['\\', '\\']
  else if c = '\n' then ['\\', 'n']
  else if c = '\r' then ['\\', 'r']
  else if c = '\t' then ['\\', 't']
  else if c = '\x00' then ['\\', '0']
  else if Text.isPrintable c then [c]
  else '\\' :: 'u' :: '\x7b' :: Nat.toDigits 16 c.toNat ++ ['\x7d']

/-- A string in its source spelling. -/
def quoted (s : String) : String := Text.quoteWith escape s

/-- Positional from `10 ^ (-4)` up to below `10 ^ 16`, otherwise with an exponent that has no plus
sign; a number halfway between two shortest decimals goes away from zero. -/
def numberStyle : Decimal.Style where
  ties := .awayFromZero
  positionalFrom := -4
  positionalTo := 15
  plus := false

def floatText : Binary64 → String
  | .nan => "nan"
  | .infinity negative => if negative then "-inf" else "inf"
  | .finite negative rank => Binary64.finiteText numberStyle negative rank

mutual

/-- The source spelling of a literal. A comma follows the item of a one-item tuple. -/
def text : Literal → String
  | none => "None"
  | bool b => if b then "True" else "False"
  | int n => n.toInt.repr
  | float x => floatText x
  | str s => quoted s
  | tuple items =>
      "(" ++ ", ".intercalate (texts items) ++ (if items.length = 1 then "," else "") ++ ")"
termination_by structural l => l

/-- The source spellings of the items of a tuple. -/
def texts : List Literal → List String
  | [] => []
  | l :: items => text l :: texts items
termination_by structural items => items

end

mutual

/-- The JSON form: the kind of the literal is the only key of an object. -/
def toJson : Literal → Json
  | none => .str "none"
  | bool b => .obj [("bool", .bool b)]
  | int n => .obj [("int", .int n.toInt)]
  | float x => .obj [("float", .float x)]
  | str s => .obj [("str", .str s)]
  | tuple items => .obj [("tuple", .arr (toJsons items))]
termination_by structural l => l

/-- The JSON forms of the items of a tuple. -/
def toJsons : List Literal → List Json
  | [] => []
  | l :: items => toJson l :: toJsons items
termination_by structural items => items

end

end Literal

end DeferredIR
