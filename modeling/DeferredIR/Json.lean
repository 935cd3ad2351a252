import DeferredIR.Decimal.Layout
import DeferredIR.Text.Quoted

/-!
# JSON

Values of the JSON format and their text. Members are written in the order given, infinities and
the not-a-number as `null`.
-/

namespace DeferredIR

inductive Json where
  | null
  | bool (b : Bool)
  | int (n : Int)
  | float (x : Binary64)
  | str (s : String)
  | arr (items : List Json)
  | obj (members : List (String × Json))

namespace Json

/-- Quotes, backslashes and control characters are escaped, all else stands for itself. -/
def escape (c : Char) : List Char :=
  if c = '"' then ['\\', '"']
  else if c = '\\' then ['\\', '\\']
  else if c = '\n' then ['\\', 'n']
  else if c = '\r' then ['\\', 'r']
  else if c = '\t' then ['\\', 't']
  else if c = '\x08' then ['\\', 'b']
  else if c = '\x0c' then ['\\', 'f']
  else if c.toNat < 0x20 then '\\' :: 'u' :: (Nat.toDigits 16 c.toNat).leftpad 4 '0'
  else [c]

/-- Positional from `10 ^ (-5)` up to below `10 ^ 16`, otherwise with a signed exponent; a number
halfway between two shortest decimals goes to the even one. -/
def numberStyle : Decimal.Style where
  ties := .toEven
  positionalFrom := -5
  positionalTo := 15
  plus := true

def floatText : Binary64 → String
  | .finite negative rank => Binary64.finiteText numberStyle negative rank
  | .infinity _ | .nan => "null"

/-- Where lines are broken. -/
structure Layout where
  /-- What stands before an item or a closing bracket at a depth. -/
  line : Nat → String
  /-- What stands between a key and its value. -/
  colon : String

/-- No white space. -/
def Layout.compact : Layout where
  line _ := ""
  colon := ":"

/-- One item a line, indented by two spaces a level. -/
def Layout.pretty : Layout where
  line depth := String.ofList ('\n' :: List.replicate (2 * depth) ' ')
  colon := ": "

/-- `items` between brackets; nothing stands between the brackets of an empty list. -/
def Layout.bracket (L : Layout) (depth : Nat) (left right : String) : List String → String
  | [] => left ++ right
  | items =>
      left ++ ",".intercalate (items.map (L.line (depth + 1) ++ ·)) ++ L.line depth ++ right

mutual

/-- The text of a value whose closing bracket stands at `depth`. -/
def write (L : Layout) (depth : Nat) : Json → String
  | null => "null"
  | bool b => if b then "true" else "false"
  | int n => n.repr
  | float x => floatText x
  | str s => Text.quoteWith escape s
  | arr items => L.bracket depth "[" "]" (writeItems L (depth + 1) items)
  | obj members => L.bracket depth "\x7b" "\x7d" (writeMembers L (depth + 1) members)
termination_by structural j => j

/-- The texts of the items of a list. -/
def writeItems (L : Layout) (depth : Nat) : List Json → List String
  | [] => []
  | j :: items => write L depth j :: writeItems L depth items
termination_by structural items => items

/-- The texts of the members of an object. -/
def writeMembers (L : Layout) (depth : Nat) : List (String × Json) → List String
  | [] => []
  | member :: members => writeMember L depth member :: writeMembers L depth members
termination_by structural members => members

/-- The text of a key and its value. -/
def writeMember (L : Layout) (depth : Nat) : String × Json → String
  | (key, j) => Text.quoteWith escape key ++ L.colon ++ write L depth j
termination_by structural member => member

end

/-- The text without white space. -/
def compact (j : Json) : String := j.write .compact 0

/-- The text with one item a line. -/
def pretty (j : Json) : String := j.write .pretty 0

end Json

end DeferredIR
