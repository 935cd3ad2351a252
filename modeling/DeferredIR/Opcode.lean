import DeferredIR.Error
import DeferredIR.Literal

/-!
# Opcodes

What a node computes, with the data that is fixed when it is built. An opcode decides how many
operands its node reads; a call also names its last operands.
-/

namespace DeferredIR

inductive Opcode where
  /-- The formal argument at `index` of the node's function, known to the reader as `name`. -/
  | arg (index : Nat) (name : String)
  | const (value : Literal)
  | global (name : String)
  /-- The operator `op` applied to two operands. -/
  | binop (op : String)
  /-- Its operand, taken to have the type of the node. -/
  | cast
  /-- The first operand called with the others, the last of which are passed by the names
  `keywords`. -/
  | call (keywords : List String)
  | tuple
  /-- The item at the fixed position `index` of the first operand. The second operand is that
  position as a value. -/
  | item (index : Nat)
  | iter
  | next
  | pairFirst
  | pairSecond

namespace Opcode

/-- The name of an opcode in listings and messages. -/
def mnemonic : Opcode → String
  | arg .. => "arg"
  | const _ => "const"
  | global _ => "global"
  | binop _ => "binop"
  | cast => "cast"
  | call _ => "call"
  | tuple => "build_tuple"
  | item _ => "static_getitem"
  | iter => "getiter"
  | next => "iternext"
  | pairFirst => "pair_first"
  | pairSecond => "pair_second"

/-- How many operands a node with this opcode reads. -/
def arity : Opcode → Arity
  | arg .. | const _ | global _ => .exactly 0
  | binop _ | item _ => .exactly 2
  | cast | iter | next | pairFirst | pairSecond => .exactly 1
  | call keywords => .atLeast (1 + keywords.length)
  | tuple => .atLeast 0

/-- Refuses the first keyword that is empty or stands in `seen` or before itself. -/
def checkKeywords (seen : List String) : List String → Except EditError Unit
  | [] => .ok ()
  | name :: names =>
      if name = "" then .error .emptyKeyword
      else if name ∈ seen then .error (.repeatedKeyword name)
      else checkKeywords (name :: seen) names

/-- Whether a node with this opcode may read `count` operands. -/
def check (k : Opcode) (count : Nat) : Except EditError Unit :=
  if k.arity.accepts count then
    match k with
    | call keywords => checkKeywords [] keywords
    | _ => .ok ()
  else .error (.operandCount k.mnemonic k.arity count)

/-- The name of an opcode in JSON. -/
def tag : Opcode → String
  | binop _ => "bin_op"
  | item _ => "static_get_item"
  | iter => "get_iter"
  | next => "iter_next"
  | k => k.mnemonic

/-- The members that describe an opcode in JSON: its tag, then its data. -/
def members (k : Opcode) : List (String × Json) :=
  ("kind", .str k.tag) ::
    match k with
    | arg index name => [("index", .int index), ("name", .str name)]
    | const value => [("value", value.toJson)]
    | global name => [("name", .str name)]
    | binop op => [("op", .str op)]
    | call keywords => [("kw_names", .arr (keywords.map .str))]
    | item index => [("index", .int index)]
    | cast | tuple | iter | next | pairFirst | pairSecond => []

def toJson (k : Opcode) : Json := .obj k.members

/-- The data of an opcode as listings show it between braces, if it has any. -/
def attributes? : Opcode → Option String
  | arg index name => some ("index = " ++ index.repr ++ ", name = " ++ Literal.quoted name)
  | const value => some ("value = " ++ value.text)
  | global name => some ("name = " ++ Literal.quoted name)
  | binop op => some ("op = " ++ Literal.quoted op)
  | item index => some ("index = " ++ index.repr)
  | cast | call _ | tuple | iter | next | pairFirst | pairSecond => none

end Opcode

end DeferredIR
