import DeferredIR.Graph.Edit
import DeferredIR.Fold.Replacement

/-!
# Build requests

The nodes that can be asked for by what they compute. A request becomes a draft; only a call whose
arguments come as one list with separate keywords can fail to. A built node has the undefined type
unless the request gives one.
-/

namespace DeferredIR

inductive Request where
  | arg (index : Nat) (name : String)
  | const (value : Literal)
  | global (name : String)
  | binop (lhs rhs : ValueId) (op : String)
  | cast (value : ValueId) (type : TypeId)
  | call (layout : CallLayout)
  /-- A call whose arguments are listed together: the first that goes by a keyword is operand
  `start`, where the callee is operand zero. -/
  | callFlat (callee : ValueId) (arguments : List ValueId) (start : Nat) (keywords : List String)
  | tuple (items : List ValueId)
  | item (container position : ValueId) (index : Nat)
  | iter (value : ValueId)
  | next (value : ValueId)
  | pairFirst (value : ValueId)
  | pairSecond (value : ValueId)
  | node (draft : Draft)

namespace Request

/-- The draft of the node that a request asks for. -/
def draft : Request → Except EditError Draft
  | arg index name => .ok { opcode := .arg index name, operands := [] }
  | const value => .ok { opcode := .const value, operands := [] }
  | global name => .ok { opcode := .global name, operands := [] }
  | binop lhs rhs op => .ok { opcode := .binop op, operands := [lhs, rhs] }
  | cast value type => .ok { opcode := .cast, operands := [value], type }
  | call layout => .ok { opcode := .call layout.keywords, operands := layout.operands }
  | callFlat callee arguments start keywords =>
      let count := arguments.length + 1
      if start = 0 ∨ count < start then .error (.keywordStart start count)
      else if count - start ≠ keywords.length then
        .error (.keywordCount keywords.length (count - start))
      else .ok { opcode := .call keywords, operands := callee :: arguments }
  | tuple items => .ok { opcode := .tuple, operands := items }
  | item container position index =>
      .ok { opcode := .item index, operands := [container, position] }
  | iter value => .ok { opcode := .iter, operands := [value] }
  | next value => .ok { opcode := .next, operands := [value] }
  | pairFirst value => .ok { opcode := .pairFirst, operands := [value] }
  | pairSecond value => .ok { opcode := .pairSecond, operands := [value] }
  | node draft => .ok draft

end Request

namespace Edit

/-- Builds a node in `f` and returns the value that stands for it: its result or, where nodes fold
as they are built, the value that it restates. A node that folds is dead at once. Argument nodes do
not fold here, for their types are still to be assigned. -/
def build (f : FuncId) (options : FoldOptions) (request : Request) : Edit ValueId := do
  read fun g => g.requireFunc f
  let draft ← read fun _ => request.draft.mapError Error.edit
  let (n, result) ← push f draft
  if options.onBuild then
    match ← read fun g => g.localReplacement? options n with
    | some v =>
        retire n
        return v
    | none => return result
  else return result

end Edit

end DeferredIR
