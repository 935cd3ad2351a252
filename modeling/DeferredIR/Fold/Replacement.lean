import DeferredIR.Graph.Basic

/-!
# Fold rules

A node folds when it only restates a value that exists already: an argument node is a formal
argument, a cast to the type of its operand is that operand, a projection from a tuple is an item of
the tuple. No rule changes a type: the value that stands for a node has the type of the node's
result, and it is a known one unless the node is an argument node.
-/

namespace DeferredIR

/-- Which folds are attempted, and when. -/
structure FoldOptions where
  /-- Attempt a fold as soon as a node is built. -/
  onBuild : Bool := false
  /-- Fold projections from tuples. -/
  structural : Bool := false
  /-- The greatest number of rounds of a fold pass. -/
  maxRounds : Nat := 8
deriving DecidableEq, Repr

namespace Graph

/-- Whether two values have one type, and it is known. -/
def shareKnownType (g : Graph) (v w : ValueId) : Except Fault Bool := do
  let t := (← g.value v).type
  return t = (← g.value w).type ∧ t ≠ .undefined

/-- The item at `index` of the tuple that `container` is, if it has the type of `result`. -/
def tupleItem? (g : Graph) (container result : ValueId) (index : Nat) :
    Except Fault (Option ValueId) := do
  match ← g.definingNode? container with
  | some { opcode := .tuple, operands, dead := false, .. } =>
      match operands[index]? with
      | some v => return if ← g.shareKnownType v result then some v else none
      | none => return none
  | _ => return none

/-- The item at `index` of a pair, if it has the type of `result`. -/
def pairItem? (g : Graph) (pair result : ValueId) (index : Nat) :
    Except Fault (Option ValueId) := do
  match ← g.definingNode? pair with
  | some node => if node.operands.length = 2 then g.tupleItem? pair result index else return none
  | none => return none

/-- The value that a node restates, by the rules that read only the node and its operands. -/
def localReplacement? (g : Graph) (options : FoldOptions) (n : NodeId) :
    Except Fault (Option ValueId) := do
  let node ← g.node n
  match node.opcode with
  | .cast =>
      let v ← node.operand 0
      return if ← g.shareKnownType v node.result then some v else none
  | .item index =>
      if options.structural then g.tupleItem? (← node.operand 0) node.result index else return none
  | .pairFirst =>
      if options.structural then g.pairItem? (← node.operand 0) node.result 0 else return none
  | .pairSecond =>
      if options.structural then g.pairItem? (← node.operand 0) node.result 1 else return none
  | _ => return none

/-- The formal argument that an argument node restates. There has to be one, of the type of the
node's result. -/
def boundFormal (g : Graph) (n : NodeId) (node : Node) (index : Nat) :
    Except Error ValueId := do
  match ← g.formal? node.func index with
  | some formal =>
      let expected := (← g.value formal).type
      let found := (← g.value node.result).type
      if expected = found then return formal
      else
        throw (.inconsistent (.argumentType n index (← g.types.text expected)
          (← g.types.text found)))
  | none =>
      throw (.inconsistent (.argumentOutOfRange n index (← g.func node.func).formals.length))

/-- The value that a node restates, if any. A dead node restates none. -/
def replacement? (g : Graph) (options : FoldOptions) (n : NodeId) :
    Except Error (Option ValueId) := do
  let node ← g.node n
  if node.dead then return none
  match node.opcode with
  | .arg index _ => return some (← g.boundFormal n node index)
  | _ => g.localReplacement? options n

end Graph

end DeferredIR
