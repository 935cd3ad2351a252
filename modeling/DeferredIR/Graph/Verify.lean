import DeferredIR.Graph.Basic

/-!
# Verification

`Graph.verify` finds the first inconsistency of a graph. It answers for every graph, however
damaged, and never faults. It asks of each live node that its operands are as many as its opcode
wants, that its result is defined by it, and that each operand is a live value of the same function
which records the read; of each record of a use that the slot reads the value; and of each formal
argument that it is defined as such.
-/

namespace DeferredIR.Graph

/-- Where `v` is defined, if it exists. -/
def origin? (g : Graph) (v : ValueId) : Option Origin := g.values[v.index]?.map Value.origin

/-- Whether a live node reads `v` in slot `u`. -/
def reads (g : Graph) (u : Use) (v : ValueId) : Bool :=
  match g.nodes[u.node.index]? with
  | some node => !node.dead && node.operands[u.slot]? == some v
  | none => false

/-- What is wrong with `v` as the operand in `slot` of the live node `n`. -/
def verifyOperand (g : Graph) (n : NodeId) (node : Node) (slot : Nat) (v : ValueId) :
    Except Inconsistency Unit := do
  let some value := g.values[v.index]? | throw (.danglingOperand n slot v)
  let owner ←
    match value.origin with
    | .formal f _ => pure f
    | .result m =>
        match g.nodes[m.index]? with
        | some definer =>
            if definer.dead then throw (.deadOperand n slot v) else pure definer.func
        | none => throw (.brokenDefinition v)
  if owner ≠ node.func then throw (.foreignOperand n slot v)
  if ⟨n, slot⟩ ∉ value.uses then throw (.unrecordedUse n slot v)

/-- What is wrong with the live node `n`. -/
def verifyNode (g : Graph) (n : NodeId) (node : Node) : Except Inconsistency Unit := do
  unless node.opcode.arity.accepts node.operands.length do
    throw (.malformedOperands n node.opcode.arity node.operands.length)
  if g.origin? node.result ≠ some (.result n) then throw (.brokenDefinition node.result)
  node.operands.zipIdx.forM fun p => g.verifyOperand n node p.2 p.1

/-- What is wrong with the records of the uses of `v`. -/
def verifyUses (g : Graph) (v : ValueId) (value : Value) : Except Inconsistency Unit :=
  value.uses.forM fun u => unless g.reads u v do throw (.staleUse v u.node)

/-- What is wrong with the formal arguments of `f`. -/
def verifyFormals (g : Graph) (f : FuncId) (func : Func) : Except Inconsistency Unit :=
  func.formals.zipIdx.forM fun p =>
    if g.origin? p.1 ≠ some (.formal f p.2) then throw (.brokenDefinition p.1) else pure ()

/-- The first inconsistency of `g`: of its live nodes, then of its values, then of its functions,
each in order of creation. -/
def verify (g : Graph) : Except Inconsistency Unit := do
  g.liveEntries.forM fun p => g.verifyNode p.1 p.2
  g.valueEntries.forM fun p => g.verifyUses p.1 p.2
  g.funcEntries.forM fun p => g.verifyFormals p.1 p.2

end DeferredIR.Graph
