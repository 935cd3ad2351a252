import DeferredIR.Graph.Write

/-!
# Tampering

Writes of single fields that check nothing and keep nothing else in step. They make the damaged
graphs that verification is about.
-/

namespace DeferredIR

/-- One field to be overwritten. -/
inductive Tampering where
  | operands (node : NodeId) (operands : List ValueId)
  | dead (node : NodeId) (dead : Bool)
  | result (node : NodeId) (result : ValueId)
  | opcode (node : NodeId) (opcode : Opcode)
  | owner (node : NodeId) (func : FuncId)
  | uses (value : ValueId) (uses : List Use)
  | origin (value : ValueId) (origin : Origin)
  | type (value : ValueId) (type : TypeId)
  | formals (func : FuncId) (formals : List ValueId)

namespace Graph

/-- `g` with one field overwritten. A handle that names nothing leaves `g` as it is. -/
def tamper (g : Graph) : Tampering → Graph
  | .operands n operands => g.modifyNode n fun x => { x with operands }
  | .dead n dead => g.modifyNode n fun x => { x with dead }
  | .result n result => g.modifyNode n fun x => { x with result }
  | .opcode n opcode => g.modifyNode n fun x => { x with opcode }
  | .owner n func => g.modifyNode n fun x => { x with func }
  | .uses v uses => g.modifyValue v fun x => { x with uses }
  | .origin v origin => g.modifyValue v fun x => { x with origin }
  | .type v type => g.modifyValue v fun x => { x with type }
  | .formals f formals => g.modifyFunc f fun x => { x with formals }

end Graph

end DeferredIR
