import DeferredIR.Opcode
import DeferredIR.TypeTable

/-!
# Graphs

A graph keeps its functions, nodes and values in three arenas. A node reads values and defines one;
every other value is a formal argument of a function. A value remembers each operand slot that
reads it. A node that has been folded away stays in its arena, marked dead.

Handles are not checked by the types: a read of a handle that the graph did not issue is a `Fault`.
-/

namespace DeferredIR

/-- Where a value is defined. -/
inductive Origin where
  | result (node : NodeId)
  | formal (func : FuncId) (index : Nat)
deriving DecidableEq, Repr

/-- An operand slot of a node. -/
structure Use where
  node : NodeId
  slot : Nat
deriving DecidableEq, Repr

structure Value where
  origin : Origin
  type : TypeId
  /-- The slots that read the value, in the order in which they came to read it. -/
  uses : List Use := []
deriving DecidableEq, Repr

structure Node where
  opcode : Opcode
  operands : List ValueId
  result : ValueId
  func : FuncId
  dead : Bool := false

structure Func where
  name : String
  formals : List ValueId
  /-- The nodes of the function in order of creation, dead ones included. -/
  body : List NodeId := []
deriving DecidableEq, Repr

structure Graph where
  types : TypeTable := {}
  functions : Array Func := #[]
  nodes : Array Node := #[]
  values : Array Value := #[]

/-- The operands of a call. -/
structure CallLayout where
  callee : ValueId
  positional : List ValueId
  keyword : List (String × ValueId)
deriving DecidableEq, Repr

namespace CallLayout

/-- The operands in the order in which a node keeps them. -/
def operands (l : CallLayout) : List ValueId :=
  l.callee :: l.positional ++ l.keyword.map Prod.snd

/-- The names of the last operands. -/
def keywords (l : CallLayout) : List String := l.keyword.map Prod.fst

end CallLayout

/-- The entry at position `i`. -/
def fetch {α : Type} (entries : Array α) (i : Nat) : Except Fault α :=
  match entries[i]? with
  | some entry => .ok entry
  | none => .error .outOfRange

/-- The entries of an arena with their handles, in order of creation. -/
def numbered {ι α : Type} (handle : Nat → ι) (entries : Array α) : List (ι × α) :=
  entries.toList.zipIdx.map fun p => (handle p.2, p.1)

theorem mem_numbered {ι α : Type} {handle : Nat → ι} (h : ∀ i j, handle i = handle j → i = j)
    {entries : Array α} {i : Nat} {x : α} :
    (handle i, x) ∈ numbered handle entries ↔ entries[i]? = some x := by
  simp only [numbered, List.mem_map, List.mem_zipIdx_iff_getElem?, Prod.mk.injEq, Prod.exists,
    Array.getElem?_toList]
  constructor
  · rintro ⟨a, j, ha, hj, rfl⟩
    exact h j i hj ▸ ha
  · exact fun hx => ⟨x, i, hx, rfl, rfl⟩

namespace Node

/-- The operand in `slot`. -/
def operand (n : Node) (slot : Nat) : Except Fault ValueId :=
  match n.operands[slot]? with
  | some v => .ok v
  | none => .error .outOfRange

/-- The slot of the first operand that a call passes by name. -/
def keywordStart (n : Node) : Except Fault (Option Nat) :=
  match n.opcode with
  | .call keywords =>
      if keywords.length ≤ n.operands.length then
        .ok (some (n.operands.length - keywords.length))
      else .error .outOfRange
  | _ => .ok none

/-- The operands of a call by their part in it: the first is called, the last go by the keywords. -/
def callLayout (n : Node) : Except Fault (Option CallLayout) :=
  match n.opcode with
  | .call keywords =>
      match n.operands with
      | callee :: arguments =>
          if keywords.length ≤ arguments.length then
            let count := arguments.length - keywords.length
            .ok (some ⟨callee, arguments.take count, keywords.zip (arguments.drop count)⟩)
          else .error .outOfRange
      | [] => .error .outOfRange
  | _ => .ok none

end Node

namespace Graph

def func (g : Graph) (f : FuncId) : Except Fault Func := fetch g.functions f.index

def node (g : Graph) (n : NodeId) : Except Fault Node := fetch g.nodes n.index

def value (g : Graph) (v : ValueId) : Except Fault Value := fetch g.values v.index

/-- The formal argument of `f` at `index`, if `f` has so many. -/
def formal? (g : Graph) (f : FuncId) (index : Nat) : Except Fault (Option ValueId) := do
  return (← g.func f).formals[index]?

/-- The node that defines `v`, if `v` is no formal argument. -/
def definingNode? (g : Graph) (v : ValueId) : Except Fault (Option Node) := do
  match (← g.value v).origin with
  | .result n => return some (← g.node n)
  | .formal .. => return none

/-- The function to which `v` belongs. -/
def owner (g : Graph) (v : ValueId) : Except Fault FuncId := do
  match (← g.value v).origin with
  | .result n => return (← g.node n).func
  | .formal f _ => return f

/-- The written form of the type of `v`. -/
def typeText (g : Graph) (v : ValueId) : Except Fault String := do
  g.types.text (← g.value v).type

/-- The nodes with their handles. -/
def nodeEntries (g : Graph) : List (NodeId × Node) := numbered .mk g.nodes

/-- The values with their handles. -/
def valueEntries (g : Graph) : List (ValueId × Value) := numbered .mk g.values

/-- The functions with their handles. -/
def funcEntries (g : Graph) : List (FuncId × Func) := numbered .mk g.functions

/-- The nodes that have not been folded away. -/
def liveEntries (g : Graph) : List (NodeId × Node) :=
  g.nodeEntries.filter fun p => !p.2.dead

/-- The handles of the live nodes, in order of creation. -/
def live (g : Graph) : List NodeId := g.liveEntries.map Prod.fst

@[simp] theorem mem_nodeEntries {g : Graph} {n : NodeId} {node : Node} :
    (n, node) ∈ g.nodeEntries ↔ g.nodes[n.index]? = some node :=
  mem_numbered (fun _ _ h => NodeId.mk.inj h)

@[simp] theorem mem_valueEntries {g : Graph} {v : ValueId} {value : Value} :
    (v, value) ∈ g.valueEntries ↔ g.values[v.index]? = some value :=
  mem_numbered (fun _ _ h => ValueId.mk.inj h)

@[simp] theorem mem_funcEntries {g : Graph} {f : FuncId} {func : Func} :
    (f, func) ∈ g.funcEntries ↔ g.functions[f.index]? = some func :=
  mem_numbered (fun _ _ h => FuncId.mk.inj h)

@[simp] theorem mem_liveEntries {g : Graph} {n : NodeId} {node : Node} :
    (n, node) ∈ g.liveEntries ↔ g.nodes[n.index]? = some node ∧ node.dead = false := by
  simp [liveEntries]

end Graph

end DeferredIR
