import DeferredIR.Graph.Basic

/-!
# Writing to a graph

The unchecked changes from which edits are made. Each is a function on graphs that does nothing at
positions outside an arena; `Edit` says when each is allowed. The use lists and operand lists after
a change are given entry by entry in `getElem?_recordUses`, `getElem?_forgetUses` and
`getElem?_redirectSlots`.
-/

namespace DeferredIR

/-- What is needed to build a node in a given function. -/
structure Draft where
  opcode : Opcode
  operands : List ValueId
  type : TypeId := .undefined

namespace Graph

/-! ## Use lists and operand slots -/

/-- The values after node `n` came to read `operands`, one record a slot. -/
def recordUses (n : NodeId) (operands : List ValueId) (values : Array Value) : Array Value :=
  operands.zipIdx.foldl
    (fun values p => values.modify p.1.index fun x => { x with uses := x.uses ++ [⟨n, p.2⟩] })
    values

/-- The values after node `n` no longer reads any of `operands`. -/
def forgetUses (n : NodeId) (operands : List ValueId) (values : Array Value) : Array Value :=
  operands.foldl
    (fun values v => values.modify v.index fun x =>
      { x with uses := x.uses.filter fun u => u.node ≠ n })
    values

/-- The nodes after the slots `uses` came to read `v`. -/
def redirectSlots (v : ValueId) (uses : List Use) (nodes : Array Node) : Array Node :=
  uses.foldl
    (fun nodes u => nodes.modify u.node.index fun x =>
      { x with operands := x.operands.set u.slot v })
    nodes

/-- A value gains a record for each slot in which it stands. -/
theorem getElem?_recordUses (n : NodeId) (operands : List ValueId) (values : Array Value)
    (i : Nat) :
    (recordUses n operands values)[i]? = values[i]?.map fun x =>
      { x with uses := x.uses ++
          (operands.zipIdx.filter fun p => p.1.index = i).map fun p => ⟨n, p.2⟩ } := by
  unfold recordUses
  generalize operands.zipIdx = slots
  induction slots generalizing values with
  | nil => simp
  | cons p slots ih =>
    rw [List.foldl_cons, ih, Array.getElem?_modify]
    split
    · cases values[i]? <;> simp_all
    · simp_all

/-- A value that was read loses all records of the node. -/
theorem getElem?_forgetUses (n : NodeId) (operands : List ValueId) (values : Array Value)
    (i : Nat) :
    (forgetUses n operands values)[i]? = values[i]?.map fun x =>
      if (⟨i⟩ : ValueId) ∈ operands then
        { x with uses := x.uses.filter fun u => u.node ≠ n }
      else x := by
  unfold forgetUses
  induction operands generalizing values with
  | nil => simp
  | cons v operands ih =>
    rw [List.foldl_cons, ih, Array.getElem?_modify]
    obtain ⟨j⟩ := v
    by_cases h : j = i
    · subst h
      cases values[j]? <;> simp
    · have hne : (⟨i⟩ : ValueId) ≠ ⟨j⟩ := by simpa using Ne.symm h
      cases values[i]? <;> simp [h, hne]

/-- A slot is redirected exactly if it is listed. -/
theorem getElem?_redirectSlots (v : ValueId) (uses : List Use) (nodes : Array Node) (i : Nat) :
    (redirectSlots v uses nodes)[i]? = nodes[i]?.map fun x =>
      { x with operands := x.operands.mapIdx fun slot w =>
          if (⟨⟨i⟩, slot⟩ : Use) ∈ uses then v else w } := by
  unfold redirectSlots
  induction uses generalizing nodes with
  | nil =>
    have id_mapIdx (l : List ValueId) : l.mapIdx (fun _ w => w) = l :=
      List.ext_getElem? fun k => by simp
    cases h : nodes[i]? <;> simp [h, id_mapIdx]
  | cons u uses ih =>
    rw [List.foldl_cons, ih, Array.getElem?_modify]
    obtain ⟨⟨j⟩, s⟩ := u
    cases nodes[i]? with
    | none => simp
    | some x =>
      by_cases h : j = i
      · subst h
        simp only [reduceIte, Option.map_some, Option.some.injEq, Node.mk.injEq, true_and,
          and_true]
        refine List.ext_getElem? fun k => ?_
        simp only [List.getElem?_mapIdx, List.getElem?_set, List.mem_cons, Use.mk.injEq, true_and]
        grind
      · simp [h, Ne.symm h]

/-! ## Single entries -/

def modifyFunc (g : Graph) (f : FuncId) (change : Func → Func) : Graph :=
  { g with functions := g.functions.modify f.index change }

def modifyNode (g : Graph) (n : NodeId) (change : Node → Node) : Graph :=
  { g with nodes := g.nodes.modify n.index change }

def modifyValue (g : Graph) (v : ValueId) (change : Value → Value) : Graph :=
  { g with values := g.values.modify v.index change }

/-- `g` with the type of `v` set. -/
def assignType (g : Graph) (v : ValueId) (type : TypeId) : Graph :=
  g.modifyValue v fun x => { x with type }

/-! ## New entries -/

/-- The handle of the next function. -/
def nextFunc (g : Graph) : FuncId := ⟨g.functions.size⟩

/-- The handle of the next node. -/
def nextNode (g : Graph) : NodeId := ⟨g.nodes.size⟩

/-- The handle of the next value. -/
def nextValue (g : Graph) : ValueId := ⟨g.values.size⟩

/-- `g` with a new function that has formal arguments of the given types. -/
def appendFunc (g : Graph) (name : String) (types : List TypeId) : Graph :=
  { g with
    functions := g.functions.push
      { name, formals := (List.range types.length).map fun i => ⟨g.values.size + i⟩ }
    values := g.values ++ (types.mapIdx fun i t => ⟨.formal g.nextFunc i, t, []⟩).toArray }

/-- `g` with a new node at the end of `f`, its result, and a record of each operand slot. -/
def append (g : Graph) (f : FuncId) (d : Draft) : Graph :=
  { g with
    functions := g.functions.modify f.index fun x => { x with body := x.body ++ [g.nextNode] }
    nodes := g.nodes.push
      { opcode := d.opcode, operands := d.operands, result := g.nextValue, func := f }
    values := recordUses g.nextNode d.operands
      (g.values.push { origin := .result g.nextNode, type := d.type }) }

/-! ## Replacement -/

/-- The recorded uses of `v`; a value that does not exist has none. -/
def usesOf (g : Graph) (v : ValueId) : List Use := (g.values[v.index]?.map Value.uses).getD []

/-- The operands of `n`; a node that does not exist has none. -/
def operandsOf (g : Graph) (n : NodeId) : List ValueId :=
  (g.nodes[n.index]?.map Node.operands).getD []

/-- `g` with `new` read in each slot that is recorded to read `old`. The records move to the end of
the use list of `new`. -/
def redirect (g : Graph) (old new : ValueId) : Graph :=
  { g with
    nodes := redirectSlots new (g.usesOf old) g.nodes
    values := (g.values.modify old.index fun x => { x with uses := [] }).modify new.index
      fun x => { x with uses := x.uses ++ g.usesOf old } }

/-- `g` with `n` marked dead and its records removed from the values it reads. -/
def retire (g : Graph) (n : NodeId) : Graph :=
  { g with
    nodes := g.nodes.modify n.index fun x => { x with dead := true }
    values := forgetUses n (g.operandsOf n) g.values }

end Graph

end DeferredIR
