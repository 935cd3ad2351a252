import DeferredIR.Proofs.Graph.Views
import Mathlib.Data.List.Nodup

/-!
# What the changes do to the views

Replacing, retiring and typing leave the frame of a graph as it is: its functions, what defines
each value, and all of a node but what it reads and whether it is dead. A new function or node only
adds to the arenas, and a new node is recorded by each value that it reads.
-/

namespace DeferredIR

/-- What a node is, apart from the values it reads and whether it is dead. -/
def Node.frame (x : Node) : Opcode × ValueId × FuncId × Nat :=
  (x.opcode, x.result, x.func, x.operands.length)

theorem Node.frame_eq_iff {x y : Node} :
    x.frame = y.frame ↔ x.opcode = y.opcode ∧ x.result = y.result ∧ x.func = y.func ∧
      x.operands.length = y.operands.length := by
  simp [frame]

namespace Graph

variable {g h k : Graph} {n : NodeId} {v w : ValueId} {f : FuncId}

/-! ## Frames -/

/-- The two graphs differ at most in types, use lists, operands and dead marks. -/
structure SameFrame (g h : Graph) : Prop where
  functions : h.functions = g.functions
  origin : ∀ v, h.origin? v = g.origin? v
  node : ∀ n : NodeId, h.nodes[n.index]?.map Node.frame = g.nodes[n.index]?.map Node.frame

namespace SameFrame

theorem refl (g : Graph) : SameFrame g g := ⟨rfl, fun _ => rfl, fun _ => rfl⟩

theorem trans (hgh : SameFrame g h) (hhk : SameFrame h k) : SameFrame g k where
  functions := hhk.functions.trans hgh.functions
  origin v := (hhk.origin v).trans (hgh.origin v)
  node n := (hhk.node n).trans (hgh.node n)

theorem exists_node (s : SameFrame g h) {x : Node} (hx : h.nodes[n.index]? = some x) :
    ∃ y, g.nodes[n.index]? = some y ∧ y.frame = x.frame := by
  have hn := s.node n
  rw [hx, Option.map_some] at hn
  exact Option.map_eq_some_iff.mp hn.symm

theorem symm (s : SameFrame g h) : SameFrame h g :=
  ⟨s.functions.symm, fun v => (s.origin v).symm, fun n => (s.node n).symm⟩

theorem map_node {α : Type} (s : SameFrame g h) (φ : Opcode × ValueId × FuncId × Nat → α)
    (n : NodeId) :
    h.nodes[n.index]?.map (fun x => φ x.frame) = g.nodes[n.index]?.map fun x => φ x.frame := by
  have hn := congrArg (Option.map φ) (s.node n)
  simpa only [Option.map_map, Function.comp_def] using hn

theorem resultOf? (s : SameFrame g h) (n : NodeId) : h.resultOf? n = g.resultOf? n :=
  s.map_node (fun p => p.2.1) n

theorem formalAt? (s : SameFrame g h) (f : FuncId) (i : Nat) :
    h.formalAt? f i = g.formalAt? f i := by
  simp only [Graph.formalAt?, s.functions]

theorem owner? (s : SameFrame g h) (v : ValueId) : h.owner? v = g.owner? v := by
  unfold Graph.owner?
  rw [s.origin]
  cases g.origin? v with
  | none => rfl
  | some o =>
    cases o with
    | formal => rfl
    | result n => exact s.map_node (fun p => p.2.2.1) n

end SameFrame

/-! ## Replacing -/

section Redirect

variable (g) (old new : ValueId)

theorem getElem?_values_redirect (i : Nat) :
    (g.redirect old new).values[i]? = g.values[i]?.map fun x =>
      { x with uses := (if old = ⟨i⟩ then [] else x.uses) ++
          if new = ⟨i⟩ then g.usesOf old else [] } := by
  obtain ⟨o⟩ := old
  obtain ⟨w⟩ := new
  simp only [redirect, Array.getElem?_modify, ValueId.mk.injEq]
  split <;> split <;> cases g.values[i]? <;> simp_all

theorem getElem?_nodes_redirect (i : Nat) :
    (g.redirect old new).nodes[i]? = g.nodes[i]?.map fun x =>
      { x with operands := x.operands.mapIdx fun slot w =>
          if (⟨⟨i⟩, slot⟩ : Use) ∈ g.usesOf old then new else w } :=
  getElem?_redirectSlots new (g.usesOf old) g.nodes i

theorem sameFrame_redirect : SameFrame g (g.redirect old new) where
  functions := rfl
  origin v := by
    simp only [origin?, getElem?_values_redirect, Option.map_map]
    rfl
  node n := by
    simp only [getElem?_nodes_redirect, Option.map_map]
    congr 1
    funext x
    simp [Node.frame]

@[simp] theorem typeOf_redirect (v : ValueId) : (g.redirect old new).typeOf v = g.typeOf v := by
  simp only [typeOf, getElem?_values_redirect, Option.map_map]
  rfl

theorem usesOf_redirect (hnew : new.index < g.values.size) (v : ValueId) :
    (g.redirect old new).usesOf v =
      (if v = old then [] else g.usesOf v) ++ if v = new then g.usesOf old else [] := by
  obtain ⟨i⟩ := v
  simp only [usesOf, getElem?_values_redirect, eq_comm (a := old), eq_comm (a := new)]
  cases hi : g.values[i]? with
  | some x => simp
  | none =>
    have hne : (⟨i⟩ : ValueId) ≠ new := by
      rintro rfl
      simp [Array.getElem?_eq_getElem hnew] at hi
    simp [hne]

end Redirect

/-! ## Retiring -/

section Retire

variable (g) (n : NodeId)

theorem getElem?_nodes_retire (m : NodeId) :
    (g.retire n).nodes[m.index]? =
      g.nodes[m.index]?.map fun x => if m = n then { x with dead := true } else x := by
  obtain ⟨i⟩ := m
  obtain ⟨j⟩ := n
  simp only [retire, Array.getElem?_modify, NodeId.mk.injEq, eq_comm (a := i)]
  split <;> simp

theorem getElem?_values_retire (v : ValueId) :
    (g.retire n).values[v.index]? = g.values[v.index]?.map fun x =>
      if v ∈ g.operandsOf n then { x with uses := x.uses.filter fun u => u.node ≠ n } else x :=
  getElem?_forgetUses n (g.operandsOf n) g.values v.index

theorem sameFrame_retire : SameFrame g (g.retire n) where
  functions := rfl
  origin v := by
    simp only [origin?, getElem?_values_retire, Option.map_map]
    congr 1
    funext x
    simp only [Function.comp_apply]
    split <;> rfl
  node m := by
    simp only [getElem?_nodes_retire, Option.map_map]
    congr 1
    funext x
    simp only [Function.comp_apply]
    split <;> rfl

@[simp] theorem typeOf_retire (v : ValueId) : (g.retire n).typeOf v = g.typeOf v := by
  simp only [typeOf, getElem?_values_retire, Option.map_map]
  congr 2
  funext x
  simp only [Function.comp_apply]
  split <;> rfl

theorem usesOf_retire (v : ValueId) :
    (g.retire n).usesOf v =
      if v ∈ g.operandsOf n then (g.usesOf v).filter fun u => u.node ≠ n else g.usesOf v := by
  simp only [usesOf, getElem?_values_retire, Option.map_map]
  cases g.values[v.index]? with
  | none => simp
  | some x => split <;> simp_all

end Retire

/-! ## Typing -/

section AssignType

variable (g) (v : ValueId) (t : TypeId)

theorem sameFrame_assignType : SameFrame g (g.assignType v t) where
  functions := rfl
  origin w := by
    simp only [origin?, assignType, modifyValue, Array.getElem?_modify]
    split <;> simp [Function.comp_def]
  node _ := rfl

@[simp] theorem usesOf_assignType (w : ValueId) : (g.assignType v t).usesOf w = g.usesOf w := by
  simp only [usesOf, assignType, modifyValue, Array.getElem?_modify]
  split <;> simp [Function.comp_def]

theorem typeOf_assignType (hv : v.index < g.values.size) (w : ValueId) :
    (g.assignType v t).typeOf w = if w = v then t else g.typeOf w := by
  obtain ⟨i⟩ := v
  obtain ⟨j⟩ := w
  simp only [typeOf, assignType, modifyValue, Array.getElem?_modify, ValueId.mk.injEq,
    eq_comm (a := j)]
  split
  · subst j
    simp [Array.getElem?_eq_getElem hv]
  · rfl

end AssignType

/-! ## New functions -/

section AppendFunc

variable (g) (name : String) (types : List TypeId)

theorem getElem?_values_appendFunc (i : Nat) :
    (g.appendFunc name types).values[i]? =
      if i < g.values.size then g.values[i]?
      else types[i - g.values.size]?.map fun t =>
        ⟨.formal g.nextFunc (i - g.values.size), t, []⟩ := by
  simp [appendFunc, Array.getElem?_append]

theorem origin?_appendFunc (v : ValueId) :
    (g.appendFunc name types).origin? v =
      if v.index < g.values.size then g.origin? v
      else if v.index - g.values.size < types.length then
        some (.formal g.nextFunc (v.index - g.values.size))
      else none := by
  simp only [origin?, getElem?_values_appendFunc]
  split
  · rfl
  · split
    · simp [*]
    · simp [List.getElem?_eq_none (Nat.le_of_not_lt ‹_›)]

theorem formalAt?_appendFunc (f : FuncId) (i : Nat) :
    (g.appendFunc name types).formalAt? f i =
      if f = g.nextFunc then
        if i < types.length then some ⟨g.values.size + i⟩ else none
      else g.formalAt? f i := by
  obtain ⟨j⟩ := f
  simp only [formalAt?, appendFunc, nextFunc, Array.getElem?_push, FuncId.mk.injEq]
  split
  · split <;> simp [*]
  · rfl

theorem usesOf_appendFunc (v : ValueId) :
    (g.appendFunc name types).usesOf v = g.usesOf v := by
  simp only [usesOf, getElem?_values_appendFunc]
  split
  · rfl
  · rename_i hlt
    rw [Array.getElem?_eq_none (Nat.le_of_not_lt hlt)]
    cases types[v.index - g.values.size]? <;> rfl

theorem typeOf_appendFunc (v : ValueId) :
    (g.appendFunc name types).typeOf v =
      if v.index < g.values.size then g.typeOf v
      else types[v.index - g.values.size]?.getD .undefined := by
  simp only [typeOf, getElem?_values_appendFunc]
  split
  · rfl
  · cases types[v.index - g.values.size]? <;> rfl

end AppendFunc

/-! ## New nodes -/

/-- The records of the slots of `n` that read `v`. -/
def usesBy (n : NodeId) (operands : List ValueId) (v : ValueId) : List Use :=
  (operands.zipIdx.filter fun p => p.1.index = v.index).map fun p => ⟨n, p.2⟩

theorem mem_usesBy {operands : List ValueId} {u : Use} :
    u ∈ usesBy n operands v ↔ u.node = n ∧ operands[u.slot]? = some v := by
  obtain ⟨m, slot⟩ := u
  obtain ⟨i⟩ := v
  simp only [usesBy, List.mem_map, List.mem_filter, List.mem_zipIdx_iff_getElem?,
    decide_eq_true_eq, Use.mk.injEq, Prod.exists]
  constructor
  · rintro ⟨⟨j⟩, s, ⟨hs, rfl⟩, rfl, rfl⟩
    exact ⟨rfl, hs⟩
  · rintro ⟨rfl, hs⟩
    exact ⟨⟨i⟩, slot, ⟨hs, rfl⟩, rfl, rfl⟩

theorem usesBy_eq_nil {operands : List ValueId} (hv : v ∉ operands) : usesBy n operands v = [] :=
  List.eq_nil_iff_forall_not_mem.mpr fun _ hu => hv (List.mem_of_getElem? (mem_usesBy.mp hu).2)

theorem nodup_usesBy (n : NodeId) (operands : List ValueId) (v : ValueId) :
    (usesBy n operands v).Nodup := by
  have hslots : (operands.zipIdx.map Prod.snd).Nodup := by
    rw [List.zipIdx_map_snd]
    exact List.nodup_range'
  have hsub : ((operands.zipIdx.filter fun p => p.1.index = v.index).map Prod.snd).Nodup :=
    (List.filter_sublist.map Prod.snd).nodup hslots
  have hmap := List.Nodup.map (f := Use.mk n) (fun _ _ he => (Use.mk.inj he).2) hsub
  rw [List.map_map] at hmap
  exact hmap

theorem ne_nextNode {x : Node} (hx : g.nodes[n.index]? = some x) : n ≠ g.nextNode := by
  rintro rfl
  simp [nextNode] at hx

theorem ne_nextValue (hv : v.index < g.values.size) : v ≠ g.nextValue := by
  rintro rfl
  exact Nat.lt_irrefl _ hv

section Append

variable (g) (f : FuncId) (d : Draft)

theorem getElem?_nodes_append (m : NodeId) :
    (g.append f d).nodes[m.index]? =
      if m = g.nextNode then
        some { opcode := d.opcode, operands := d.operands, result := g.nextValue, func := f }
      else g.nodes[m.index]? := by
  obtain ⟨i⟩ := m
  simp only [append, nextNode, Array.getElem?_push, NodeId.mk.injEq]

theorem getElem?_nodes_append_nextNode :
    (g.append f d).nodes[g.nextNode.index]? =
      some { opcode := d.opcode, operands := d.operands, result := g.nextValue, func := f } := by
  rw [getElem?_nodes_append, if_pos rfl]

theorem getElem?_values_append (v : ValueId) :
    (g.append f d).values[v.index]? =
      (if v = g.nextValue then some ⟨.result g.nextNode, d.type, []⟩
        else g.values[v.index]?).map fun x =>
          { x with uses := x.uses ++ usesBy g.nextNode d.operands v } := by
  obtain ⟨i⟩ := v
  simp only [append, getElem?_recordUses, Array.getElem?_push, nextValue, ValueId.mk.injEq]
  rfl

theorem origin?_append (v : ValueId) :
    (g.append f d).origin? v =
      if v = g.nextValue then some (.result g.nextNode) else g.origin? v := by
  simp only [origin?, getElem?_values_append, Option.map_map]
  split <;> rfl

theorem formalAt?_append (f' : FuncId) (i : Nat) :
    (g.append f d).formalAt? f' i = g.formalAt? f' i := by
  simp only [formalAt?, append, Array.getElem?_modify]
  split
  · cases g.functions[f'.index]? <;> rfl
  · rfl

theorem usesOf_append (h : ∀ w ∈ d.operands, w.index < g.values.size) (v : ValueId) :
    (g.append f d).usesOf v = g.usesOf v ++ usesBy g.nextNode d.operands v := by
  simp only [usesOf, getElem?_values_append]
  have hnew : ¬ v.index < g.values.size → usesBy g.nextNode d.operands v = [] := fun hlt =>
    usesBy_eq_nil fun hm => hlt (h v hm)
  by_cases hv : v = g.nextValue
  · subst hv
    simp [nextValue]
  · cases hx : g.values[v.index]? with
    | some x => simp [hv]
    | none => simp [hv, hnew (Nat.not_lt.mpr (Array.getElem?_eq_none_iff.mp hx))]

end Append

theorem getElem?_nodes_append_of_node {x : Node} (f : FuncId) (d : Draft)
    (hx : g.nodes[n.index]? = some x) : (g.append f d).nodes[n.index]? = some x := by
  rw [getElem?_nodes_append, if_neg (ne_nextNode hx), hx]

end Graph

end DeferredIR
