import DeferredIR.Proofs.Graph.WellFormed

/-!
# Live nodes

What a dead node once read, and the order in which uses were recorded, depend on the order of the
folds that led to a graph, and no check and no fold rule looks at them. Two graphs are alike if they
differ in nothing else: their live nodes are the same.
-/

namespace DeferredIR

/-- `w`, with `new` for `old`. -/
def ValueId.subst (old new w : ValueId) : ValueId := if w = old then new else w

@[simp] theorem ValueId.subst_old (old new : ValueId) : old.subst new old = new := if_pos rfl

theorem ValueId.subst_of_ne {old new w : ValueId} (h : w ≠ old) : old.subst new w = w := if_neg h

theorem ValueId.subst_self (old w : ValueId) : old.subst old w = w := by
  unfold subst
  split
  · exact Eq.symm ‹_›
  · rfl

/-- The node with other operands. -/
def Node.mapOperands (σ : ValueId → ValueId) (x : Node) : Node :=
  { x with operands := x.operands.map σ }

/-- The draft with other operands. -/
def Draft.mapOperands (σ : ValueId → ValueId) (d : Draft) : Draft :=
  { d with operands := d.operands.map σ }

theorem Node.mapOperands_eq_self {σ : ValueId → ValueId} {x : Node}
    (h : ∀ v ∈ x.operands, σ v = v) : x.mapOperands σ = x := by
  unfold mapOperands
  rw [List.map_congr_left h, List.map_id']

namespace Graph

variable {g h k : Graph} {n m : NodeId} {x : Node} {v old new : ValueId} {f : FuncId} {d : Draft}

/-- The node `n`, while it is live. -/
def liveNode? (g : Graph) (n : NodeId) : Option Node := g.nodes[n.index]?.filter fun x => !x.dead

theorem liveNode?_eq_some :
    g.liveNode? n = some x ↔ g.nodes[n.index]? = some x ∧ x.dead = false := by
  simp [liveNode?, Option.filter_eq_some_iff]

theorem liveNode?_of_live (hn : g.nodes[n.index]? = some x) (hd : x.dead = false) :
    g.liveNode? n = some x :=
  liveNode?_eq_some.mpr ⟨hn, hd⟩

theorem liveNode?_of_dead (hn : g.nodes[n.index]? = some x) (hd : x.dead = true) :
    g.liveNode? n = none := by
  simp [liveNode?, hn, hd]

theorem reads_iff_liveNode? {u : Use} :
    g.reads u v = true ↔ ∃ x, g.liveNode? u.node = some x ∧ x.operands[u.slot]? = some v := by
  simp only [reads_iff, liveNode?_eq_some, and_assoc]

theorem mem_live : n ∈ g.live ↔ ∃ x, g.liveNode? n = some x := by
  simp only [live, List.mem_map, Prod.exists, mem_liveEntries, liveNode?_eq_some]
  constructor
  · rintro ⟨_, x, hx, rfl⟩
    exact ⟨x, hx⟩
  · rintro ⟨x, hx⟩
    exact ⟨n, x, hx, rfl⟩

theorem mem_live_of_live (hn : g.nodes[n.index]? = some x) (hd : x.dead = false) : n ∈ g.live :=
  mem_live.mpr ⟨x, liveNode?_of_live hn hd⟩

theorem mem_live_iff_not_dead (hn : g.nodes[n.index]? = some x) : n ∈ g.live ↔ x.dead = false := by
  constructor
  · intro h
    obtain ⟨y, hy⟩ := mem_live.mp h
    obtain ⟨hy, hd⟩ := liveNode?_eq_some.mp hy
    cases hn.symm.trans hy
    exact hd
  · exact mem_live_of_live hn

theorem exists_node_of_mem_live (hn : n ∈ g.live) : ∃ x, g.nodes[n.index]? = some x := by
  obtain ⟨x, hx⟩ := mem_live.mp hn
  exact ⟨x, (liveNode?_eq_some.mp hx).1⟩

theorem map_fst_nodeEntries (g : Graph) :
    g.nodeEntries.map Prod.fst = (List.range g.nodes.size).map NodeId.mk := by
  rw [nodeEntries, numbered, List.map_map]
  show List.map (NodeId.mk ∘ Prod.snd) _ = _
  rw [← List.map_map, List.zipIdx_map_snd, Array.length_toList, List.range_eq_range']

/-- Live nodes are listed from the oldest to the newest. -/
theorem pairwise_live (g : Graph) : g.live.Pairwise fun m n => m.index < n.index := by
  have hnodes : (g.nodeEntries.map Prod.fst).Pairwise fun m n => m.index < n.index := by
    rw [map_fst_nodeEntries, List.pairwise_map]
    exact List.pairwise_lt_range
  exact hnodes.sublist ((List.filter_sublist (l := g.nodeEntries)).map Prod.fst)

/-- A list that increases has no element twice. -/
theorem nodup_of_pairwise {l : List NodeId} (hl : l.Pairwise fun m n => m.index < n.index) :
    l.Nodup :=
  hl.imp fun hlt he => Nat.ne_of_lt hlt (congrArg NodeId.index he)

theorem nodup_live (g : Graph) : g.live.Nodup := nodup_of_pairwise g.pairwise_live

/-! ## Arenas of one size -/

theorem origin?_eq_none_iff : g.origin? v = none ↔ g.values.size ≤ v.index := by
  simp [origin?]

theorem SameFrame.size_values (s : SameFrame g h) : h.values.size = g.values.size := by
  have hle : ∀ {g h : Graph}, SameFrame g h → g.values.size ≤ h.values.size := by
    intro g h s
    have hnone : h.origin? ⟨h.values.size⟩ = none := origin?_eq_none_iff.mpr (Nat.le_refl _)
    exact origin?_eq_none_iff.mp ((s.origin _).symm.trans hnone)
  exact Nat.le_antisymm (hle s.symm) (hle s)

theorem SameFrame.size_nodes (s : SameFrame g h) : h.nodes.size = g.nodes.size := by
  have hle : ∀ {g h : Graph}, SameFrame g h → g.nodes.size ≤ h.nodes.size := by
    intro g h s
    have hnone := s.node ⟨h.nodes.size⟩
    simpa using hnone.symm
  exact Nat.le_antisymm (hle s.symm) (hle s)

theorem SameFrame.nextNode (s : SameFrame g h) : h.nextNode = g.nextNode :=
  congrArg NodeId.mk s.size_nodes

theorem SameFrame.nextValue (s : SameFrame g h) : h.nextValue = g.nextValue :=
  congrArg ValueId.mk s.size_values

/-! ## Graphs of one shape -/

/-- The two graphs differ at most in use lists, operands and dead marks. -/
structure SameShape (g h : Graph) : Prop extends SameFrame g h where
  types : h.types = g.types
  typeOf : ∀ v, h.typeOf v = g.typeOf v

namespace SameShape

theorem refl (g : Graph) : SameShape g g := ⟨.refl g, rfl, fun _ => rfl⟩

theorem symm (s : SameShape g h) : SameShape h g :=
  ⟨s.toSameFrame.symm, s.types.symm, fun v => (s.typeOf v).symm⟩

theorem trans (hgh : SameShape g h) (hhk : SameShape h k) : SameShape g k :=
  ⟨hgh.toSameFrame.trans hhk.toSameFrame, hhk.types.trans hgh.types,
    fun v => (hhk.typeOf v).trans (hgh.typeOf v)⟩

end SameShape

theorem sameShape_retire (g : Graph) (n : NodeId) : SameShape g (g.retire n) :=
  ⟨sameFrame_retire g n, rfl, typeOf_retire g n⟩

/-! ## Changes of the live nodes -/

theorem WellFormed.liveNode?_redirect (h : g.WellFormed) (old new : ValueId) (m : NodeId) :
    (g.redirect old new).liveNode? m =
      (g.liveNode? m).map (Node.mapOperands (old.subst new)) := by
  unfold liveNode?
  rw [h.nodes_redirect]
  cases g.nodes[m.index]? with
  | none => rfl
  | some x => cases hd : x.dead <;> simp [hd, Option.filter, Node.mapOperands, ValueId.subst]

theorem liveNode?_retire (g : Graph) (n m : NodeId) :
    (g.retire n).liveNode? m = if m = n then none else g.liveNode? m := by
  unfold liveNode?
  rw [getElem?_nodes_retire]
  split
  · cases g.nodes[m.index]? <;> simp [Option.filter]
  · simp

theorem liveNode?_append (g : Graph) (f : FuncId) (d : Draft) (m : NodeId) :
    (g.append f d).liveNode? m =
      if m = g.nextNode then
        some { opcode := d.opcode, operands := d.operands, result := g.nextValue, func := f }
      else g.liveNode? m := by
  unfold liveNode?
  rw [getElem?_nodes_append]
  split <;> rfl

theorem typeOf_append (g : Graph) (f : FuncId) (d : Draft) (v : ValueId) :
    (g.append f d).typeOf v = if v = g.nextValue then d.type else g.typeOf v := by
  simp only [typeOf, getElem?_values_append, Option.map_map]
  split <;> rfl

/-- A node of one shape is added to graphs of one shape. -/
theorem SameShape.append (s : SameShape g h) (f : FuncId) {d' : Draft}
    (hopcode : d'.opcode = d.opcode) (htype : d'.type = d.type)
    (hlength : d'.operands.length = d.operands.length) :
    SameShape (g.append f d) (h.append f d') where
  functions := by
    simp only [Graph.append, s.functions, s.nextNode]
  origin v := by
    rw [origin?_append, origin?_append, s.nextValue, s.nextNode, s.origin]
  node n := by
    rw [getElem?_nodes_append, getElem?_nodes_append, s.nextNode, s.nextValue]
    split
    · simp [Node.frame, hopcode, hlength]
    · exact s.node n
  types := s.types
  typeOf v := by
    rw [typeOf_append, typeOf_append, s.nextValue, s.typeOf, htype]

/-! ## Graphs with the same live nodes -/

/-- The two graphs differ at most in what dead nodes read and in use lists. -/
structure Alike (g h : Graph) : Prop extends SameShape g h where
  live : ∀ n, h.liveNode? n = g.liveNode? n

namespace Alike

theorem refl (g : Graph) : Alike g g := ⟨.refl g, fun _ => rfl⟩

theorem symm (a : Alike g h) : Alike h g := ⟨a.toSameShape.symm, fun n => (a.live n).symm⟩

theorem trans (hgh : Alike g h) (hhk : Alike h k) : Alike g k :=
  ⟨hgh.toSameShape.trans hhk.toSameShape, fun n => (hhk.live n).trans (hgh.live n)⟩

theorem node_of_live (a : Alike g h) (hn : g.nodes[n.index]? = some x) (hd : x.dead = false) :
    h.nodes[n.index]? = some x :=
  (liveNode?_eq_some.mp ((a.live n).trans (liveNode?_of_live hn hd))).1

/-- Nodes of graphs that are alike are dead in both or the same in both. -/
theorem dead_or_eq (a : Alike g h) {y : Node} (hx : g.nodes[n.index]? = some x)
    (hy : h.nodes[n.index]? = some y) : x.dead = true ∧ y.dead = true ∨ y = x := by
  cases hd : x.dead with
  | false => exact .inr (Option.some.inj (hy.symm.trans (a.node_of_live hx hd)))
  | true =>
    refine .inl ⟨rfl, ?_⟩
    by_contra hne
    have hlive := a.live n
    rw [liveNode?_of_dead hx hd, liveNode?_of_live hy (by simpa using hne)] at hlive
    cases hlive

/-- Where use lists are exact, live nodes decide them up to their order. -/
theorem usesOf_perm (a : Alike g h) (hg : g.WellFormed) (hh : h.WellFormed) (v : ValueId) :
    (h.usesOf v).Perm (g.usesOf v) := by
  rw [List.perm_ext_iff_of_nodup (hh.uses_nodup v) (hg.uses_nodup v)]
  intro u
  rw [hh.mem_uses_iff, hg.mem_uses_iff, reads_iff_liveNode?, reads_iff_liveNode?, a.live]

theorem append (a : Alike g h) (f : FuncId) (d : Draft) :
    Alike (g.append f d) (h.append f d) where
  toSameShape := a.toSameShape.append f rfl rfl rfl
  live n := by
    rw [liveNode?_append, liveNode?_append, a.nextNode, a.nextValue, a.live]

end Alike

end Graph

end DeferredIR
