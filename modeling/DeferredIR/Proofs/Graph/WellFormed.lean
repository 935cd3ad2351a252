import DeferredIR.Proofs.Graph.Changes

/-!
# Well-formed graphs

The invariant of all graphs that edits can make. The arenas agree on what defines each value, nodes
read values of their own function only, and the use list of a value holds exactly the slots of live
nodes that read it, each once. It does not ask that the values which live nodes read are live.
-/

namespace DeferredIR.Graph

variable {g h : Graph} {n : NodeId} {node : Node} {v w old new : ValueId} {f : FuncId} {u : Use}

/-- The arenas agree on what defines what. -/
structure Coherent (g : Graph) : Prop where
  result_iff : ∀ {v n}, g.origin? v = some (.result n) ↔ g.resultOf? n = some v
  formal_iff : ∀ {v f i}, g.origin? v = some (.formal f i) ↔ g.formalAt? f i = some v
  func_lt : ∀ {n : NodeId} {node}, g.nodes[n.index]? = some node →
    node.func.index < g.functions.size
  /-- The formal arguments of a function are older than its nodes. -/
  formal_lt : ∀ {n : NodeId} {node i v}, g.nodes[n.index]? = some node →
    g.formalAt? node.func i = some v → v.index < node.result.index
  accepts : ∀ {n : NodeId} {node}, g.nodes[n.index]? = some node →
    node.opcode.arity.accepts node.operands.length = true

structure WellFormed (g : Graph) : Prop extends Coherent g where
  operand_owner : ∀ {n : NodeId} {node v}, g.nodes[n.index]? = some node → v ∈ node.operands →
    g.owner? v = some node.func
  uses_nodup : ∀ v, (g.usesOf v).Nodup
  mem_uses_iff : ∀ {v u}, u ∈ g.usesOf v ↔ g.reads u v = true

/-! ## Consequences -/

theorem Coherent.origin?_result (h : g.Coherent) (hn : g.nodes[n.index]? = some node) :
    g.origin? node.result = some (.result n) :=
  h.result_iff.mpr (by simp [resultOf?, hn])

theorem Coherent.owner?_result (h : g.Coherent) (hn : g.nodes[n.index]? = some node) :
    g.owner? node.result = some node.func :=
  owner?_of_result (h.origin?_result hn) hn

theorem Coherent.exists_node (h : g.Coherent) (ho : g.origin? v = some (.result n)) :
    ∃ node, g.nodes[n.index]? = some node ∧ node.result = v :=
  Option.map_eq_some_iff.mp (h.result_iff.mp ho)

theorem Coherent.folded_result_iff (h : g.Coherent) (hn : g.nodes[n.index]? = some node) :
    g.Folded node.result ↔ node.dead = true := by
  have ho := h.origin?_result hn
  constructor
  · rintro ⟨m, x, hm, hx, hd⟩
    obtain rfl : n = m := Origin.result.inj (Option.some.inj (ho.symm.trans hm))
    obtain rfl : node = x := Option.some.inj (hn.symm.trans hx)
    exact hd
  · exact fun hd => ⟨n, node, ho, hn, hd⟩

theorem Coherent.of_sameFrame (h : g.Coherent) {k : Graph} (s : SameFrame g k) : k.Coherent where
  result_iff := by
    intro v n
    rw [s.origin, s.resultOf?]
    exact h.result_iff
  formal_iff := by
    intro v f i
    rw [s.origin, s.formalAt?]
    exact h.formal_iff
  func_lt := by
    intro n node hn
    obtain ⟨x, hx, he⟩ := s.exists_node hn
    obtain ⟨-, -, hf, -⟩ := Node.frame_eq_iff.mp he
    rw [s.functions, ← hf]
    exact h.func_lt hx
  formal_lt := by
    intro n node i v hn hv
    obtain ⟨x, hx, he⟩ := s.exists_node hn
    obtain ⟨-, hr, hf, -⟩ := Node.frame_eq_iff.mp he
    rw [s.formalAt?, ← hf] at hv
    rw [← hr]
    exact h.formal_lt hx hv
  accepts := by
    intro n node hn
    obtain ⟨x, hx, he⟩ := s.exists_node hn
    obtain ⟨ho, -, -, hl⟩ := Node.frame_eq_iff.mp he
    rw [← ho, ← hl]
    exact h.accepts hx

/-- A value that is read exists. -/
theorem WellFormed.exists_of_mem_uses (h : g.WellFormed) (hu : u ∈ g.usesOf v) :
    ∃ node, g.nodes[u.node.index]? = some node ∧ node.dead = false ∧
      node.operands[u.slot]? = some v :=
  reads_iff.mp (h.mem_uses_iff.mp hu)

theorem WellFormed.mem_uses (h : g.WellFormed) {slot : Nat} (hn : g.nodes[n.index]? = some node)
    (hd : node.dead = false) (hv : node.operands[slot]? = some v) : ⟨n, slot⟩ ∈ g.usesOf v :=
  h.mem_uses_iff.mpr (reads_iff.mpr ⟨node, hn, hd, hv⟩)

theorem WellFormed.lt_of_mem_operands (h : g.WellFormed) (hn : g.nodes[n.index]? = some node)
    (hv : v ∈ node.operands) : v.index < g.values.size :=
  lt_of_owner? (h.operand_owner hn hv)

/-- What a node reads is defined in its function, unless it has been folded away. -/
theorem WellFormed.available (h : g.WellFormed) (hn : g.nodes[n.index]? = some node)
    (hv : v ∈ node.operands) (hlive : ¬ g.Folded v) : g.Available node.func v :=
  available_of_owner? (h.operand_owner hn hv) hlive

/-! ## Replacing -/

/-- Where use lists are exact, the live nodes read `new` where they read `old`. -/
theorem WellFormed.nodes_redirect (h : g.WellFormed) (old new : ValueId) (m : NodeId) :
    (g.redirect old new).nodes[m.index]? = g.nodes[m.index]?.map fun x =>
      if x.dead then x
      else { x with operands := x.operands.map fun w => if w = old then new else w } := by
  rw [getElem?_nodes_redirect]
  cases hx : g.nodes[m.index]? with
  | none => rfl
  | some x =>
    have hu (slot : Nat) : (⟨m, slot⟩ : Use) ∈ g.usesOf old ↔
        x.dead = false ∧ x.operands[slot]? = some old := by
      rw [h.mem_uses_iff, reads_iff]
      simp [hx]
    have hops :
        x.operands.mapIdx (fun slot w => if (⟨m, slot⟩ : Use) ∈ g.usesOf old then new else w) =
          if x.dead then x.operands
          else x.operands.map fun w => if w = old then new else w := by
      apply List.ext_getElem?
      intro slot
      rw [List.getElem?_mapIdx]
      simp only [hu]
      cases hd : x.dead
      · cases hs : x.operands[slot]? <;> simp [hs]
      · simp
    obtain ⟨i⟩ := m
    simp only [Option.map_some, hops]
    split <;> rfl

/-- A node after a replacement is a dead one, unchanged, or a live one with `old` substituted. -/
theorem WellFormed.of_nodes_redirect (h : g.WellFormed)
    (hn : (g.redirect old new).nodes[n.index]? = some node) :
    ∃ x, g.nodes[n.index]? = some x ∧ (x.dead = true ∧ node = x ∨ x.dead = false ∧
      node = { x with operands := x.operands.map fun w => if w = old then new else w }) := by
  rw [h.nodes_redirect, Option.map_eq_some_iff] at hn
  obtain ⟨x, hx, rfl⟩ := hn
  refine ⟨x, hx, ?_⟩
  cases hd : x.dead <;> simp

theorem WellFormed.reads_redirect (h : g.WellFormed) (old new v : ValueId) (u : Use) :
    (g.redirect old new).reads u v = true ↔
      ∃ w, g.reads u w = true ∧ v = if w = old then new else w := by
  simp only [reads_iff]
  constructor
  · rintro ⟨node, hn, hd, hv⟩
    rcases h.of_nodes_redirect hn with ⟨x, hx, ⟨hxd, rfl⟩ | ⟨hxd, rfl⟩⟩
    · simp [hxd] at hd
    · rw [List.getElem?_map, Option.map_eq_some_iff] at hv
      obtain ⟨w, hw, hwv⟩ := hv
      exact ⟨w, ⟨x, hx, hxd, hw⟩, hwv.symm⟩
  · rintro ⟨w, ⟨x, hx, hxd, hw⟩, rfl⟩
    refine ⟨{ x with operands := x.operands.map fun w => if w = old then new else w }, ?_, hxd, ?_⟩
    · simp [h.nodes_redirect, hx, hxd]
    · simp [hw]

theorem WellFormed.redirect (h : g.WellFormed) (hne : old ≠ new) (ho : g.owner? old = some f)
    (hn : g.owner? new = some f) : (g.redirect old new).WellFormed where
  toCoherent := h.toCoherent.of_sameFrame (sameFrame_redirect g old new)
  operand_owner := by
    intro n node v hy hv
    rw [(sameFrame_redirect g old new).owner?]
    rcases h.of_nodes_redirect hy with ⟨x, hx, ⟨-, rfl⟩ | ⟨-, rfl⟩⟩
    · exact h.operand_owner hx hv
    · obtain ⟨w, hw, rfl⟩ := List.mem_map.mp hv
      have hwo := h.operand_owner hx hw
      split
      · rename_i heq
        rw [heq, ho] at hwo
        exact hn.trans hwo
      · exact hwo
  uses_nodup := by
    intro v
    rw [usesOf_redirect g old new (lt_of_owner? hn)]
    by_cases hv : v = new
    · subst hv
      simp only [if_neg (Ne.symm hne), if_true]
      refine List.nodup_append'.mpr ⟨h.uses_nodup v, h.uses_nodup old, fun u hu hu' => ?_⟩
      exact hne (reads_inj (h.mem_uses_iff.mp hu') (h.mem_uses_iff.mp hu))
    · rw [if_neg hv, List.append_nil]
      split
      · exact List.nodup_nil
      · exact h.uses_nodup v
  mem_uses_iff := by
    intro v u
    rw [usesOf_redirect g old new (lt_of_owner? hn), h.reads_redirect, List.mem_append]
    by_cases hv : v = new
    · subst hv
      simp only [if_neg (Ne.symm hne), if_true, h.mem_uses_iff]
      constructor
      · rintro (hu | hu)
        · exact ⟨v, hu, (if_neg (Ne.symm hne)).symm⟩
        · exact ⟨old, hu, (if_pos rfl).symm⟩
      · rintro ⟨w, hw, hvw⟩
        split at hvw
        · subst w
          exact .inr hw
        · subst w
          exact .inl hw
    · simp only [if_neg hv, List.not_mem_nil, or_false]
      constructor
      · intro hu
        split at hu
        · simp at hu
        · exact ⟨v, h.mem_uses_iff.mp hu, (if_neg ‹_›).symm⟩
      · rintro ⟨w, hw, hvw⟩
        split at hvw
        · exact absurd hvw hv
        · subst w
          rw [if_neg ‹_›]
          exact h.mem_uses_iff.mpr hw

/-! ## Retiring -/

theorem reads_retire (g : Graph) (n : NodeId) (v : ValueId) (u : Use) :
    (g.retire n).reads u v = true ↔ g.reads u v = true ∧ u.node ≠ n := by
  simp only [reads_iff, getElem?_nodes_retire, Option.map_eq_some_iff]
  constructor
  · rintro ⟨_, ⟨x, hx, rfl⟩, hd, hv⟩
    by_cases hu : u.node = n
    · simp [hu] at hd
    · rw [if_neg hu] at hd hv
      exact ⟨⟨x, hx, hd, hv⟩, hu⟩
  · rintro ⟨⟨x, hx, hd, hv⟩, hu⟩
    refine ⟨x, ⟨x, hx, if_neg hu⟩, hd, hv⟩

/-- A value that `n` does not read records no use by `n`. -/
theorem WellFormed.node_ne_of_mem_uses (h : g.WellFormed) (hu : u ∈ g.usesOf v)
    (hv : v ∉ g.operandsOf n) : u.node ≠ n := by
  rintro rfl
  obtain ⟨x, hx, -, ho⟩ := h.exists_of_mem_uses hu
  apply hv
  simp only [operandsOf, hx, Option.map_some, Option.getD_some]
  exact List.mem_of_getElem? ho

theorem WellFormed.mem_usesOf_retire (h : g.WellFormed) :
    u ∈ (g.retire n).usesOf v ↔ u ∈ g.usesOf v ∧ u.node ≠ n := by
  rw [usesOf_retire]
  split
  · simp
  · exact ⟨fun hu => ⟨hu, h.node_ne_of_mem_uses hu ‹_›⟩, And.left⟩

theorem WellFormed.retire (h : g.WellFormed) (n : NodeId) : (g.retire n).WellFormed where
  toCoherent := h.toCoherent.of_sameFrame (sameFrame_retire g n)
  operand_owner := by
    intro m node v hm hv
    rw [(sameFrame_retire g n).owner?]
    rw [getElem?_nodes_retire, Option.map_eq_some_iff] at hm
    obtain ⟨x, hx, rfl⟩ := hm
    by_cases hmn : m = n
    · rw [if_pos hmn] at hv ⊢
      show g.owner? v = some x.func
      exact h.operand_owner hx hv
    · rw [if_neg hmn] at hv ⊢
      exact h.operand_owner hx hv
  uses_nodup := by
    intro v
    rw [usesOf_retire]
    split
    · exact (h.uses_nodup v).filter _
    · exact h.uses_nodup v
  mem_uses_iff := by
    intro v u
    rw [h.mem_usesOf_retire, reads_retire, h.mem_uses_iff]

/-! ## New nodes -/

theorem owner?_append_of_lt (g : Graph) (f : FuncId) (d : Draft) (h : g.Coherent)
    (hv : v.index < g.values.size) : (g.append f d).owner? v = g.owner? v := by
  unfold owner?
  rw [origin?_append, if_neg (ne_nextValue hv)]
  cases ho : g.origin? v with
  | none => rfl
  | some o =>
    cases o with
    | formal => rfl
    | result n =>
      obtain ⟨node, hn, -⟩ := h.exists_node ho
      simp only [getElem?_nodes_append, if_neg (ne_nextNode hn)]

/-- A new node makes no other value available, and none unavailable. -/
theorem Coherent.available_append_iff (h : g.Coherent) {d : Draft} (hv : v ≠ g.nextValue) :
    (g.append f d).Available f v ↔ g.Available f v := by
  unfold Available
  rw [origin?_append, if_neg hv]
  refine or_congr_right (exists_congr fun n => exists_congr fun x => and_congr_right fun ho => ?_)
  obtain ⟨y, hy, -⟩ := h.exists_node ho
  rw [getElem?_nodes_append, if_neg (ne_nextNode hy)]

theorem Coherent.append (h : g.Coherent) {d : Draft} (hf : f.index < g.functions.size)
    (hk : d.opcode.arity.accepts d.operands.length = true) : (g.append f d).Coherent where
  result_iff := by
    intro v n
    rw [origin?_append]
    simp only [resultOf?, getElem?_nodes_append]
    by_cases hv : v = g.nextValue
    · subst hv
      by_cases hn : n = g.nextNode
      · simp [hn]
      · simp only [if_true, if_neg hn, Option.some.injEq, Origin.result.injEq]
        refine ⟨fun he => absurd he.symm hn, fun hr => ?_⟩
        exact absurd rfl (ne_nextValue (lt_of_origin? (h.result_iff.mpr hr)))
    · rw [if_neg hv]
      by_cases hn : n = g.nextNode
      · subst hn
        simp only [if_true, Option.map_some, Option.some.injEq]
        refine ⟨fun ho => ?_, fun he => absurd he.symm hv⟩
        obtain ⟨node, hn, -⟩ := h.exists_node ho
        exact absurd rfl (ne_nextNode hn)
      · rw [if_neg hn]
        exact h.result_iff
  formal_iff := by
    intro v f' i
    rw [origin?_append, formalAt?_append]
    split
    · subst v
      refine ⟨fun he => by simp at he, fun hi => ?_⟩
      exact absurd rfl (ne_nextValue (lt_of_origin? (h.formal_iff.mpr hi)))
    · exact h.formal_iff
  func_lt := by
    intro n node hn
    rw [getElem?_nodes_append] at hn
    have hsize : (g.append f d).functions.size = g.functions.size := by
      simp [Graph.append]
    rw [hsize]
    split at hn
    · obtain rfl := Option.some.inj hn
      exact hf
    · exact h.func_lt hn
  formal_lt := by
    intro n node i v hn hv
    rw [formalAt?_append] at hv
    rw [getElem?_nodes_append] at hn
    split at hn
    · obtain rfl := Option.some.inj hn
      exact lt_of_origin? (h.formal_iff.mpr hv)
    · exact h.formal_lt hn hv
  accepts := by
    intro n node hn
    rw [getElem?_nodes_append] at hn
    split at hn
    · obtain rfl := Option.some.inj hn
      exact hk
    · exact h.accepts hn

theorem reads_append (g : Graph) (f : FuncId) (d : Draft) (v : ValueId) (u : Use) :
    (g.append f d).reads u v = true ↔
      g.reads u v = true ∨ u.node = g.nextNode ∧ d.operands[u.slot]? = some v := by
  simp only [reads_iff, getElem?_nodes_append]
  by_cases hu : u.node = g.nextNode
  · simp [hu, nextNode]
  · simp [hu]

theorem WellFormed.append (h : g.WellFormed) {d : Draft} (hf : f.index < g.functions.size)
    (hv : ∀ v ∈ d.operands, g.owner? v = some f)
    (hk : d.opcode.arity.accepts d.operands.length = true) : (g.append f d).WellFormed where
  toCoherent := h.toCoherent.append hf hk
  operand_owner := by
    intro n node v hn hm
    rw [getElem?_nodes_append] at hn
    split at hn
    · obtain rfl := Option.some.inj hn
      rw [owner?_append_of_lt g f d h.toCoherent (lt_of_owner? (hv v hm))]
      exact hv v hm
    · rw [owner?_append_of_lt g f d h.toCoherent (h.lt_of_mem_operands hn hm)]
      exact h.operand_owner hn hm
  uses_nodup := by
    intro v
    rw [usesOf_append g f d fun w hw => lt_of_owner? (hv w hw)]
    refine List.nodup_append'.mpr ⟨h.uses_nodup v, nodup_usesBy _ _ _, fun u hu hu' => ?_⟩
    obtain ⟨x, hx, -⟩ := h.exists_of_mem_uses hu
    exact ne_nextNode hx (mem_usesBy.mp hu').1
  mem_uses_iff := by
    intro v u
    rw [usesOf_append g f d fun w hw => lt_of_owner? (hv w hw), reads_append, List.mem_append,
      mem_usesBy, h.mem_uses_iff]

/-! ## New functions, types -/

theorem formalAt?_nextFunc (g : Graph) (i : Nat) : g.formalAt? g.nextFunc i = none := by
  simp [formalAt?, nextFunc]

theorem Coherent.formal_iff_appendFunc (h : g.Coherent) (name : String) (types : List TypeId)
    (v : ValueId) (f : FuncId) (i : Nat) :
    (g.appendFunc name types).origin? v = some (.formal f i) ↔
      (g.appendFunc name types).formalAt? f i = some v := by
  obtain ⟨j⟩ := v
  rw [origin?_appendFunc, formalAt?_appendFunc]
  have hold : g.formalAt? f i = some ⟨j⟩ → j < g.values.size := fun hi =>
    lt_of_origin? (h.formal_iff.mpr hi)
  by_cases hlt : j < g.values.size
  · rw [if_pos hlt, h.formal_iff]
    by_cases hf : f = g.nextFunc
    · subst hf
      rw [formalAt?_nextFunc, if_pos rfl]
      simp only [reduceCtorEq, false_iff]
      split
      · simp only [Option.some.injEq, ValueId.mk.injEq]
        omega
      · simp
    · rw [if_neg hf]
  · by_cases hf : f = g.nextFunc
    · subst hf
      simp only [if_neg hlt, if_true]
      split <;> split <;>
        simp only [Option.some.injEq, Origin.formal.injEq, ValueId.mk.injEq, reduceCtorEq,
          true_and, false_iff, iff_false] <;> omega
    · simp only [if_neg hlt, if_neg hf]
      refine ⟨fun he => ?_, fun hi => absurd (hold hi) hlt⟩
      split at he
      · simp only [Option.some.injEq, Origin.formal.injEq] at he
        exact absurd he.1.symm hf
      · simp at he

theorem WellFormed.appendFunc (h : g.WellFormed) (name : String) (types : List TypeId) :
    (g.appendFunc name types).WellFormed where
  result_iff := by
    intro v n
    show _ ↔ g.resultOf? n = some v
    rw [origin?_appendFunc]
    split
    · exact h.result_iff
    · rename_i hlt
      split
      · refine ⟨fun he => by simp at he, fun hr => absurd ?_ hlt⟩
        exact lt_of_origin? (h.result_iff.mpr hr)
      · refine ⟨fun he => by simp at he, fun hr => absurd ?_ hlt⟩
        exact lt_of_origin? (h.result_iff.mpr hr)
  formal_iff := h.formal_iff_appendFunc name types _ _ _
  func_lt := by
    intro n node hn
    have := h.func_lt (n := n) hn
    simp only [Graph.appendFunc, Array.size_push]
    omega
  formal_lt := by
    intro n node i v hn hv
    have hne : node.func ≠ g.nextFunc := by
      intro he
      have := h.func_lt (n := n) hn
      simp [he, nextFunc] at this
    rw [formalAt?_appendFunc, if_neg hne] at hv
    exact h.formal_lt (n := n) hn hv
  accepts := by
    intro n node hn
    exact h.accepts (n := n) hn
  operand_owner := by
    intro n node v hn hv
    have howner := h.operand_owner (n := n) hn hv
    have hlt := lt_of_owner? howner
    rw [← howner]
    unfold owner?
    rw [origin?_appendFunc, if_pos hlt]
    rfl
  uses_nodup := by
    intro v
    rw [usesOf_appendFunc]
    exact h.uses_nodup v
  mem_uses_iff := by
    intro v u
    rw [usesOf_appendFunc]
    exact h.mem_uses_iff

theorem WellFormed.assignType (h : g.WellFormed) (v : ValueId) (t : TypeId) :
    (g.assignType v t).WellFormed where
  toCoherent := h.toCoherent.of_sameFrame (sameFrame_assignType g v t)
  operand_owner := by
    intro n node w hn hw
    rw [(sameFrame_assignType g v t).owner?]
    exact h.operand_owner hn hw
  uses_nodup := by
    intro w
    rw [usesOf_assignType]
    exact h.uses_nodup w
  mem_uses_iff := by
    intro w u
    rw [usesOf_assignType]
    exact h.mem_uses_iff

theorem WellFormed.withTypes (h : g.WellFormed) (types : TypeTable) :
    ({ g with types } : Graph).WellFormed :=
  { result_iff := h.result_iff, formal_iff := h.formal_iff, func_lt := h.func_lt
    formal_lt := h.formal_lt, accepts := h.accepts, operand_owner := h.operand_owner
    uses_nodup := h.uses_nodup, mem_uses_iff := h.mem_uses_iff }

end DeferredIR.Graph
