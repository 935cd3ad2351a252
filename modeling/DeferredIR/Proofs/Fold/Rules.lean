import DeferredIR.Proofs.Fold.Restates

/-!
# When nodes fold

On a well-formed graph the fold rules find a value exactly where a node restates it, and they never
fault. The only nodes at which folding fails are live argument nodes that cannot be bound to their
formal argument.
-/

namespace DeferredIR.Graph

open Check

variable {g : Graph} {options options' : FoldOptions} {n : NodeId} {node tuple : Node}
variable {v w container result : ValueId} {index : Nat}

/-! ## The rules answer -/

theorem exists_shareKnownType (hv : v.index < g.values.size) (hw : w.index < g.values.size) :
    ∃ b, g.shareKnownType v w = .ok b := by
  unfold shareKnownType
  simp only [bind_eq_ok, value_eq_ok, pure_eq_ok]
  exact ⟨_, _, Array.getElem?_eq_getElem hv, _, Array.getElem?_eq_getElem hw, rfl⟩

theorem shareKnownType_eq_true (hv : v.index < g.values.size) (hw : w.index < g.values.size)
    (hs : g.SameKnownType v w) : g.shareKnownType v w = .ok true := by
  have hx := Array.getElem?_eq_getElem hv
  have hy := Array.getElem?_eq_getElem hw
  rw [SameKnownType, typeOf_of_value hx, typeOf_of_value hy] at hs
  unfold shareKnownType
  simp only [bind_eq_ok, value_eq_ok, pure_eq_ok, decide_eq_true_eq]
  exact ⟨_, hx, _, hy, hs⟩

theorem Coherent.exists_definingNode? (h : g.Coherent) (hv : v.index < g.values.size) :
    ∃ x?, g.definingNode? v = .ok x? := by
  have hvalue := Array.getElem?_eq_getElem hv
  unfold definingNode?
  refine exists_bind_eq_ok.mpr ⟨_, value_eq_ok.mpr hvalue, ?_⟩
  have horigin := origin?_of_value hvalue
  split
  · rename_i n ho
    obtain ⟨x, hx, -⟩ := h.exists_node (ho ▸ horigin)
    exact exists_bind_eq_ok.mpr ⟨x, node_eq_ok.mpr hx, _, rfl⟩
  · exact ⟨_, rfl⟩

namespace WellFormed

theorem exists_tupleItem? (h : g.WellFormed) (hc : container.index < g.values.size)
    (hr : result.index < g.values.size) : ∃ v?, g.tupleItem? container result index = .ok v? := by
  obtain ⟨x?, hx⟩ := h.exists_definingNode? hc
  refine exists_bind_eq_ok.mpr ⟨x?, hx, ?_⟩
  split
  · obtain ⟨t, -, ht⟩ := definingNode?_eq_ok_some.mp hx
    split
    · rename_i v hv
      have hlt := h.lt_of_mem_operands ht (List.mem_of_getElem? hv)
      obtain ⟨b, hb⟩ := exists_shareKnownType hlt hr
      exact exists_bind_eq_ok.mpr ⟨b, hb, _, rfl⟩
    · exact ⟨_, rfl⟩
  · exact ⟨_, rfl⟩

theorem exists_pairItem? (h : g.WellFormed) (hc : container.index < g.values.size)
    (hr : result.index < g.values.size) : ∃ v?, g.pairItem? container result index = .ok v? := by
  obtain ⟨x?, hx⟩ := h.exists_definingNode? hc
  refine exists_bind_eq_ok.mpr ⟨x?, hx, ?_⟩
  split
  · split
    · exact h.exists_tupleItem? hc hr
    · exact ⟨_, rfl⟩
  · exact ⟨_, rfl⟩

theorem lt_result (h : g.WellFormed) (hn : g.nodes[n.index]? = some node) :
    node.result.index < g.values.size :=
  lt_of_origin? (h.origin?_result hn)

/-- A node that must have operands has a first one. -/
theorem exists_operand_zero (h : g.WellFormed) (hn : g.nodes[n.index]? = some node) {k : Nat}
    (hk : node.opcode.arity = .exactly (k + 1)) :
    ∃ v, node.operand 0 = .ok v ∧ v.index < g.values.size := by
  have hacc := h.accepts hn
  rw [hk, Arity.accepts_exactly] at hacc
  have hlt : 0 < node.operands.length := by omega
  have hv := List.getElem?_eq_getElem hlt
  exact ⟨_, operand_eq_ok.mpr hv, h.lt_of_mem_operands hn (List.mem_of_getElem? hv)⟩

/-- The rules that read only the node and its operands never fault. -/
theorem exists_localReplacement? (h : g.WellFormed) (options : FoldOptions)
    (hn : g.nodes[n.index]? = some node) : ∃ v?, g.localReplacement? options n = .ok v? := by
  have hr := h.lt_result hn
  refine exists_bind_eq_ok.mpr ⟨node, node_eq_ok.mpr hn, ?_⟩
  split
  · rename_i hk
    obtain ⟨v, hv, hlt⟩ := h.exists_operand_zero hn (k := 0) (by rw [hk]; rfl)
    obtain ⟨b, hb⟩ := exists_shareKnownType hlt hr
    exact exists_bind_eq_ok.mpr ⟨v, hv, exists_bind_eq_ok.mpr ⟨b, hb, _, rfl⟩⟩
  · rename_i index hk
    split
    · obtain ⟨c, hc, hlt⟩ := h.exists_operand_zero hn (k := 1) (by rw [hk]; rfl)
      exact exists_bind_eq_ok.mpr ⟨c, hc, h.exists_tupleItem? hlt hr⟩
    · exact ⟨_, rfl⟩
  · rename_i hk
    split
    · obtain ⟨c, hc, hlt⟩ := h.exists_operand_zero hn (k := 0) (by rw [hk]; rfl)
      exact exists_bind_eq_ok.mpr ⟨c, hc, h.exists_pairItem? hlt hr⟩
    · exact ⟨_, rfl⟩
  · rename_i hk
    split
    · obtain ⟨c, hc, hlt⟩ := h.exists_operand_zero hn (k := 0) (by rw [hk]; rfl)
      exact exists_bind_eq_ok.mpr ⟨c, hc, h.exists_pairItem? hlt hr⟩
    · exact ⟨_, rfl⟩
  · exact ⟨_, rfl⟩

/-! ## The rules are complete -/

theorem tupleItem?_eq_some (h : g.WellFormed) (ht : g.IsTuple container tuple)
    (hv : tuple.operands[index]? = some v) (hr : result.index < g.values.size)
    (hs : g.SameKnownType v result) : g.tupleItem? container result index = .ok (some v) := by
  obtain ⟨t, ho, htn, hd, hk⟩ := ht
  have hlt := h.lt_of_mem_operands htn (List.mem_of_getElem? hv)
  obtain ⟨opcode, operands, r, f, dead⟩ := tuple
  dsimp only at hd hk hv
  subst hd hk
  refine bind_eq_ok.mpr ⟨_, definingNode?_eq_ok_some.mpr ⟨t, ho, htn⟩, ?_⟩
  dsimp only
  rw [hv]
  exact bind_eq_ok.mpr ⟨true, shareKnownType_eq_true hlt hr hs, rfl⟩

theorem pairItem?_eq_some (h : g.WellFormed) (ht : g.IsTuple container tuple)
    (hl : tuple.operands.length = 2) (hv : tuple.operands[index]? = some v)
    (hr : result.index < g.values.size) (hs : g.SameKnownType v result) :
    g.pairItem? container result index = .ok (some v) := by
  obtain ⟨t, ho, htn, -⟩ := id ht
  refine bind_eq_ok.mpr ⟨_, definingNode?_eq_ok_some.mpr ⟨t, ho, htn⟩, ?_⟩
  dsimp only
  rw [if_pos hl]
  exact h.tupleItem?_eq_some ht hv hr hs

theorem localReplacement?_eq_some (h : g.WellFormed) (hn : g.nodes[n.index]? = some node)
    (hr : g.Restates options node v) (harg : ∀ index name, node.opcode ≠ .arg index name) :
    g.localReplacement? options n = .ok (some v) := by
  have hlt := h.lt_result hn
  refine bind_eq_ok.mpr ⟨node, node_eq_ok.mpr hn, ?_⟩
  cases hr with
  | arg hk _ _ => exact absurd hk (harg _ _)
  | cast hk hv hs =>
    rw [hk]
    refine bind_eq_ok.mpr ⟨v, operand_eq_ok.mpr hv, ?_⟩
    have hvlt := h.lt_of_mem_operands hn (List.mem_of_getElem? hv)
    exact bind_eq_ok.mpr ⟨true, shareKnownType_eq_true hvlt hlt hs, rfl⟩
  | @projection index container tuple hstructural hk hc ht hv hs =>
    generalize hop : node.opcode = k at hk
    generalize hlen : tuple.operands.length = length at hk
    cases hk with
    | item =>
      simp only [hstructural, if_true]
      exact bind_eq_ok.mpr ⟨container, operand_eq_ok.mpr hc, h.tupleItem?_eq_some ht hv hlt hs⟩
    | pairFirst =>
      simp only [hstructural, if_true]
      exact bind_eq_ok.mpr
        ⟨container, operand_eq_ok.mpr hc, h.pairItem?_eq_some ht hlen hv hlt hs⟩
    | pairSecond =>
      simp only [hstructural, if_true]
      exact bind_eq_ok.mpr
        ⟨container, operand_eq_ok.mpr hc, h.pairItem?_eq_some ht hlen hv hlt hs⟩

end WellFormed

/-! ## Replacements -/

theorem replacement?_of_dead (hn : g.nodes[n.index]? = some node) (hd : node.dead = true) :
    g.replacement? options n = .ok none := by
  refine bind_eq_ok.mpr ⟨node, liftM_eq_ok.mpr (node_eq_ok.mpr hn), ?_⟩
  rw [if_pos hd]
  rfl

theorem replacement?_of_live (hn : g.nodes[n.index]? = some node) (hd : node.dead = false) :
    g.replacement? options n =
      match node.opcode with
      | .arg index _ => some <$> g.boundFormal n node index
      | _ => liftM (g.localReplacement? options n) := by
  unfold replacement?
  rw [node_eq_ok.mpr hn]
  show (if node.dead = true then _ else _) = _
  rw [if_neg (by simp [hd])]
  cases node.opcode <;> rfl

theorem boundFormal_eq_ok (h : g.WellFormed) (hn : g.nodes[n.index]? = some node)
    (hf : g.formalAt? node.func index = some v) (ht : g.typeOf v = g.typeOf node.result) :
    g.boundFormal n node index = .ok v := by
  have hx := Array.getElem?_eq_getElem (lt_of_origin? (h.formal_iff.mpr hf))
  have hy := Array.getElem?_eq_getElem (h.lt_result hn)
  rw [typeOf_of_value hx, typeOf_of_value hy] at ht
  refine bind_eq_ok.mpr ⟨some v, liftM_eq_ok.mpr (formal?_eq_ok_some.mpr hf), ?_⟩
  refine bind_eq_ok.mpr ⟨_, liftM_eq_ok.mpr (value_eq_ok.mpr hx), ?_⟩
  refine bind_eq_ok.mpr ⟨_, liftM_eq_ok.mpr (value_eq_ok.mpr hy), ?_⟩
  dsimp only
  rw [if_pos ht]
  rfl

namespace WellFormed

/-- A node folds exactly into what it restates, while it is live. -/
theorem replacement?_eq_some_iff (h : g.WellFormed) (hn : g.nodes[n.index]? = some node) :
    g.replacement? options n = .ok (some v) ↔
      node.dead = false ∧ g.Restates options node v := by
  refine ⟨restates_of_node_eq hn, fun ⟨hd, hr⟩ => ?_⟩
  rw [replacement?_of_live hn hd]
  split
  · rename_i index name hk
    cases hr with
    | arg hk' hf ht =>
      cases hk.symm.trans hk'
      rw [boundFormal_eq_ok h hn hf ht]
      rfl
    | cast hk' _ _ => cases hk.symm.trans hk'
    | projection _ hk' _ _ _ _ =>
      rw [hk] at hk'
      cases hk'
  · rename_i harg
    exact liftM_eq_ok.mpr (h.localReplacement?_eq_some hn hr harg)

/-- Folding fails exactly at live argument nodes that cannot be bound. -/
theorem replacement?_eq_error_iff (h : g.WellFormed) (hn : g.nodes[n.index]? = some node)
    {e : Error} :
    g.replacement? options n = .error e ↔ node.dead = false ∧
      ∃ index name, node.opcode = .arg index name ∧ g.boundFormal n node index = .error e := by
  cases hd : node.dead with
  | true => simp [replacement?_of_dead hn hd]
  | false =>
    rw [replacement?_of_live hn hd]
    split
    · rename_i index name hk
      cases hb : g.boundFormal n node index <;> simp [Functor.map, Except.map, hk, hb]
    · rename_i harg
      obtain ⟨v?, hv⟩ := h.exists_localReplacement? options hn
      rw [hv, liftM_ok]
      refine ⟨nofun, fun ⟨_, index, name, hk, _⟩ => absurd hk (harg index name)⟩

end WellFormed

/-- Of the options, only `structural` decides what folds. -/
theorem replacement?_congr (hs : options'.structural = options.structural) :
    g.replacement? options' n = g.replacement? options n := by
  simp only [replacement?, localReplacement?, hs]

end DeferredIR.Graph
