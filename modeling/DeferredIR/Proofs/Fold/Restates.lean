import DeferredIR.Fold.Replacement
import DeferredIR.Proofs.Graph.WellFormed

/-!
# The fold rules as a relation

A node restates a value by one of three rules: argument nodes restate formal arguments, casts their
operands, and projections items of tuples. What a fold puts in the place of a result always has its
type, is owned by the function of the node, and is a formal argument or read by a live node.
-/

namespace DeferredIR

open Check

/-- The opcode takes item `index` of a tuple that has `length` items. -/
inductive Opcode.Projects : Opcode → (index length : Nat) → Prop where
  | item (index length : Nat) : Projects (.item index) index length
  | pairFirst : Projects .pairFirst 0 2
  | pairSecond : Projects .pairSecond 1 2

namespace Graph

variable {g : Graph} {options : FoldOptions} {n : NodeId} {node tuple : Node} {v w : ValueId}

/-- The two values have one type, and it is known. -/
def SameKnownType (g : Graph) (v w : ValueId) : Prop :=
  g.typeOf v = g.typeOf w ∧ g.typeOf v ≠ .undefined

/-- `v` is the result of the live tuple node `tuple`. -/
def IsTuple (g : Graph) (v : ValueId) (tuple : Node) : Prop :=
  ∃ n, g.origin? v = some (.result n) ∧ g.nodes[n.index]? = some tuple ∧ tuple.dead = false ∧
    tuple.opcode = .tuple

/-- By some fold rule, `node` only restates `v`. -/
inductive Restates (g : Graph) (options : FoldOptions) (node : Node) (v : ValueId) : Prop where
  | arg {index : Nat} {name : String} (opcode : node.opcode = .arg index name)
      (formal : g.formalAt? node.func index = some v) (type : g.typeOf v = g.typeOf node.result)
  | cast (opcode : node.opcode = .cast) (operand : node.operands[0]? = some v)
      (type : g.SameKnownType v node.result)
  | projection {index : Nat} {container : ValueId} {tuple : Node}
      (structural : options.structural = true)
      (opcode : node.opcode.Projects index tuple.operands.length)
      (operand : node.operands[0]? = some container) (isTuple : g.IsTuple container tuple)
      (item : tuple.operands[index]? = some v) (type : g.SameKnownType v node.result)

/-! ## The rules are those of the library -/

theorem sameKnownType_of_eq_ok (h : g.shareKnownType v w = .ok true) : g.SameKnownType v w := by
  unfold shareKnownType at h
  simp only [bind_eq_ok, value_eq_ok, pure_eq_ok, decide_eq_true_eq] at h
  obtain ⟨x, hx, y, hy, ht, hne⟩ := h
  rw [SameKnownType, typeOf_of_value hx, typeOf_of_value hy]
  exact ⟨ht, hne⟩

theorem of_tupleItem?_eq_ok {container result : ValueId} {index : Nat}
    (h : g.tupleItem? container result index = .ok (some v)) :
    ∃ tuple, g.IsTuple container tuple ∧ tuple.operands[index]? = some v ∧
      g.SameKnownType v result := by
  unfold tupleItem? at h
  obtain ⟨d, hd, h⟩ := bind_eq_ok.mp h
  split at h
  · rename_i operands r f
    obtain ⟨t, ho, ht⟩ := definingNode?_eq_ok_some.mp hd
    split at h
    · rename_i w hw
      obtain ⟨b, hb, h⟩ := bind_eq_ok.mp h
      cases b with
      | false => simp at h
      | true =>
        obtain rfl : w = v := by simpa using h
        exact ⟨_, ⟨t, ho, ht, rfl, rfl⟩, hw, sameKnownType_of_eq_ok hb⟩
    · simp at h
  · simp at h

theorem of_pairItem?_eq_ok {pair result : ValueId} {index : Nat}
    (h : g.pairItem? pair result index = .ok (some v)) :
    ∃ tuple, g.IsTuple pair tuple ∧ tuple.operands.length = 2 ∧
      tuple.operands[index]? = some v ∧ g.SameKnownType v result := by
  unfold pairItem? at h
  obtain ⟨d, hd, h⟩ := bind_eq_ok.mp h
  split at h
  · rename_i node
    split at h
    · obtain ⟨tuple, ht, hv, hs⟩ := of_tupleItem?_eq_ok h
      obtain ⟨t, ho, hn⟩ := definingNode?_eq_ok_some.mp hd
      have ⟨t', ho', hn', _⟩ := ht
      obtain rfl : t = t' := Origin.result.inj (Option.some.inj (ho.symm.trans ho'))
      obtain rfl : node = tuple := Option.some.inj (hn.symm.trans hn')
      exact ⟨node, ht, ‹_›, hv, hs⟩
    · simp at h
  · simp at h

/-- A rule that reads only the node and its operands restates a value, but never for an argument
node. -/
theorem restates_of_localReplacement? (h : g.localReplacement? options n = .ok (some v)) :
    ∃ node, g.nodes[n.index]? = some node ∧ g.Restates options node v ∧
      ∀ index name, node.opcode ≠ .arg index name := by
  unfold localReplacement? at h
  obtain ⟨node, hn, h⟩ := bind_eq_ok.mp h
  refine ⟨node, node_eq_ok.mp hn, ?_⟩
  split at h
  · rename_i hk
    obtain ⟨w, hw, h⟩ := bind_eq_ok.mp h
    obtain ⟨b, hb, h⟩ := bind_eq_ok.mp h
    cases b with
    | false => simp at h
    | true =>
      obtain rfl : w = v := by simpa using h
      exact ⟨.cast hk (operand_eq_ok.mp hw) (sameKnownType_of_eq_ok hb), by simp [hk]⟩
  · rename_i index hk
    split at h
    · obtain ⟨c, hc, h⟩ := bind_eq_ok.mp h
      obtain ⟨tuple, ht, hv, hs⟩ := of_tupleItem?_eq_ok h
      exact ⟨.projection ‹_› (hk ▸ .item _ _) (operand_eq_ok.mp hc) ht hv hs, by simp [hk]⟩
    · simp at h
  · rename_i hk
    split at h
    · obtain ⟨c, hc, h⟩ := bind_eq_ok.mp h
      obtain ⟨tuple, ht, hl, hv, hs⟩ := of_pairItem?_eq_ok h
      exact ⟨.projection ‹_› (hk ▸ hl ▸ .pairFirst) (operand_eq_ok.mp hc) ht hv hs, by simp [hk]⟩
    · simp at h
  · rename_i hk
    split at h
    · obtain ⟨c, hc, h⟩ := bind_eq_ok.mp h
      obtain ⟨tuple, ht, hl, hv, hs⟩ := of_pairItem?_eq_ok h
      exact ⟨.projection ‹_› (hk ▸ hl ▸ .pairSecond) (operand_eq_ok.mp hc) ht hv hs, by simp [hk]⟩
    · simp at h
  · simp at h

theorem of_boundFormal_eq_ok {index : Nat} (h : g.boundFormal n node index = .ok v) :
    g.formalAt? node.func index = some v ∧ g.typeOf v = g.typeOf node.result := by
  unfold boundFormal at h
  obtain ⟨d, hd, h⟩ := bind_eq_ok.mp h
  split at h
  · rename_i formal
    simp only [bind_eq_ok, liftM_eq_ok, value_eq_ok] at h
    obtain ⟨x, hx, y, hy, h⟩ := h
    split at h
    · rename_i ht
      obtain rfl : formal = v := by simpa using h
      rw [typeOf_of_value hx, typeOf_of_value hy]
      exact ⟨formal?_eq_ok_some.mp (liftM_eq_ok.mp hd), ht⟩
    · simp at h
  · simp at h

/-- Only live nodes fold, and only into what they restate. -/
theorem restates_of_replacement? (h : g.replacement? options n = .ok (some v)) :
    ∃ node, g.nodes[n.index]? = some node ∧ node.dead = false ∧ g.Restates options node v := by
  unfold replacement? at h
  obtain ⟨node, hn, h⟩ := bind_eq_ok.mp h
  have hnode := node_eq_ok.mp (liftM_eq_ok.mp hn)
  refine ⟨node, hnode, ?_⟩
  cases hd : node.dead with
  | true => simp [hd] at h
  | false =>
    simp only [hd, Bool.false_eq_true, if_false] at h
    split at h
    · rename_i index name hk
      obtain ⟨w, hw, h⟩ := bind_eq_ok.mp h
      obtain rfl : w = v := by simpa using h
      obtain ⟨hf, ht⟩ := of_boundFormal_eq_ok hw
      exact ⟨rfl, .arg hk hf ht⟩
    · obtain ⟨x, hx, hr, -⟩ := restates_of_localReplacement? (liftM_eq_ok.mp h)
      obtain rfl : node = x := Option.some.inj (hnode.symm.trans hx)
      exact ⟨rfl, hr⟩

theorem restates_of_node_eq (hn : g.nodes[n.index]? = some node)
    (h : g.replacement? options n = .ok (some v)) :
    node.dead = false ∧ g.Restates options node v := by
  obtain ⟨x, hx, hd, hr⟩ := restates_of_replacement? h
  obtain rfl : node = x := Option.some.inj (hn.symm.trans hx)
  exact ⟨hd, hr⟩

/-! ## What stands for a node -/

namespace Restates

theorem typeOf_eq (hr : g.Restates options node v) : g.typeOf v = g.typeOf node.result := by
  cases hr with
  | arg _ _ ht => exact ht
  | cast _ _ ht => exact ht.1
  | projection _ _ _ _ _ ht => exact ht.1

/-- What stands for a live node is a formal argument or read by a live node. -/
theorem formal_or_read (hr : g.Restates options node v) (h : g.WellFormed)
    (hn : g.nodes[n.index]? = some node) (hd : node.dead = false) :
    (∃ f i, g.origin? v = some (.formal f i)) ∨ g.usesOf v ≠ [] := by
  cases hr with
  | arg _ hf _ => exact .inl ⟨_, _, h.formal_iff.mpr hf⟩
  | cast _ hv _ => exact .inr (List.ne_nil_of_mem (h.mem_uses hn hd hv))
  | projection _ _ _ ht hv _ =>
    obtain ⟨t, -, hn, hd, -⟩ := ht
    exact .inr (List.ne_nil_of_mem (h.mem_uses hn hd hv))

theorem owner? (hr : g.Restates options node v) (h : g.WellFormed)
    (hn : g.nodes[n.index]? = some node) : g.owner? v = some node.func := by
  cases hr with
  | arg _ hf _ => exact owner?_of_formal (h.formal_iff.mpr hf)
  | cast _ hv _ => exact h.operand_owner hn (List.mem_of_getElem? hv)
  | projection _ _ hc ht hv _ =>
    obtain ⟨t, ho, ht, -⟩ := ht
    have hfunc := h.operand_owner hn (List.mem_of_getElem? hc)
    rw [owner?_of_result ho ht] at hfunc
    rw [← hfunc]
    exact h.operand_owner ht (List.mem_of_getElem? hv)

end Restates

end Graph

end DeferredIR
