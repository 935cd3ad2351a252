import DeferredIR.Proofs.Graph.Consistency

/-!
# Verification of well-formed graphs

The only inconsistency that a well-formed graph can have is a live node that reads the result of a
dead one.
-/

namespace DeferredIR.Graph.WellFormed

open Check

variable {g : Graph} {n : NodeId} {x : Node} {v : ValueId} {slot : Nat} {c : Condition}
variable {e : Inconsistency}

/-- What a live node reads is defined in its function and records the read. -/
theorem eq_live_of_operandFails (h : g.WellFormed) (hx : g.liveNode? n = some x)
    (hv : x.operands[slot]? = some v) {r : Requirement} (hr : g.OperandFails n x slot v r) :
    r = .live := by
  obtain ⟨hn, hd⟩ := liveNode?_eq_some.mp hx
  have howner := h.operand_owner hn (List.mem_of_getElem? hv)
  cases r with
  | known =>
    obtain ⟨o, ho⟩ := exists_origin?_of_owner? howner
    cases ho.symm.trans hr
  | defined =>
    obtain ⟨m, ho, hm⟩ := hr
    obtain ⟨y, hy, -⟩ := h.exists_node ho
    cases hy.symm.trans hm
  | live => rfl
  | own => exact absurd howner hr
  | recorded => exact absurd (h.mem_uses hn hd hv) hr

theorem of_violates (h : g.WellFormed) (hc : g.Violates c e) :
    ∃ n slot v, e = .deadOperand n slot v ∧ g.Folded v ∧ ⟨n, slot⟩ ∈ g.usesOf v := by
  cases hc with
  | count hx hcount =>
    rw [h.accepts (liveNode?_eq_some.mp hx).1] at hcount
    cases hcount
  | definition hx hdef => exact absurd (h.origin?_result (liveNode?_eq_some.mp hx).1) hdef
  | @operand n x slot v r hx hv hr =>
    obtain rfl := h.eq_live_of_operandFails hx hv hr
    obtain ⟨hn, hd⟩ := liveNode?_eq_some.mp hx
    exact ⟨n, slot, v, rfl, hr, h.mem_uses hn hd hv⟩
  | use hu hunread =>
    exact absurd (reads_iff_liveNode?.mp (h.mem_uses_iff.mp (List.mem_of_getElem? hu))) hunread
  | formal hv hdef => exact absurd (h.formal_iff.mpr hv) hdef

/-- A live node that reads the result of a dead one is the only possible inconsistency. -/
theorem of_verify_eq_error (h : g.WellFormed) (he : g.verify = .error e) :
    ∃ n slot v, e = .deadOperand n slot v ∧ g.Folded v ∧ ⟨n, slot⟩ ∈ g.usesOf v := by
  have hfirst := g.reportsFirst_verify
  rw [he] at hfirst
  obtain ⟨c, hc, -⟩ := hfirst
  exact h.of_violates hc

theorem verify_eq_ok_iff (h : g.WellFormed) :
    g.verify = .ok () ↔ ∀ v, g.Folded v → g.usesOf v = [] := by
  rw [g.reportsFirst_verify.eq_ok_iff]
  constructor
  · intro hnone v hv
    apply List.eq_nil_iff_forall_not_mem.mpr
    intro u hu
    obtain ⟨x, hn, hd, ho⟩ := h.exists_of_mem_uses hu
    exact hnone (.operand u.node u.slot .live) _ (.operand (liveNode?_of_live hn hd) ho hv)
  · intro hunread c e hc
    obtain ⟨n, slot, v, -, hfolded, hu⟩ := h.of_violates hc
    exact List.ne_nil_of_mem hu (hunread v hfolded)

end DeferredIR.Graph.WellFormed
