import DeferredIR.Proofs.Run

/-!
# Results of dead nodes

The result of a dead node can only be read if its node was folded onto itself: `Unread S` says that
live nodes read no other results of dead nodes than those in `S`, and is kept by every elementary
change, and by every fold if `S` holds of the values that are folded onto themselves.
-/

namespace DeferredIR.Graph

open Relation

variable {g g' : Graph} {n : NodeId} {node : Node} {v old new : ValueId}

/-- No live node reads the result of a dead one, except for values of `S`. -/
def Unread (S : ValueId → Prop) (g : Graph) : Prop := ∀ v, g.Folded v → ¬ S v → g.usesOf v = []

/-! ## Dead marks under changes -/

theorem Coherent.folded_iff (h : g.Coherent) :
    g.Folded v ↔ ∃ (n : NodeId) (node : Node), g.nodes[n.index]? = some node ∧ node.result = v ∧
      node.dead = true := by
  constructor
  · rintro ⟨n, node, ho, hn, hd⟩
    obtain ⟨x, hx, hr⟩ := h.exists_node ho
    obtain rfl := Option.some.inj (hn.symm.trans hx)
    exact ⟨n, node, hn, hr, hd⟩
  · rintro ⟨n, node, hn, rfl, hd⟩
    exact (h.folded_result_iff hn).mpr hd

theorem WellFormed.folded_redirect (h : g.WellFormed) (old new : ValueId) :
    (g.redirect old new).Folded v ↔ g.Folded v := by
  rw [(h.toCoherent.of_sameFrame (sameFrame_redirect g old new)).folded_iff, h.folded_iff]
  constructor
  · rintro ⟨n, node, hn, hr, hd⟩
    rcases h.of_nodes_redirect hn with ⟨x, hx, ⟨-, rfl⟩ | ⟨hxd, rfl⟩⟩
    · exact ⟨n, node, hx, hr, hd⟩
    · simp [hxd] at hd
  · rintro ⟨n, node, hn, hr, hd⟩
    exact ⟨n, node, by simp [h.nodes_redirect, hn, hd], hr, hd⟩

theorem WellFormed.folded_retire (h : g.WellFormed) (hn : g.nodes[n.index]? = some node) :
    (g.retire n).Folded v ↔ g.Folded v ∨ v = node.result := by
  rw [(h.retire n).folded_iff, h.folded_iff]
  simp only [getElem?_nodes_retire, Option.map_eq_some_iff]
  constructor
  · rintro ⟨m, _, ⟨x, hx, rfl⟩, hr, hd⟩
    by_cases hm : m = n
    · subst hm
      obtain rfl := Option.some.inj (hn.symm.trans hx)
      exact .inr (by simpa using hr.symm)
    · rw [if_neg hm] at hr hd
      exact .inl ⟨m, x, hx, hr, hd⟩
  · rintro (⟨m, x, hx, hr, hd⟩ | rfl)
    · refine ⟨m, _, ⟨x, hx, rfl⟩, ?_⟩
      split <;> simp [hr, hd]
    · exact ⟨n, _, ⟨node, hn, rfl⟩, by simp⟩

theorem WellFormed.folded_append (h : g.WellFormed) {f : FuncId} {d : Draft}
    (hwf : (g.append f d).WellFormed) : (g.append f d).Folded v ↔ g.Folded v := by
  rw [hwf.folded_iff, h.folded_iff]
  simp only [getElem?_nodes_append]
  constructor
  · rintro ⟨n, node, hn, hr, hd⟩
    split at hn
    · obtain rfl := Option.some.inj hn
      simp at hd
    · exact ⟨n, node, hn, hr, hd⟩
  · rintro ⟨n, node, hn, hr, hd⟩
    exact ⟨n, node, by rw [if_neg (ne_nextNode hn), hn], hr, hd⟩

/-- A change that leaves the nodes alone folds nothing away. -/
theorem Coherent.folded_congr (h : g.Coherent) (h' : g'.Coherent) (hnodes : g'.nodes = g.nodes) :
    g'.Folded v ↔ g.Folded v := by
  rw [h.folded_iff, h'.folded_iff, hnodes]

theorem WellFormed.folded_fold {options : FoldOptions} (h : g.WellFormed)
    (hn : g.nodes[n.index]? = some node) (hr : g.Restates options node v) (w : ValueId) :
    (g.fold n node.result v).Folded w ↔ g.Folded w ∨ w = node.result := by
  unfold Graph.fold
  split
  · exact h.folded_retire hn
  · have hwf := h.redirect ‹_› (h.owner?_result hn) (hr.owner? h hn)
    obtain ⟨x, hx, he⟩ := (sameFrame_redirect g node.result v).symm.exists_node hn
    rw [hwf.folded_retire hx, h.folded_redirect, (Node.frame_eq_iff.mp he).2.1]

/-! ## Unread results -/

theorem Unread.step {S : ValueId → Prop} {R : ValueId → ValueId → Prop} (h : g.WellFormed)
    (hu : g.Unread S) (hs : Step R g g') : g'.Unread S := by
  have hwf := h.step hs
  intro v hv hS
  cases hs with
  | intern _ => exact hu v ((h.folded_congr hwf.toCoherent rfl).mp hv) hS
  | appendFunc _ =>
    rw [usesOf_appendFunc]
    exact hu v ((h.folded_congr hwf.toCoherent rfl).mp hv) hS
  | append hd =>
    obtain ⟨-, hops, -⟩ := of_requireDraft hd
    have hv' := (h.folded_append hwf).mp hv
    rw [usesOf_append _ _ _ (lt_of_requireDraft hd), hu v hv' hS, List.nil_append]
    exact usesBy_eq_nil fun hm => (hops v hm).2 hv'
  | assignType _ =>
    rw [usesOf_assignType]
    exact hu v ((h.folded_congr hwf.toCoherent rfl).mp hv) hS
  | @redirect old new hr hne _ =>
    obtain ⟨f, -, hnew, hlive⟩ := of_requireReplaceable hr
    have hv' := (h.folded_redirect old new).mp hv
    have hvn : v ≠ new := fun he => hlive (he ▸ hv')
    rw [usesOf_redirect _ _ _ (lt_of_owner? hnew), if_neg hvn, List.append_nil, hu v hv' hS]
    split <;> rfl
  | @retire n node hn _ hunread =>
    have huses : g.usesOf v = [] := by
      rcases (h.folded_retire hn).mp hv with hv' | rfl
      · exact hu v hv' hS
      · exact hunread
    rw [usesOf_retire, huses]
    split <;> rfl

/-- What a live node restates is a formal argument or read, so it is no unread result of a dead
node. -/
theorem Unread.not_folded_of_restates {S : ValueId → Prop} {options : FoldOptions}
    (hu : g.Unread S) (h : g.WellFormed) (hn : g.nodes[n.index]? = some node)
    (hd : node.dead = false) (hr : g.Restates options node v) (hS : ¬ S v) : ¬ g.Folded v := by
  intro hfolded
  rcases hr.formal_or_read h hn hd with ⟨f, i, ho⟩ | hread
  · obtain ⟨m, y, hm, -⟩ := hfolded
    simp [ho] at hm
  · exact hread (hu v hfolded hS)

/-- A fold leaves its node unread, unless it folds the node onto itself. -/
theorem Unread.fold {S : ValueId → Prop} {options : FoldOptions} (h : g.WellFormed)
    (hu : g.Unread S) (hn : g.nodes[n.index]? = some node) (hd : node.dead = false)
    (hr : g.Restates options node v) (hS : v = node.result → S v) :
    (g.fold n node.result v).Unread S := by
  intro w hfolded hSw
  have hw := (h.folded_fold hn hr w).mp hfolded
  have hunread : w ≠ node.result → g.usesOf w = [] := fun hne =>
    hu w (hw.resolve_right hne) hSw
  unfold Graph.fold
  split
  · rename_i heq
    have hne : w ≠ node.result := by
      rintro rfl
      exact hSw (heq ▸ hS heq.symm)
    rw [usesOf_retire, hunread hne]
    split <;> rfl
  · rename_i hne
    have hwv : w ≠ v := by
      rintro rfl
      exact hu.not_folded_of_restates h hn hd hr hSw (hw.resolve_right (Ne.symm hne))
    have huses : (g.redirect node.result v).usesOf w = [] := by
      rw [usesOf_redirect _ _ _ (lt_of_owner? (hr.owner? h hn)), if_neg hwv, List.append_nil]
      split
      · rfl
      · exact hunread ‹_›
    rw [usesOf_retire, huses]
    split <;> rfl

end DeferredIR.Graph
