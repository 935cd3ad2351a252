import DeferredIR.Proofs.Fold.Commute
import DeferredIR.Proofs.Graph.Folded
import DeferredIR.Proofs.Graph.Verification
import DeferredIR.Proofs.History

/-!
# Nodes folded onto themselves

Replacements can make a node read its own result, and then a pass may fold it onto itself: nothing
is replaced, the node dies, and whoever reads its result is left with the result of a dead node.
This is the only way in which commands can break a graph. After every script, verification finds
nothing exactly if no value that a pass folded onto itself is still read.
-/

namespace DeferredIR

open DeferredIR.Graph Relation

variable {g g' : Graph} {n : NodeId} {v : ValueId} {c : Command}

namespace Graph

/-- The folds that the passes of a script make. -/
def traceOf (g : Graph) : List Command → List (NodeId × ValueId)
  | [] => []
  | c :: script => c.trace g ++ (c.run g).2.traceOf script

/-- By one of the folds of `trace`, a node with result `v` was folded into `v`. -/
def SelfFolded (g : Graph) (trace : List (NodeId × ValueId)) (v : ValueId) : Prop :=
  ∃ n, (n, v) ∈ trace ∧ g.resultOf? n = some v

/-! ## Passes -/

namespace Folds

variable {options : FoldOptions} {trace : List (NodeId × ValueId)}

/-- What is folded is dead afterwards. -/
theorem folded_of_mem (h : Folds options g trace g') (hwf : g.WellFormed) {p : NodeId × ValueId}
    (hp : p ∈ trace) : ∃ w, g'.resultOf? p.1 = some w ∧ g'.Folded w := by
  obtain ⟨x, hx⟩ := exists_node_of_mem_live (h.mem_live_of_mem hwf hp)
  obtain ⟨y, hy, -⟩ := h.sameShape.symm.exists_node hx
  have hd : y.dead = true := by
    by_contra hlive
    have hy' := mem_live_of_live hy (by simpa using hlive)
    exact ((h.mem_live_iff hwf).mp hy').2 (List.mem_map_of_mem hp)
  exact ⟨y.result, by rw [resultOf?, hy]; rfl, ((h.wellFormed hwf).folded_result_iff hy).mpr hd⟩

theorem unread {S : ValueId → Prop} (h : Folds options g trace g') (hwf : g.WellFormed)
    (hu : g.Unread S) (hS : ∀ v, g.SelfFolded trace v → S v) : g'.Unread S := by
  induction h with
  | nil => exact hu
  | @cons g g' n node w trace hn hr rest ih =>
    obtain ⟨hd, hs⟩ := restates_of_node_eq hn hr
    refine ih (hwf.fold hn hs) (hu.fold hwf hn hd hs ?_) ?_
    · rintro rfl
      exact hS _ ⟨n, List.mem_cons_self, by simp [resultOf?, hn]⟩
    · rintro v ⟨m, hm, hv⟩
      rw [(sameFrame_fold _ _ _ _).resultOf?] at hv
      exact hS v ⟨m, List.mem_cons_of_mem _ hm, hv⟩

end Folds

end Graph

/-! ## Commands and scripts -/

namespace Command

theorem unread_run {S : ValueId → Prop} (h : g.WellFormed) (hu : g.Unread S)
    (hS : ∀ v, g.SelfFolded (c.trace g) v → S v) : (c.run g).2.Unread S := by
  by_cases hc : ∀ options, c ≠ .foldAll options
  · exact (h.steps (fun hwf hu hs => hu.step hwf hs) hu
      (steps (R := fun _ _ => True) h hc fun _ _ => trivial)).2
  · obtain ⟨options, rfl⟩ : ∃ options, c = .foldAll options := by simpa using hc
    exact (folds_foldAll h options).unread h hu hS

theorem folded_of_mem_trace (h : g.WellFormed) {p : NodeId × ValueId} (hp : p ∈ c.trace g) :
    ∃ w, (c.run g).2.resultOf? p.1 = some w ∧ (c.run g).2.Folded w := by
  cases c with
  | foldAll options => exact (folds_foldAll h options).folded_of_mem h hp
  | _ => simp [trace] at hp

end Command

namespace Graph

/-- What a script folds in passes is dead at its end. -/
theorem folded_of_mem_traceOf (h : g.WellFormed) (script : List Command) {p : NodeId × ValueId}
    (hp : p ∈ g.traceOf script) :
    ∃ w, (g.after script).resultOf? p.1 = some w ∧ (g.after script).Folded w := by
  induction script generalizing g with
  | nil => simp [traceOf] at hp
  | cons c script ih =>
    have hwf := c.run_wellFormed h
    rcases List.mem_append.mp hp with hp | hp
    · obtain ⟨w, hw, hf⟩ := Command.folded_of_mem_trace h hp
      have hext := hwf.extends_after script
      exact ⟨w, hext.resultOf? hw, hext.folded hf⟩
    · exact ih hwf hp

theorem unread_after {S : ValueId → Prop} (h : g.WellFormed) (hu : g.Unread S)
    (script : List Command)
    (hS : ∀ v, (g.after script).SelfFolded (g.traceOf script) v → S v) :
    (g.after script).Unread S := by
  induction script generalizing g with
  | nil => exact hu
  | cons c script ih =>
    refine ih (c.run_wellFormed h) (Command.unread_run h hu ?_) ?_
    · rintro v ⟨n, hm, hv⟩
      have hext := h.extends_after (c :: script)
      exact hS v ⟨n, List.mem_append_left _ hm, hext.resultOf? hv⟩
    · rintro v ⟨n, hm, hv⟩
      exact hS v ⟨n, List.mem_append_right _ hm, hv⟩

/-- Live nodes only ever read values of their function, all reads are recorded, and all records are
of reads. Verification fails exactly where a value is still read that a pass folded onto itself,
and then it finds such a read. -/
theorem verify_after_script (table : TypeTable) (script : List Command) :
    let g := (ofTable table).after script
    let trace := (ofTable table).traceOf script
    (g.verify = .ok () ↔ ∀ v, g.SelfFolded trace v → g.usesOf v = []) ∧
      ∀ e, g.verify = .error e → ∃ n slot v, e = .deadOperand n slot v ∧ g.SelfFolded trace v ∧
        ⟨n, slot⟩ ∈ g.usesOf v := by
  intro g trace
  have hwf : g.WellFormed := (wellFormed_ofTable table).after script
  have hfolded : ∀ v, g.SelfFolded trace v → g.Folded v := by
    rintro v ⟨n, hm, hv⟩
    obtain ⟨w, hw, hf⟩ := folded_of_mem_traceOf (wellFormed_ofTable table) script hm
    obtain rfl : w = v := Option.some.inj (hw.symm.trans hv)
    exact hf
  have hunread : g.Unread (g.SelfFolded trace) := by
    refine unread_after (wellFormed_ofTable table) ?_ script fun v hv => hv
    rintro v ⟨n, node, ho, -⟩
    simp [origin?, ofTable] at ho
  refine ⟨⟨fun hok v hv => ?_, fun hself => ?_⟩, fun e he => ?_⟩
  · exact hwf.verify_eq_ok_iff.mp hok v (hfolded v hv)
  · apply hwf.verify_eq_ok_iff.mpr
    intro v hv
    by_cases hv' : g.SelfFolded trace v
    · exact hself v hv'
    · exact hunread v hv hv'
  · obtain ⟨n, slot, v, rfl, hf, hu⟩ := hwf.of_verify_eq_error he
    refine ⟨n, slot, v, rfl, ?_, hu⟩
    by_contra hv
    rw [hunread v hf hv] at hu
    exact List.not_mem_nil hu

/-- A cast that was made to read its own result folds onto itself, and its reader is left with the
result of a dead node. -/
theorem verify_after_self_fold :
    ((ofTable { names := ["int"] }).after
      [.addFunc "f" [⟨1⟩], .build ⟨0⟩ {} (.cast ⟨0⟩ ⟨1⟩), .build ⟨0⟩ {} (.iter ⟨1⟩),
        .replace ⟨0⟩ ⟨1⟩, .foldAll {}]).verify = .error (.deadOperand ⟨1⟩ 0 ⟨1⟩) := by
  rfl

end Graph

end DeferredIR
