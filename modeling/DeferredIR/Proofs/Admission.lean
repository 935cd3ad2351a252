import DeferredIR.Proofs.Graph.Folded
import DeferredIR.Proofs.Graph.Verification
import DeferredIR.Proofs.Renaming

/-!
# Admission and verification

Before a node is built, its operands are checked one by one against the graph without it;
verification finds the same conditions again in the graph with it, from the other side: through the
definitions of the values and the records of their uses. So a node may be built exactly if the graph
to which it is added unchecked passes verification. Verification does not look at the keywords of a
call, nor at types.
-/

namespace DeferredIR

open DeferredIR.Graph Check

/-! ## Opcodes -/

namespace Opcode

theorem checkKeywords_eq_ok {seen names : List String} :
    checkKeywords seen names = .ok () ↔
      "" ∉ names ∧ names.Nodup ∧ ∀ name ∈ names, name ∉ seen := by
  induction names generalizing seen with
  | nil => simp [checkKeywords]
  | cons name names ih =>
    unfold checkKeywords
    by_cases hempty : name = ""
    · simp [hempty]
    by_cases hseen : name ∈ seen
    · simp [hempty, hseen]
    rw [if_neg hempty, if_neg hseen, ih]
    simp only [List.mem_cons, List.nodup_cons, forall_eq_or_imp, not_or, Ne.symm hempty, hseen,
      not_false_eq_true, true_and]
    constructor
    · rintro ⟨hne, hnodup, hfresh⟩
      exact ⟨hne, ⟨fun hm => (hfresh name hm).1 rfl, hnodup⟩, fun a ha => (hfresh a ha).2⟩
    · rintro ⟨hne, ⟨hnot, hnodup⟩, hfresh⟩
      refine ⟨hne, hnodup, fun a ha => ⟨?_, hfresh a ha⟩⟩
      rintro rfl
      exact hnot ha

/-- Beyond the number of operands, only the keywords of a call are checked. -/
theorem check_eq_ok {k : Opcode} {count : Nat} :
    k.check count = .ok () ↔ k.arity.accepts count = true ∧
      ∀ keywords, k = .call keywords → "" ∉ keywords ∧ keywords.Nodup := by
  unfold check
  by_cases hk : k.arity.accepts count = true
  case neg => simp [hk]
  rw [if_pos hk]
  cases k with
  | call keywords => simp [hk, checkKeywords_eq_ok]
  | _ => simp [hk]

end Opcode

namespace Graph

variable {g : Graph} {f : FuncId} {v : ValueId} {d : Draft}

/-! ## What may be read -/

theorem Coherent.requireReadable_eq_ok_iff (h : g.Coherent) :
    g.requireReadable f v = .ok () ↔ g.Available f v := by
  constructor
  · intro hr
    obtain ⟨howner, hlive⟩ := of_requireReadable hr
    exact available_of_owner? howner hlive
  · intro ha
    rw [h.requireReadable_eq ⟨lt_of_owner? ha.owner?, ha.not_folded⟩ ha.owner?, if_pos rfl]

theorem Coherent.requireDraft_eq_ok_iff (h : g.Coherent) :
    g.requireDraft f d = .ok () ↔
      f.index < g.functions.size ∧ g.types.contains d.type = true ∧
        (∀ v ∈ d.operands, g.Available f v) ∧ d.opcode.check d.operands.length = .ok () := by
  have hfunc : g.requireFunc f = .ok () ↔ f.index < g.functions.size :=
    ⟨lt_of_requireFunc, fun hlt => if_pos hlt⟩
  have htype : g.requireType d.type = .ok () ↔ g.types.contains d.type = true :=
    ⟨contains_of_requireType, fun hc => if_pos hc⟩
  have hread : d.operands.forM (g.requireReadable f) = .ok () ↔
      ∀ v ∈ d.operands, g.Available f v := by
    simp only [forM_eq_ok, h.requireReadable_eq_ok_iff]
  unfold requireDraft
  simp only [bind_eq_ok, mapError_eq_ok, exists_const, hfunc, htype]
  refine and_congr_right fun _ => and_congr_right fun _ => ?_
  constructor
  · rintro ⟨_, hops, hk⟩
    exact ⟨hread.mp hops, hk⟩
  · rintro ⟨hops, hk⟩
    exact ⟨(), hread.mpr hops, hk⟩

/-! ## The graph with the node -/

theorem verify_eq_ok_iff_consistent (g : Graph) : g.verify = .ok () ↔ g.Consistent := by
  rw [consistent_iff]
  exact g.reportsFirst_verify.eq_ok_iff

/-- What verification asks of the new node. -/
theorem Coherent.of_verify_append (h : g.Coherent) (hnew : g.nextValue ∉ d.operands)
    (hv : (g.append f d).verify = .ok ()) :
    (∀ v ∈ d.operands, g.Available f v) ∧
      d.opcode.arity.accepts d.operands.length = true := by
  have hc := (verify_eq_ok_iff_consistent _).mp hv
  have hx := getElem?_nodes_append_nextNode g f d
  refine ⟨fun v hm => ?_, hc.accepts _ _ hx rfl⟩
  have hne : v ≠ g.nextValue := ne_of_mem_of_not_mem hm hnew
  exact (h.available_append_iff hne).mp (hc.available _ _ hx rfl v hm)

/-- A node that passes the checks leaves nothing for verification to find. -/
theorem WellFormed.verify_append (h : g.WellFormed) (hv : g.verify = .ok ())
    (hd : g.requireDraft f d = .ok ()) : (g.append f d).verify = .ok () := by
  have hstep : Step (fun _ _ => True) g (g.append f d) := .append hd
  have hunread : g.Unread fun _ => False := fun v hfolded _ => h.verify_eq_ok_iff.mp hv v hfolded
  exact (h.step hstep).verify_eq_ok_iff.mpr fun v hfolded =>
    hunread.step h hstep v hfolded not_false

/-- Where verification finds nothing, a node of an existing function and a known type may be built
exactly if verification finds nothing in the graph to which the node is added unchecked and, for a
call, no keyword is empty or repeated. Building then leads to that graph. -/
theorem Reachable.build_accepts_iff_verify (h : g.Reachable) (hv : g.verify = .ok ())
    (hf : f.index < g.functions.size) (ht : g.types.contains d.type = true)
    (hnew : g.nextValue ∉ d.operands) (options : FoldOptions) (hoff : options.onBuild = false) :
    ((∃ v g', (Edit.build f options (.node d)).run g = .ok v g') ↔
      (g.append f d).verify = .ok () ∧
        ∀ keywords, d.opcode = .call keywords → "" ∉ keywords ∧ keywords.Nodup) ∧
    ∀ v g', (Edit.build f options (.node d)).run g = .ok v g' →
      v = g.nextValue ∧ g' = g.append f d := by
  have hwf := h.wellFormed
  have hrun := Edit.run_build hwf f options (.node d)
  have hfunc : g.requireFunc f = .ok () := if_pos hf
  have haccepts : g.requireDraft f d = .ok () ↔ (g.append f d).verify = .ok () ∧
      ∀ keywords, d.opcode = .call keywords → "" ∉ keywords ∧ keywords.Nodup := by
    constructor
    · intro hd
      obtain ⟨-, -, -, hcheck⟩ := hwf.requireDraft_eq_ok_iff.mp hd
      exact ⟨hwf.verify_append hv hd, (Opcode.check_eq_ok.mp hcheck).2⟩
    · rintro ⟨hverify, hkeywords⟩
      obtain ⟨havailable, hcount⟩ := hwf.of_verify_append hnew hverify
      exact hwf.requireDraft_eq_ok_iff.mpr
        ⟨hf, ht, havailable, Opcode.check_eq_ok.mpr ⟨hcount, hkeywords⟩⟩
  rw [hrun, hfunc, ← haccepts]
  simp only [Request.draft, hoff, Bool.false_eq_true, if_false]
  cases g.requireDraft f d with
  | error e =>
    refine ⟨⟨?_, ?_⟩, ?_⟩
    · rintro ⟨v, g', ⟨⟩⟩
    · rintro ⟨⟩
    · rintro v g' ⟨⟩
  | ok _ =>
    refine ⟨⟨fun _ => rfl, fun _ => ⟨_, _, rfl⟩⟩, ?_⟩
    rintro v g' ⟨⟩
    exact ⟨rfl, rfl⟩

/-- A call that passes a value by name: it is built if the name is given once, and refused if it is
given twice, which verification does not see. -/
theorem build_accepts_iff_verify_of_call :
    let g := (ofTable {}).after [.addFunc "f" [⟨0⟩, ⟨0⟩, ⟨0⟩]]
    let d : List String → Draft := fun keywords =>
      { opcode := .call keywords, operands := [⟨0⟩, ⟨1⟩, ⟨2⟩] }
    (∃ v g', (Edit.build ⟨0⟩ {} (.node (d ["k"]))).run g = .ok v g') ∧
      (g.append ⟨0⟩ (d ["k", "k"])).verify = .ok () ∧
      ¬ ∃ v g', (Edit.build ⟨0⟩ {} (.node (d ["k", "k"]))).run g = .ok v g' := by
  intro g d
  have h : g.Reachable := ⟨_, _, rfl⟩
  obtain ⟨haccepts, -⟩ := h.build_accepts_iff_verify (f := ⟨0⟩) (d := d ["k"]) rfl (by decide) rfl
    (by decide) {} rfl
  obtain ⟨hrefuses, -⟩ := h.build_accepts_iff_verify (f := ⟨0⟩) (d := d ["k", "k"]) rfl (by decide)
    rfl (by decide) {} rfl
  refine ⟨haccepts.mpr ⟨rfl, ?_⟩, rfl, fun hbuilt => ?_⟩
  · rintro keywords ⟨⟩
    decide
  · obtain ⟨-, hkeywords⟩ := hrefuses.mp hbuilt
    exact absurd (hkeywords _ rfl).2 (by decide)

end Graph

end DeferredIR
