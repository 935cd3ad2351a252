import DeferredIR.Request
import DeferredIR.Proofs.Fold.Rules
import DeferredIR.Proofs.Run
import DeferredIR.Proofs.Graph.Live

/-!
# Requests under a renaming of values

A request that is made of other values asks for the same node of these values. Two graphs of one
shape accept it alike, if the renaming takes live values to live values of the same function: both
accept the draft, or both refuse it with an error that differs at most in the value it names.
-/

namespace DeferredIR

variable {σ τ ρ : ValueId → ValueId}

/-! ## Errors -/

/-- The error with other values. -/
def EditError.mapValues (σ : ValueId → ValueId) : EditError → EditError
  | unknownValue v => unknownValue (σ v)
  | foreignOperand v owner f => foreignOperand (σ v) owner f
  | deadValue v => deadValue (σ v)
  | alreadyTyped v => alreadyTyped (σ v)
  | undefinedAssignment v => undefinedAssignment (σ v)
  | e => e

/-- The error with other values. Edits are not refused for anything but an `EditError`. -/
def Error.mapValues (σ : ValueId → ValueId) : Error → Error
  | edit e => edit (e.mapValues σ)
  | e => e

namespace Opcode

/-- What an opcode is refused for names no value. -/
theorem checkKeywords_eq_error {seen names : List String} {e : EditError}
    (h : checkKeywords seen names = .error e) : e.mapValues σ = e := by
  induction names generalizing seen with
  | nil => cases h
  | cons name names ih =>
    unfold checkKeywords at h
    split at h
    · cases h
      rfl
    · split at h
      · cases h
        rfl
      · exact ih h

theorem check_eq_error {k : Opcode} {count : Nat} {e : EditError} (h : k.check count = .error e) :
    e.mapValues σ = e := by
  unfold check at h
  split at h
  · split at h
    · exact checkKeywords_eq_error h
    · cases h
  · cases h
    rfl

end Opcode

/-! ## Requests -/

/-- The layout of a call with other operands. -/
def CallLayout.mapValues (σ : ValueId → ValueId) (l : CallLayout) : CallLayout :=
  ⟨σ l.callee, l.positional.map σ, l.keyword.map fun p => (p.1, σ p.2)⟩

namespace Request

/-- The operands of a request. -/
def values : Request → List ValueId
  | arg .. | const _ | global _ => []
  | binop lhs rhs _ => [lhs, rhs]
  | cast value _ => [value]
  | call layout => layout.operands
  | callFlat callee arguments _ _ => callee :: arguments
  | tuple items => items
  | item container position _ => [container, position]
  | iter value | next value | pairFirst value | pairSecond value => [value]
  | node draft => draft.operands

/-- The request with other operands. -/
def mapValues (σ : ValueId → ValueId) : Request → Request
  | arg index name => arg index name
  | const value => const value
  | global name => global name
  | binop lhs rhs op => binop (σ lhs) (σ rhs) op
  | cast value type => cast (σ value) type
  | call layout => call (layout.mapValues σ)
  | callFlat callee arguments start keywords =>
      callFlat (σ callee) (arguments.map σ) start keywords
  | tuple items => tuple (items.map σ)
  | item container position index => item (σ container) (σ position) index
  | iter value => iter (σ value)
  | next value => next (σ value)
  | pairFirst value => pairFirst (σ value)
  | pairSecond value => pairSecond (σ value)
  | node draft => node (draft.mapOperands σ)

theorem operands_of_draft {r : Request} {d : Draft} (h : r.draft = .ok d) :
    d.operands = r.values := by
  cases r with
  | callFlat callee arguments start keywords =>
    simp only [draft] at h
    split at h
    · cases h
    · split at h
      · cases h
      · cases h
        rfl
  | _ =>
    cases h
    rfl

/-- What a request is refused for before it is a draft names no value. -/
theorem draft_eq_error {r : Request} {e : EditError} (h : r.draft = .error e) :
    e.mapValues σ = e := by
  cases r with
  | callFlat callee arguments start keywords =>
    simp only [draft] at h
    split at h
    · cases h
      rfl
    · split at h
      · cases h
        rfl
      · cases h
  | _ => cases h

/-- A request for a node of other values is a draft of the same node of these values. -/
theorem draft_mapValues (r : Request) :
    (r.mapValues σ).draft = r.draft.map (Draft.mapOperands σ) := by
  cases r with
  | call layout =>
    simp [mapValues, draft, CallLayout.mapValues, CallLayout.keywords, CallLayout.operands,
      Except.map, Draft.mapOperands, Function.comp_def]
  | callFlat callee arguments start keywords =>
    simp only [mapValues, draft, List.length_map]
    split
    · rfl
    · split <;> rfl
  | _ => rfl

end Request

/-! ## Checks -/

namespace Check

theorem mapError_bind {ε ε' α β : Type} (x : Except ε α) (f : α → Except ε β) (φ : ε → ε') :
    (x >>= f).mapError φ = x.mapError φ >>= fun a => (f a).mapError φ := by
  cases x <;> rfl

theorem forM_map {ε ε' α : Type} {l : List α} {p : α → Except ε Unit} {q : α → Except ε' Unit}
    {σ : α → α} {φ : ε → ε'} (h : ∀ a ∈ l, q (σ a) = (p a).mapError φ) :
    (l.map σ).forM q = (l.forM p).mapError φ := by
  induction l with
  | nil => rfl
  | cons a l ih =>
    obtain ⟨ha, hl⟩ := List.forall_mem_cons.mp h
    show (q (σ a) >>= fun _ => (l.map σ).forM q) = (p a >>= fun _ => l.forM p).mapError φ
    rw [mapError_bind, ha, ih hl]

end Check

namespace Graph

open Check

variable {g h : Graph} {f owner : FuncId} {v w : ValueId} {d : Draft}

/-- The value exists and was not folded away. -/
def Holds (g : Graph) (v : ValueId) : Prop := v.index < g.values.size ∧ ¬ g.Folded v

theorem Coherent.requireLive_eq_ok (hg : g.Coherent) (hv : g.Holds v) :
    g.requireLive v = .ok () := by
  obtain ⟨x?, hx⟩ := hg.exists_definingNode? hv.1
  refine bind_eq_ok.mpr ⟨x?, liftM_eq_ok.mpr hx, ?_⟩
  split
  · obtain ⟨n, ho, hn⟩ := definingNode?_eq_ok_some.mp hx
    exact absurd ⟨n, _, ho, hn, rfl⟩ hv.2
  · rfl

/-- Of what a graph holds, a node may read what is of its own function. -/
theorem Coherent.requireReadable_eq (hg : g.Coherent) (hv : g.Holds v)
    (ho : g.owner? v = some owner) : g.requireReadable f v =
      if owner = f then .ok () else .error (.edit (.foreignOperand v owner f)) := by
  have hvalue : g.requireValue v = .ok () := if_pos hv.1
  unfold requireReadable
  rw [hvalue, hg.requireLive_eq_ok hv, owner_eq_ok.mpr ho]
  show (if owner ≠ f then _ else _) = _
  by_cases he : owner = f
  · simp only [he, ne_eq, not_true_eq_false, if_false, if_true]
    rfl
  · simp only [he, ne_eq, not_false_eq_true, if_false, if_true]
    rfl

/-- What a graph holds has an owner. -/
theorem Coherent.exists_owner? (hg : g.Coherent) (hv : v.index < g.values.size) :
    ∃ owner, g.owner? v = some owner := by
  have ho := origin?_of_value (Array.getElem?_eq_getElem hv)
  generalize g.values[v.index].origin = o at ho
  cases o with
  | formal f i => exact ⟨f, owner?_of_formal ho⟩
  | result n =>
    obtain ⟨x, hx, -⟩ := hg.exists_node ho
    exact ⟨x.func, owner?_of_result ho hx⟩

theorem SameShape.requireFunc_eq (s : SameShape g h) (f : FuncId) :
    h.requireFunc f = (g.requireFunc f).mapError (Error.mapValues σ) := by
  unfold requireFunc
  rw [s.functions]
  split <;> rfl

theorem SameShape.requireDraft_mapOperands (s : SameShape g h)
    (hg : g.Coherent) (hh : h.Coherent)
    (hσ : ∀ v ∈ d.operands, g.Holds v ∧ h.Holds (σ v) ∧ h.owner? (σ v) = g.owner? v) :
    h.requireDraft f (d.mapOperands σ) = (g.requireDraft f d).mapError (Error.mapValues σ) := by
  have hfunc : h.requireFunc f = (g.requireFunc f).mapError (Error.mapValues σ) :=
    s.requireFunc_eq f
  have htype : h.requireType d.type = (g.requireType d.type).mapError (Error.mapValues σ) := by
    unfold requireType
    rw [s.types]
    split <;> rfl
  have hread : ∀ v ∈ d.operands,
      h.requireReadable f (σ v) = (g.requireReadable f v).mapError (Error.mapValues σ) := by
    intro v hv
    obtain ⟨hgv, hhv, howner⟩ := hσ v hv
    obtain ⟨owner, ho⟩ := hg.exists_owner? hgv.1
    rw [hg.requireReadable_eq hgv ho, hh.requireReadable_eq hhv (howner.trans ho)]
    split <;> rfl
  have hcheck : (d.opcode.check (d.operands.map σ).length).mapError Error.edit =
      ((d.opcode.check d.operands.length).mapError .edit).mapError (Error.mapValues σ) := by
    rw [List.length_map]
    cases hc : d.opcode.check d.operands.length with
    | ok _ => rfl
    | error e =>
      show Except.error (Error.edit e) = .error (.edit (e.mapValues σ))
      rw [Opcode.check_eq_error hc]
  unfold requireDraft
  simp only [mapError_bind, ← hfunc, ← htype, ← forM_map hread, ← hcheck]
  rfl

/-- The draft of the node that is requested in `f`, if it is fit for `f`. -/
def draftFor (g : Graph) (f : FuncId) (r : Request) : Except Error Draft := do
  g.requireFunc f
  let d ← r.draft.mapError Error.edit
  g.requireDraft f d
  return d

theorem requireDraft_of_draftFor {r : Request} (hd : g.draftFor f r = .ok d) :
    g.requireDraft f d = .ok () := by
  unfold draftFor at hd
  simp only [bind_eq_ok, pure_eq_ok] at hd
  obtain ⟨_, _, d', _, _, hd', rfl⟩ := hd
  exact hd'

theorem draft_of_draftFor {r : Request} (hd : g.draftFor f r = .ok d) : r.draft = .ok d := by
  unfold draftFor at hd
  simp only [bind_eq_ok, mapError_eq_ok, pure_eq_ok] at hd
  obtain ⟨_, _, d', hd', _, _, rfl⟩ := hd
  exact hd'

/-- Graphs of one shape accept a request and its renaming alike. -/
theorem SameShape.draftFor_mapValues {r : Request} (s : SameShape g h) (hg : g.Coherent)
    (hh : h.Coherent) (hτ : ∀ v ∈ r.values, τ v = ρ (σ v))
    (hρ : ∀ v ∈ r.values, g.Holds (σ v) ∧ h.Holds (ρ (σ v)) ∧
      h.owner? (ρ (σ v)) = g.owner? (σ v)) :
    h.draftFor f (r.mapValues τ) =
      ((g.draftFor f (r.mapValues σ)).map (Draft.mapOperands ρ)).mapError (Error.mapValues ρ) := by
  have hfunc : h.requireFunc f = (g.requireFunc f).mapError (Error.mapValues ρ) :=
    s.requireFunc_eq f
  unfold draftFor
  rw [Request.draft_mapValues, Request.draft_mapValues, hfunc]
  cases hd : r.draft with
  | error e =>
    cases g.requireFunc f with
    | error _ => rfl
    | ok _ =>
      show Except.error (Error.edit e) = .error (.edit (e.mapValues ρ))
      rw [Request.draft_eq_error hd]
  | ok d =>
    have hvalues := Request.operands_of_draft hd
    have hmap : d.mapOperands τ = (d.mapOperands σ).mapOperands ρ := by
      simp only [Draft.mapOperands, List.map_map]
      congr 1
      exact List.map_congr_left fun v hv => hτ v (hvalues ▸ hv)
    have hdraft : h.requireDraft f ((d.mapOperands σ).mapOperands ρ) =
        (g.requireDraft f (d.mapOperands σ)).mapError (Error.mapValues ρ) := by
      refine s.requireDraft_mapOperands hg hh fun w hw => ?_
      obtain ⟨v, hv, rfl⟩ := List.mem_map.mp hw
      exact hρ v (hvalues ▸ hv)
    cases g.requireFunc f with
    | error _ => rfl
    | ok _ =>
      show (h.requireDraft f (d.mapOperands τ) >>= fun _ => pure (d.mapOperands τ)) = _
      rw [hmap, hdraft]
      show _ = ((g.requireDraft f (d.mapOperands σ) >>= fun _ =>
        pure (d.mapOperands σ)).map _).mapError _
      cases g.requireDraft f (d.mapOperands σ) <;> rfl

end Graph

namespace Edit

open DeferredIR.Graph

variable {g : Graph} {f : FuncId} {r : Request} {d : Draft} {e : Error}

/-! ## Builds of fit requests -/

theorem run_build_eq (h : g.WellFormed) (f : FuncId) (options : FoldOptions) (r : Request) :
    (build f options r).run g =
      match g.draftFor f r with
      | .error e => .error e g
      | .ok d =>
        if options.onBuild then
          match (g.append f d).localReplacement? options g.nextNode with
          | .error e => .error (.fault e) (g.append f d)
          | .ok none => .ok g.nextValue (g.append f d)
          | .ok (some v) => .ok v ((g.append f d).retire g.nextNode)
        else .ok g.nextValue (g.append f d) := by
  rw [run_build h]
  unfold draftFor
  cases g.requireFunc f with
  | error e => rfl
  | ok _ =>
    cases r.draft with
    | error e => rfl
    | ok d =>
      dsimp only [bind, Except.bind, Except.mapError]
      cases g.requireDraft f d <;> rfl

theorem run_build_of_error (h : g.WellFormed) (options : FoldOptions)
    (he : g.draftFor f r = .error e) : (build f options r).run g = .error e g := by
  rw [run_build_eq h, he]

/-- Without folding, a build that is accepted answers the result of the new node. -/
theorem run_build_off (h : g.WellFormed) (options : FoldOptions) (hoff : options.onBuild = false)
    (hd : g.draftFor f r = .ok d) :
    (build f options r).run g = .ok g.nextValue (g.append f d) := by
  rw [run_build_eq h, hd]
  simp only [hoff, Bool.false_eq_true, if_false]

/-- With folding, a build that is accepted may answer what the new node restates. -/
theorem run_build_on (h : g.WellFormed) (options : FoldOptions) (hon : options.onBuild = true)
    (hd : g.draftFor f r = .ok d) :
    (build f options r).run g = .ok g.nextValue (g.append f d) ∨
      ∃ v, (g.append f d).localReplacement? options g.nextNode = .ok (some v) ∧
        (build f options r).run g = .ok v ((g.append f d).retire g.nextNode) := by
  obtain ⟨hwf, node, hn, -⟩ := append_of_requireDraft h (requireDraft_of_draftFor hd)
  obtain ⟨v?, hv⟩ := hwf.exists_localReplacement? options hn
  rw [run_build_eq h, hd]
  simp only [hon, if_true, hv]
  cases v? with
  | none => exact .inl rfl
  | some v => exact .inr ⟨v, rfl, rfl⟩

/-- A build that is accepted answers its result, and leaves the new node; or it answers what the new
node restates, and leaves the node dead. -/
theorem of_run_build (h : g.WellFormed) {options : FoldOptions} {v : ValueId} {g' : Graph}
    (hrun : (build f options r).run g = .ok v g') :
    ∃ d, g.draftFor f r = .ok d ∧ (v = g.nextValue ∧ g' = g.append f d ∨
      (g.append f d).localReplacement? options g.nextNode = .ok (some v) ∧
        g' = (g.append f d).retire g.nextNode) := by
  cases hd : g.draftFor f r with
  | error e =>
    rw [run_build_of_error h options hd] at hrun
    cases hrun
  | ok d =>
    refine ⟨d, rfl, ?_⟩
    cases hon : options.onBuild with
    | false =>
      rw [run_build_off h options hon hd] at hrun
      cases hrun
      exact .inl ⟨rfl, rfl⟩
    | true =>
      rcases run_build_on h options hon hd with hkept | ⟨w, hw, hfolded⟩
      · cases hkept.symm.trans hrun
        exact .inl ⟨rfl, rfl⟩
      · cases hfolded.symm.trans hrun
        exact .inr ⟨hw, rfl⟩

end Edit

end DeferredIR
