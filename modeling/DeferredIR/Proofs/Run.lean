import DeferredIR.Command
import DeferredIR.Proofs.Fold.Rules
import DeferredIR.Proofs.Fold.Steps
import Mathlib.Logic.Relation

/-!
# Runs

A command that is no fold pass makes at most two elementary changes, each of them checked, and a
fold pass is a sequence of folds. So a property of graphs holds after every script if it holds
of graphs without functions and is kept by elementary changes and by folds.
-/

namespace DeferredIR

open DeferredIR.Graph Relation Check

namespace Graph

variable {g g' : Graph}

/-- The elementary changes, each with what was checked before it. `R old new` says that `new` may
take the place of `old`. -/
inductive Step (R : ValueId → ValueId → Prop) (g : Graph) : Graph → Prop where
  | intern {name : String} {t : TypeId} {types : TypeTable}
      (interned : g.types.intern name = .ok (t, types)) : Step R g { g with types }
  | appendFunc {name : String} {types : List TypeId}
      (known : types.forM g.requireType = .ok ()) : Step R g (g.appendFunc name types)
  | append {f : FuncId} {d : Draft} (fit : g.requireDraft f d = .ok ()) :
      Step R g (g.append f d)
  | assignType {v : ValueId} {t : TypeId} (assignable : g.requireAssignable v t = .ok ()) :
      Step R g (g.assignType v t)
  | redirect {old new : ValueId} (replaceable : g.requireReplaceable old new = .ok ())
      (ne : old ≠ new) (allowed : R old new) : Step R g (g.redirect old new)
  /-- A node folds as it is built, before anything reads its result. -/
  | retire {n : NodeId} {node : Node} (node_eq : g.nodes[n.index]? = some node)
      (live : node.dead = false) (unread : g.usesOf node.result = []) : Step R g (g.retire n)

theorem WellFormed.step {R : ValueId → ValueId → Prop} (h : g.WellFormed)
    (hs : Step R g g') : g'.WellFormed := by
  cases hs with
  | intern _ => exact h.withTypes _
  | appendFunc _ => exact h.appendFunc _ _
  | append hd =>
    obtain ⟨hf, hv, hk⟩ := of_requireDraft hd
    exact h.append hf (fun v hm => (hv v hm).1) hk
  | assignType _ => exact h.assignType _ _
  | redirect hr hne _ =>
    obtain ⟨f, ho, hn, -⟩ := of_requireReplaceable hr
    exact h.redirect hne ho hn
  | retire _ _ _ => exact h.retire _

theorem WellFormed.steps {R : ValueId → ValueId → Prop} {P : Graph → Prop}
    (hP : ∀ {g g' : Graph}, g.WellFormed → P g → Step R g g' → P g') (h : g.WellFormed)
    (hg : P g) (hs : ReflTransGen (Step R) g g') : g'.WellFormed ∧ P g' := by
  induction hs with
  | refl => exact ⟨h, hg⟩
  | tail _ hstep ih => exact ⟨ih.1.step hstep, hP ih.1 ih.2 hstep⟩

end Graph

/-! ## Commands -/

namespace Edit

variable {g : Graph} {R : ValueId → ValueId → Prop}

/-- A graph to which a fit draft was appended, with the new node, which nothing reads yet. -/
theorem append_of_requireDraft (h : g.WellFormed) {f : FuncId} {d : Draft}
    (hd : g.requireDraft f d = .ok ()) :
    (g.append f d).WellFormed ∧ ∃ node, (g.append f d).nodes[g.nextNode.index]? = some node ∧
      node.dead = false ∧ (g.append f d).usesOf node.result = [] := by
  refine ⟨h.step (.append (R := fun _ _ => True) hd), _, getElem?_nodes_append_nextNode g f d, rfl,
    ?_⟩
  have hlt := lt_of_requireDraft hd
  rw [usesOf_append g f d hlt]
  refine List.append_eq_nil_iff.mpr ⟨by simp [usesOf, nextValue], ?_⟩
  exact usesBy_eq_nil fun hm => ne_nextValue (hlt _ hm) rfl

/-- What building does on a well-formed graph: after its checks it appends one node, and a node that
folds is retired at once. -/
theorem run_build (h : g.WellFormed) (f : FuncId) (options : FoldOptions) (request : Request) :
    (build f options request).run g =
      match g.requireFunc f with
      | .error e => .error e g
      | .ok () =>
        match request.draft with
        | .error e => .error (.edit e) g
        | .ok d =>
          match g.requireDraft f d with
          | .error e => .error e g
          | .ok () =>
            if options.onBuild then
              match (g.append f d).localReplacement? options g.nextNode with
              | .error e => .error (.fault e) (g.append f d)
              | .ok none => .ok g.nextValue (g.append f d)
              | .ok (some v) => .ok v ((g.append f d).retire g.nextNode)
            else .ok g.nextValue (g.append f d) := by
  unfold build
  cases hf : g.requireFunc f with
  | error e => exact run_bind_of_error (run_read_of_error hf)
  | ok _ =>
  rw [run_bind_of_ok (run_read_of_ok hf)]
  dsimp only
  cases request.draft with
  | error e => exact run_bind_of_error (run_read_of_error rfl)
  | ok d =>
  rw [run_bind_of_ok (a := d) (run_read_of_ok rfl), EStateM.run_bind, run_push]
  dsimp only
  cases hd : g.requireDraft f d with
  | error e => rfl
  | ok _ =>
  dsimp only
  cases options.onBuild with
  | false => rfl
  | true =>
  obtain ⟨hwf, node, hn, hlive, -⟩ := append_of_requireDraft h hd
  simp only [if_true]
  rw [EStateM.run_bind, run_read]
  cases (g.append f d).localReplacement? options g.nextNode with
  | error e => rfl
  | ok v? =>
  cases v? with
  | none => rfl
  | some v => exact run_bind_of_ok (run_retire_of_live hwf hn hlive)

/-- How a build ends on a well-formed graph: refused by a check, with a new node, or with a new node
that was folded at once. -/
inductive Built (g : Graph) (f : FuncId) (options : FoldOptions) (request : Request) :
    EStateM.Result Error Graph ValueId → Prop where
  | noFunc {e : Error} (refused : g.requireFunc f = .error e) :
      Built g f options request (.error e g)
  | noDraft {e : EditError} (refused : request.draft = .error e) :
      Built g f options request (.error (.edit e) g)
  | unfit {d : Draft} {e : Error} (refused : g.requireDraft f d = .error e) :
      Built g f options request (.error e g)
  | kept {d : Draft} (fit : g.requireDraft f d = .ok ()) :
      Built g f options request (.ok g.nextValue (g.append f d))
  | folded {d : Draft} {v : ValueId} (fit : g.requireDraft f d = .ok ())
      (replacement : (g.append f d).localReplacement? options g.nextNode = .ok (some v)) :
      Built g f options request (.ok v ((g.append f d).retire g.nextNode))

theorem built_run_build (h : g.WellFormed) (f : FuncId) (options : FoldOptions)
    (request : Request) : Built g f options request ((build f options request).run g) := by
  rw [run_build h]
  cases hf : g.requireFunc f with
  | error e => exact .noFunc hf
  | ok _ =>
  cases hr : request.draft with
  | error e => exact .noDraft hr
  | ok d =>
  dsimp only
  cases hd : g.requireDraft f d with
  | error e => exact .unfit hd
  | ok _ =>
  cases options.onBuild with
  | false => exact .kept hd
  | true =>
  -- The graph is still well formed, so no rule faults.
  obtain ⟨hwf, node, hn, -⟩ := append_of_requireDraft h hd
  obtain ⟨v?, hv⟩ := hwf.exists_localReplacement? options hn
  simp only [if_true, hv]
  cases v? with
  | none => exact .kept hd
  | some v => exact .folded hd hv

/-- Building appends a node, if anything, and may retire it before it is read. -/
theorem steps_build (h : g.WellFormed) (f : FuncId) (options : FoldOptions) (request : Request) :
    ReflTransGen (Step R) g ((build f options request).after g) := by
  have hb := built_run_build h f options request
  rw [after]
  generalize (build f options request).run g = r at hb
  cases hb with
  | noFunc | noDraft | unfit => exact .refl
  | kept hd => exact .single (.append hd)
  | folded hd _ =>
    obtain ⟨-, node, hn, hlive, hu⟩ := append_of_requireDraft h hd
    exact .tail (.single (.append hd)) (.retire hn hlive hu)

theorem after_map {α β : Type} (φ : α → β) (x : Edit α) (g : Graph) :
    (φ <$> x).after g = x.after g := by
  simp only [after, EStateM.run, Functor.map, EStateM.map]
  cases x g <;> rfl

theorem steps_internType (name : String) :
    ReflTransGen (Step R) g ((internType name).after g) := by
  rw [after, run_internType]
  cases h : g.types.intern name with
  | error e => exact .refl
  | ok p => exact .single (.intern h)

theorem steps_addFunc (name : String) (types : List TypeId) :
    ReflTransGen (Step R) g ((addFunc name types).after g) := by
  rw [after, run_addFunc]
  cases h : types.forM g.requireType with
  | error e => exact .refl
  | ok _ => exact .single (.appendFunc h)

theorem steps_assignType (v : ValueId) (t : TypeId) :
    ReflTransGen (Step R) g ((assignType v t).after g) := by
  rw [after, run_assignType]
  cases h : g.requireAssignable v t with
  | error e => exact .refl
  | ok _ => exact .single (.assignType h)

theorem run_replace_of_ok (h : g.WellFormed) {old new : ValueId}
    (hr : g.requireReplaceable old new = .ok ()) :
    ∃ count, (replace old new).run g =
      .ok count (if old = new then g else g.redirect old new) := by
  obtain ⟨f, ho, hn, -⟩ := of_requireReplaceable hr
  rw [run_replace, hr]
  exact ⟨_, run_redirect_eq h (lt_of_owner? ho) (lt_of_owner? hn)⟩

theorem steps_replace (h : g.WellFormed) {old new : ValueId}
    (hR : g.requireReplaceable old new = .ok () → R old new) :
    ReflTransGen (Step R) g ((replace old new).after g) := by
  cases hr : g.requireReplaceable old new with
  | error e =>
    rw [after, run_replace, hr]
  | ok _ =>
    obtain ⟨count, hrun⟩ := run_replace_of_ok h hr
    rw [after_of_ok hrun]
    split
    · exact .refl
    · exact .single (.redirect hr ‹_› (hR hr))

end Edit

namespace Command

variable {g : Graph} {c : Command} {R : ValueId → ValueId → Prop}

theorem edit_assignType (v : ValueId) (t : TypeId) :
    (assignType v t).edit = (fun _ => .done) <$> Edit.assignType v t := rfl

theorem run_snd (c : Command) (g : Graph) : (c.run g).2 = c.edit.after g := by
  rw [run, Edit.after]
  cases c.edit.run g <;> rfl

/-- The folds that a command makes in passes. -/
def trace : Command → Graph → List (NodeId × ValueId)
  | .foldAll options, g => g.roundsTrace options options.maxRounds {}
  | _, _ => []

/-- A command that is no fold pass makes elementary changes only. -/
theorem steps (h : g.WellFormed) (hc : ∀ options, c ≠ .foldAll options)
    (hR : ∀ {old new}, c = .replace old new → g.requireReplaceable old new = .ok () →
      R old new) : ReflTransGen (Step R) g (c.run g).2 := by
  rw [run_snd]
  cases c with
  | internType name =>
    rw [edit, Edit.after_map]
    exact Edit.steps_internType name
  | addFunc name types =>
    rw [edit, Edit.after_map]
    exact Edit.steps_addFunc name types
  | build func options request =>
    rw [edit, Edit.after_map]
    exact Edit.steps_build h func options request
  | assignType value type =>
    rw [edit_assignType, Edit.after_map]
    exact Edit.steps_assignType value type
  | replace old new =>
    rw [edit, Edit.after_map]
    exact Edit.steps_replace h (hR rfl)
  | foldAll options => exact absurd rfl (hc options)

/-- A fold pass is the folds of its trace. -/
theorem folds_foldAll (h : g.WellFormed) (options : FoldOptions) :
    Folds options g ((foldAll options).trace g) ((foldAll options).run g).2 := by
  rw [run_snd, edit, Edit.after_map]
  exact folds_foldRounds h options.maxRounds {}

/-- What elementary changes and folds keep, a command keeps. -/
theorem run_preserves {P : Graph → Prop}
    (hstep : ∀ {g g' : Graph}, g.WellFormed → P g → Step R g g' → P g')
    (hfold : ∀ {g : Graph} {options : FoldOptions} {n : NodeId} {node : Node} {v : ValueId},
      g.WellFormed → P g → g.nodes[n.index]? = some node → node.dead = false →
      g.Restates options node v → P (g.fold n node.result v))
    (hR : ∀ {old new}, c = .replace old new → g.requireReplaceable old new = .ok () →
      R old new)
    (h : g.WellFormed) (hg : P g) : (c.run g).2.WellFormed ∧ P (c.run g).2 := by
  by_cases hc : ∀ options, c ≠ .foldAll options
  · exact h.steps hstep hg (steps h hc hR)
  · obtain ⟨options, rfl⟩ : ∃ options, c = .foldAll options := by simpa using hc
    exact (folds_foldAll h options).preserves hfold h hg

theorem run_wellFormed (h : g.WellFormed) (c : Command) : (c.run g).2.WellFormed :=
  (run_preserves (P := fun _ => True) (R := fun _ _ => True) (fun _ _ _ => trivial)
    (fun _ _ _ _ _ => trivial) (fun _ _ => trivial) h trivial).1

end Command

/-! ## Scripts -/

namespace Graph

variable {g : Graph}

theorem wellFormed_ofTable (table : TypeTable) : (ofTable table).WellFormed where
  result_iff := by simp [ofTable, origin?, resultOf?]
  formal_iff := by simp [ofTable, origin?, formalAt?]
  func_lt := by simp [ofTable]
  formal_lt := by simp [ofTable]
  accepts := by simp [ofTable]
  operand_owner := by simp [ofTable]
  uses_nodup := by simp [ofTable, usesOf]
  mem_uses_iff := by simp [ofTable, usesOf, reads]

/-- What commands keep, scripts keep. -/
theorem WellFormed.after_preserves {P : Graph → Prop}
    (hrun : ∀ {g : Graph} (c : Command), g.WellFormed → P g → P (c.run g).2)
    (h : g.WellFormed) (hg : P g) (script : List Command) : P (g.after script) := by
  induction script generalizing g with
  | nil => exact hg
  | cons c script ih => exact ih (c.run_wellFormed h) (hrun c h hg)

theorem WellFormed.after (h : g.WellFormed) (script : List Command) :
    (g.after script).WellFormed :=
  h.after_preserves (fun c hwf _ => c.run_wellFormed hwf) h script

theorem Reachable.wellFormed (h : g.Reachable) : g.WellFormed := by
  obtain ⟨table, script, rfl⟩ := h
  exact (wellFormed_ofTable table).after script

/-- What graphs without functions have, and elementary changes and folds keep, all graphs have that
commands can make. -/
theorem Reachable.induction {P : Graph → Prop} (hinit : ∀ table, P (ofTable table))
    (hstep : ∀ {g g' : Graph}, g.WellFormed → P g → Step (fun _ _ => True) g g' → P g')
    (hfold : ∀ {g : Graph} {options : FoldOptions} {n : NodeId} {node : Node} {v : ValueId},
      g.WellFormed → P g → g.nodes[n.index]? = some node → node.dead = false →
      g.Restates options node v → P (g.fold n node.result v))
    (h : g.Reachable) : P g := by
  obtain ⟨table, script, rfl⟩ := h
  refine (wellFormed_ofTable table).after_preserves (fun c hwf hg => ?_) (hinit table) script
  exact (c.run_preserves hstep hfold (fun _ _ => trivial) hwf hg).2

end Graph

end DeferredIR
