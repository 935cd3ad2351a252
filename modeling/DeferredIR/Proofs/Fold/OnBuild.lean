import DeferredIR.Proofs.Fold.Append
import DeferredIR.Proofs.Renaming
import Mathlib.Data.List.Induction

/-!
# Folding while building

A script of builds is run twice, once folding nodes as they are built and once without folding, and
its calls refer to the answers of earlier calls. The run that folds is always some folds ahead of
the other: its graph is alike what these folds lead to, and its answers are what stands for the
answers of the other. So both runs accept the same calls, and a pass over either graph fails with
the same error or leads to graphs that are alike.
-/

namespace DeferredIR

open DeferredIR.Graph

/-! ## Scripts -/

/-- A call of a build script. Of its operands, those below the number of values that the script
starts with stand for themselves, and the `i`-th after them for the answer of call `i`. -/
structure BuildCall where
  func : FuncId
  request : Request

namespace Graph

/-- The value to which an operand of a call refers, where `base` values came before the script. -/
def resolve (base : Nat) (answers : List (Except Error Answer)) (v : ValueId) : ValueId :=
  if v.index < base then v
  else
    match answers[v.index - base]? with
    | some (.ok (.value w)) => w
    | _ => v

/-- One more call after the given answers. -/
def runCall (options : FoldOptions) (base : Nat) (s : List (Except Error Answer) × Graph)
    (call : BuildCall) : List (Except Error Answer) × Graph :=
  let r := (Command.build call.func options (call.request.mapValues (resolve base s.1))).run s.2
  (s.1 ++ [r.1], r.2)

/-- The answers of a build script, and the graph after it. -/
def runScript (m : Graph) (options : FoldOptions) (script : List BuildCall) :
    List (Except Error Answer) × Graph :=
  script.foldl (runCall options m.values.size) ([], m)

/-- `v` stands for a live value of `m` or for a value that was answered. -/
def Refers (m : Graph) (answers : List (Except Error Answer)) (v : ValueId) : Prop :=
  m.Holds v ∨ m.values.size ≤ v.index ∧
    ∃ w, answers[v.index - m.values.size]? = some (.ok (.value w))

/-- The operands of each call refer to live values of `m` and to what earlier calls answered. -/
def Admits (m : Graph) (options : FoldOptions) (script : List BuildCall) : Prop :=
  ∀ (i : Nat) (call : BuildCall), script[i]? = some call → ∀ v ∈ call.request.values,
    m.Refers (m.runScript options (script.take i)).1 v

/-- Two answers: both are given, or they are errors that differ at most in the values they name. -/
inductive SameOutcome : (a b : Except Error Answer) → Prop where
  | ok (a b : Answer) : SameOutcome (.ok a) (.ok b)
  | error (e : Error) (σ : ValueId → ValueId) : SameOutcome (.error e) (.error (e.mapValues σ))

/-- Two passes: both lead to graphs that are alike, or they fail with one error. -/
inductive SameResult : (a b : EStateM.Result Error Graph FoldReport) → Prop where
  | ok {report report' : FoldReport} {k k' : Graph} (alike : Alike k k') :
      SameResult (.ok report k) (.ok report' k')
  | error (e : Error) (k k' : Graph) : SameResult (.error e k) (.error e k')

variable {m g g' h k : Graph} {options options' : FoldOptions} {script : List BuildCall}
variable {call : BuildCall} {trace : List (NodeId × ValueId)} {σ τ : ValueId → ValueId}
variable {v w : ValueId} {f : FuncId} {d : Draft} {a b : Except Error Answer}

theorem runScript_append_singleton (m : Graph) (options : FoldOptions) (script : List BuildCall)
    (call : BuildCall) : m.runScript options (script ++ [call]) =
      runCall options m.values.size (m.runScript options script) call := by
  rw [runScript, List.foldl_append]
  rfl

theorem Admits.of_append_singleton (hs : m.Admits options (script ++ [call])) :
    m.Admits options script ∧
      ∀ v ∈ call.request.values, m.Refers (m.runScript options script).1 v := by
  constructor
  · intro i c hi v hv
    have hlt := (List.getElem?_eq_some_iff.mp hi).1
    have href := hs i c ((List.getElem?_append_left hlt).trans hi) v hv
    rwa [List.take_append_of_le_length (Nat.le_of_lt hlt)] at href
  · intro v hv
    have href := hs script.length call (by simp) v hv
    rwa [List.take_left] at href

/-! ## Builds -/

theorem Holds.append (hv : g.Holds v) (hg : g.WellFormed) (hwf : (g.append f d).WellFormed) :
    (g.append f d).Holds v := by
  refine ⟨?_, fun hfolded => hv.2 ((hg.folded_append hwf).mp hfolded)⟩
  obtain ⟨owner, ho⟩ := hg.exists_owner? hv.1
  exact lt_of_owner? ((owner?_append_of_lt g f d hg.toCoherent hv.1).trans ho)

theorem holds_nextValue (hg : g.WellFormed) (hwf : (g.append f d).WellFormed) :
    (g.append f d).Holds g.nextValue := by
  have ho : (g.append f d).origin? g.nextValue = some (.result g.nextNode) := by
    rw [origin?_append, if_pos rfl]
  refine ⟨lt_of_origin? ho, fun hfolded => ?_⟩
  obtain ⟨n, x, hold, -⟩ := (hg.folded_append hwf).mp hfolded
  exact Nat.lt_irrefl _ (lt_of_origin? hold)

theorem OrderedReachable.build (h : g.OrderedReachable) {r : Request}
    (hrun : (Edit.build f options r).run g = .ok v g') : g'.OrderedReachable := by
  have hreach : ((Command.build f options r).run g).2.OrderedReachable := h.run trivial
  rwa [Command.run, Command.edit, Edit.run_map_of_ok hrun] at hreach

theorem runCall_of_ok {base : Nat} {answers : List (Except Error Answer)}
    (hrun : (Edit.build call.func options
      (call.request.mapValues (resolve base answers))).run g = .ok v g') :
    runCall options base (answers, g) call = (answers ++ [.ok (.value v)], g') := by
  simp only [runCall, Command.run, Command.edit, Edit.run_map_of_ok hrun]

theorem runCall_of_error {base : Nat} {answers : List (Except Error Answer)} {e : Error}
    (hrun : (Edit.build call.func options
      (call.request.mapValues (resolve base answers))).run g = .error e g') :
    runCall options base (answers, g) call = (answers ++ [.error e], g') := by
  have hmap : (Command.build call.func options
      (call.request.mapValues (resolve base answers))).edit.run g = .error e g' := by
    rw [EStateM.run] at hrun
    simp only [Command.edit, EStateM.run, Functor.map, EStateM.map, hrun]
  simp only [runCall, Command.run, hmap]

/-! ## Answers of two runs -/

theorem exists_getElem?_of_forall₂ {α β : Type} {R : α → β → Prop} {l : List α} {l' : List β}
    (h : List.Forall₂ R l l') {i : Nat} {a : α} (ha : l[i]? = some a) :
    ∃ b, l'[i]? = some b ∧ R a b := by
  obtain ⟨hi, rfl⟩ := List.getElem?_eq_some_iff.mp ha
  have hi' := h.length_eq ▸ hi
  exact ⟨_, List.getElem?_eq_getElem hi', h.get hi hi'⟩

/-- What two runs answer, where `σ` takes what the first graph holds to what stands for it. -/
inductive Answers (g : Graph) (σ : ValueId → ValueId) : (a b : Except Error Answer) → Prop where
  | value {v : ValueId} (holds : g.Holds v) :
      Answers g σ (.ok (.value v)) (.ok (.value (σ v)))
  | error (e : Error) (τ : ValueId → ValueId) : Answers g σ (.error e) (.error (e.mapValues τ))

theorem Answers.mono (hab : Answers g σ a b)
    (hlift : ∀ v, g.Holds v → h.Holds v ∧ τ v = σ v) : Answers h τ a b := by
  cases hab with
  | value hv =>
    obtain ⟨hh, he⟩ := hlift _ hv
    exact he ▸ .value hh
  | error e τ => exact .error e τ

theorem Answers.sameOutcome (hab : Answers g σ a b) : SameOutcome a b := by
  cases hab with
  | value _ => exact .ok _ _
  | error e τ => exact .error e τ

/-- A script that starts in `m` has led to `on` where it folds, with the answers `bs`, and to `off`
where it does not, with the answers `as`. The folds of `trace` are what the one is ahead. -/
structure Ahead (options : FoldOptions) (m off on : Graph) (trace : List (NodeId × ValueId))
    (as bs : List (Except Error Answer)) : Prop where
  off_reachable : off.OrderedReachable
  on_reachable : on.OrderedReachable
  leadsTo : LeadsTo options off trace on
  /-- The live values of `m` are still live and stand for themselves. -/
  base : ∀ v, m.Holds v → off.Holds v ∧ off.rename trace v = v
  answers : List.Forall₂ (Answers off (off.rename trace)) as bs

namespace Ahead

variable {off on off' on' : Graph} {trace' : List (NodeId × ValueId)} {d' : Draft}
variable {as bs : List (Except Error Answer)}

/-- What an operand refers to in the run that folds stands for what it refers to in the other. -/
theorem resolve_eq (ha : Ahead options m off on trace as bs) (hv : m.Refers as v) :
    off.Holds (resolve m.values.size as v) ∧
      resolve m.values.size bs v = off.rename trace (resolve m.values.size as v) := by
  rcases hv with hv | ⟨hle, w, hw⟩
  · obtain ⟨hholds, hself⟩ := ha.base v hv
    simp only [resolve, hv.1, if_true]
    exact ⟨hholds, hself.symm⟩
  · obtain ⟨b, hb, hwb⟩ := exists_getElem?_of_forall₂ ha.answers hw
    cases hwb with
    | value hholds =>
      simp only [resolve, if_neg (Nat.not_lt.mpr hle), hw, hb]
      exact ⟨hholds, trivial⟩

/-- What stands for a live value is live, and of the same function. -/
theorem holds_rename (ha : Ahead options m off on trace as bs) (hv : off.Holds v) :
    on.Holds (off.rename trace v) ∧ on.owner? (off.rename trace v) = off.owner? v := by
  have hwf := ha.off_reachable.wellFormed
  have howner := ha.leadsTo.owner?_rename hwf v
  obtain ⟨owner, ho⟩ := hwf.exists_owner? hv.1
  exact ⟨⟨lt_of_owner? (howner.trans ho),
    ha.leadsTo.not_folded_rename ha.off_reachable hv.2⟩, howner⟩

/-- One more call, after which what was held is held and stands for what it stood for. -/
theorem snoc (ha : Ahead options m off on trace as bs) (hoff : off'.OrderedReachable)
    (hon : on'.OrderedReachable) (hl : LeadsTo options off' trace' on')
    (hlift : ∀ v, off.Holds v → off'.Holds v ∧ off'.rename trace' v = off.rename trace v)
    (hab : Answers off' (off'.rename trace') a b) :
    Ahead options m off' on' trace' (as ++ [a]) (bs ++ [b]) where
  off_reachable := hoff
  on_reachable := hon
  leadsTo := hl
  base v hv := by
    obtain ⟨hholds, hself⟩ := ha.base v hv
    obtain ⟨hholds', hsame⟩ := hlift v hholds
    exact ⟨hholds', hsame.trans hself⟩
  answers := List.rel_append (ha.answers.imp fun _ _ hab => hab.mono hlift)
    (.cons hab .nil)

/-- Both runs refuse a call. -/
theorem refuse (ha : Ahead options m off on trace as bs) (e : Error) (τ : ValueId → ValueId) :
    Ahead options m off on trace (as ++ [.error e]) (bs ++ [.error (e.mapValues τ)]) :=
  ha.snoc ha.off_reachable ha.on_reachable ha.leadsTo (fun _ hv => ⟨hv, rfl⟩) (.error e τ)

/-- Both runs accept a call, and the new node does not fold. -/
theorem accept (ha : Ahead options m off on trace as bs) (hd : off.Fits f d)
    (hd' : d.mapOperands (off.rename trace) = d') (hoff : (off.append f d).OrderedReachable)
    (hon : (on.append f d').OrderedReachable) :
    Ahead options m (off.append f d) (on.append f d') trace
      (as ++ [.ok (.value off.nextValue)]) (bs ++ [.ok (.value on.nextValue)]) := by
  have hwf := ha.off_reachable.wellFormed
  have hself : (off.append f d).rename trace off.nextValue = on.nextValue := by
    rw [ha.leadsTo.rename_append, ha.leadsTo.rename_nextValue hwf, ha.leadsTo.sameShape.nextValue]
  refine ha.snoc hoff hon (hd' ▸ ha.leadsTo.append hwf hd)
    (fun v hv => ⟨hv.append hwf hoff.wellFormed, ha.leadsTo.rename_append f d v⟩) ?_
  rw [← hself]
  exact .value (holds_nextValue hwf hoff.wellFormed)

/-- Both runs accept a call, and the new node folds as it is built. -/
theorem acceptFold (ha : Ahead options m off on trace as bs) (hd : off.Fits f d)
    (hd' : d.mapOperands (off.rename trace) = d') (hoff : (off.append f d).OrderedReachable)
    (hwf' : (on.append f d').WellFormed) (hunread : (on.append f d').usesOf on.nextValue = [])
    (hr : (on.append f d').replacement? options on.nextNode = .ok (some v))
    (hon : ((on.append f d').retire on.nextNode).OrderedReachable) :
    Ahead options m (off.append f d) ((on.append f d').retire on.nextNode)
      (trace ++ [(on.nextNode, v)]) (as ++ [.ok (.value off.nextValue)])
      (bs ++ [.ok (.value v)]) := by
  have hwf := ha.off_reachable.wellFormed
  have hshape := ha.leadsTo.sameShape
  have hlast : ∀ w, (off.append f d).rename (trace ++ [(on.nextNode, v)]) w =
      off.nextValue.subst v (off.rename trace w) := by
    intro w
    rw [hshape.nextNode]
    exact ha.leadsTo.rename_append_snoc f d v w
  refine ha.snoc hoff hon ?_ (fun w hw => ⟨hw.append hwf hoff.wellFormed, ?_⟩) ?_
  · have hl : LeadsTo options (off.append f d) trace (on.append f d') :=
      hd' ▸ ha.leadsTo.append hwf hd
    exact hl.retire hoff.wellFormed hwf' (getElem?_nodes_append_nextNode on f d') hr hunread
  · rw [hlast, ValueId.subst_of_ne]
    intro he
    have hlt := (ha.holds_rename hw).1.1
    rw [he, hshape.size_values] at hlt
    exact Nat.lt_irrefl _ hlt
  · have hself : (off.append f d).rename (trace ++ [(on.nextNode, v)]) off.nextValue = v := by
      rw [hlast, ha.leadsTo.rename_nextValue hwf, ValueId.subst_old]
    have hvalue := Answers.value (σ := (off.append f d).rename (trace ++ [(on.nextNode, v)]))
      (holds_nextValue hwf hoff.wellFormed)
    rwa [hself] at hvalue

/-- Each call leaves the run that folds ahead. -/
theorem exists_runCall (ha : Ahead options m off on trace as bs)
    (hrefers : ∀ v ∈ call.request.values, m.Refers as v) :
    let s := runCall { options with onBuild := false } m.values.size (as, off) call
    let t := runCall { options with onBuild := true } m.values.size (bs, on) call
    ∃ trace', Ahead options m s.2 t.2 trace' s.1 t.1 := by
  have hoff := ha.off_reachable.wellFormed
  have hon := ha.on_reachable.wellFormed
  have hdraft : on.draftFor call.func (call.request.mapValues (resolve m.values.size bs)) =
      ((off.draftFor call.func (call.request.mapValues (resolve m.values.size as))).map
        (Draft.mapOperands (off.rename trace))).mapError (Error.mapValues (off.rename trace)) := by
    refine ha.leadsTo.sameShape.draftFor_mapValues hoff.toCoherent hon.toCoherent
      (fun v hv => (ha.resolve_eq (hrefers v hv)).2) fun v hv => ?_
    obtain ⟨hholds, -⟩ := ha.resolve_eq (hrefers v hv)
    exact ⟨hholds, ha.holds_rename hholds⟩
  cases hd : off.draftFor call.func (call.request.mapValues (resolve m.values.size as)) with
  | error e =>
    rw [hd] at hdraft
    rw [runCall_of_error (Edit.run_build_of_error hoff _ hd),
      runCall_of_error (Edit.run_build_of_error hon _ hdraft)]
    exact ⟨trace, ha.refuse e _⟩
  | ok d =>
    rw [hd] at hdraft
    have hfits := fits_of_requireDraft (requireDraft_of_draftFor hd)
    have hrun := Edit.run_build_off hoff { options with onBuild := false } rfl hd
    rw [runCall_of_ok hrun]
    have hoff' := ha.off_reachable.build hrun
    rcases Edit.run_build_on hon { options with onBuild := true } rfl hdraft with
      hrun' | ⟨v, hlocal, hrun'⟩
    · rw [runCall_of_ok hrun']
      exact ⟨trace, ha.accept hfits rfl hoff' (ha.on_reachable.build hrun')⟩
    · rw [runCall_of_ok hrun']
      obtain ⟨hwf, x, hx, hlive, hunread⟩ :=
        Edit.append_of_requireDraft hon (requireDraft_of_draftFor hdraft)
      obtain ⟨y, hy, hs, -⟩ := restates_of_localReplacement? hlocal
      obtain rfl := Option.some.inj (hx.symm.trans hy)
      have hr := (hwf.replacement?_eq_some_iff hx).mpr ⟨hlive, hs⟩
      have hstructural : ({ options with onBuild := true } : FoldOptions).structural =
        options.structural := rfl
      rw [replacement?_congr hstructural] at hr
      rw [getElem?_nodes_append_nextNode] at hx
      obtain rfl := Option.some.inj hx
      exact ⟨_, ha.acceptFold hfits rfl hoff' hwf hunread hr (ha.on_reachable.build hrun')⟩

end Ahead

theorem OrderedReachable.exists_ahead (h : m.OrderedReachable)
    (hs : m.Admits { options with onBuild := false } script) :
    ∃ trace, Ahead options m (m.runScript { options with onBuild := false } script).2
      (m.runScript { options with onBuild := true } script).2 trace
      (m.runScript { options with onBuild := false } script).1
      (m.runScript { options with onBuild := true } script).1 := by
  induction script using List.reverseRecOn with
  | nil => exact ⟨[], h, h, .refl options m, fun v hv => ⟨hv, rfl⟩, .nil⟩
  | append_singleton script call ih =>
    obtain ⟨hs, hrefers⟩ := hs.of_append_singleton
    obtain ⟨trace, ha⟩ := ih hs
    rw [runScript_append_singleton, runScript_append_singleton]
    exact ha.exists_runCall hrefers

/-! ## Passes after two runs -/

/-- Folds that are made before a pass make no difference to it. -/
theorem LeadsTo.sameResult (hl : LeadsTo options g trace h) (hg : g.OrderedReachable)
    (hh : h.OrderedReachable) (hs : options'.structural = options.structural)
    (hbound : 0 < options'.maxRounds) :
    SameResult ((Edit.foldAll options').run g) ((Edit.foldAll options').run h) := by
  obtain ⟨k, hf, a⟩ := hl
  have hk := hf.wellFormed hg.wellFormed
  have hfailure : h.firstFailure? options = g.firstFailure? options :=
    (a.firstFailure?_eq hk hh.wellFormed).trans (hf.firstFailure?_eq hg.wellFormed)
  cases hfirst : g.firstFailure? options with
  | some e =>
    obtain ⟨g', hrung⟩ := hg.exists_error_of_firstFailure? hfirst hs hbound
    obtain ⟨h', hrunh⟩ := hh.exists_error_of_firstFailure? (hfailure.trans hfirst) hs hbound
    rw [hrung, hrunh]
    exact .error e g' h'
  | none =>
    obtain ⟨g', traceg, hfg, heg, hpassg⟩ := hg.exists_folds_of_foldAll hfirst
    obtain ⟨h', traceh, hfh, heh, hpassh⟩ :=
      hh.exists_folds_of_foldAll (hfailure.trans hfirst)
    obtain ⟨reportg, hrung⟩ := hpassg options' hs hbound
    obtain ⟨reporth, hrunh⟩ := hpassh options' hs hbound
    obtain ⟨k', hfk, a'⟩ := hfh.alike hh.wellFormed hk a.symm
    have hk' := a'.exhausted (hfh.wellFormed hh.wellFormed) (hfk.wellFormed hk) heh
    rw [hrung, hrunh]
    exact .ok <|
      (hfg.alike_of_exhausted hg.wellFormed hg.ordered heg (hf.append hfk) hk').trans a'.symm

/-- Whether nodes fold as they are built or not, a script from an ordered graph has the same calls
accepted, and the others refused for the same reasons. It adds as many nodes and values, and a pass
after it fails with one error or leads to graphs that are alike. -/
theorem OrderedReachable.fold_on_build_agrees (h : m.OrderedReachable)
    (hs : m.Admits { options with onBuild := false } script) :
    let off := m.runScript { options with onBuild := false } script
    let on := m.runScript { options with onBuild := true } script
    List.Forall₂ SameOutcome off.1 on.1 ∧ on.2.nodes.size = off.2.nodes.size ∧
      on.2.values.size = off.2.values.size ∧
      ∀ options' : FoldOptions, options'.structural = options.structural →
        0 < options'.maxRounds →
          SameResult ((Edit.foldAll options').run off.2) ((Edit.foldAll options').run on.2) := by
  intro off on
  obtain ⟨trace, ha⟩ := h.exists_ahead hs
  have hshape := ha.leadsTo.sameShape
  exact ⟨ha.answers.imp fun _ _ hab => hab.sameOutcome, hshape.size_nodes, hshape.size_values,
    fun options' hs hbound =>
      ha.leadsTo.sameResult ha.off_reachable ha.on_reachable hs hbound⟩

/-- A cast that folds as it is built, and a node that reads what was answered for it. -/
theorem OrderedReachable.fold_on_build_agrees_of_cast :
    let m := (ofTable { names := ["int"] }).after [.addFunc "f" [⟨1⟩]]
    let script : List BuildCall := [⟨⟨0⟩, .cast ⟨0⟩ ⟨1⟩⟩, ⟨⟨0⟩, .iter ⟨1⟩⟩]
    let options : FoldOptions := {}
    let off := m.runScript { options with onBuild := false } script
    let on := m.runScript { options with onBuild := true } script
    off.1 = [.ok (.value ⟨1⟩), .ok (.value ⟨2⟩)] ∧ on.1 = [.ok (.value ⟨0⟩), .ok (.value ⟨2⟩)] ∧
      on.2.nodes.size = off.2.nodes.size ∧
      SameResult ((Edit.foldAll options).run off.2) ((Edit.foldAll options).run on.2) := by
  intro m script options off on
  have h : m.OrderedReachable := (init _).after (by simp)
  have hholds : m.Holds ⟨0⟩ := by
    refine ⟨by decide +kernel, ?_⟩
    rintro ⟨n, x, -, hx, -⟩
    have hnodes : m.nodes = #[] := rfl
    simp [hnodes] at hx
  have hanswer : m.values.size ≤ 1 ∧ ∃ w, (m.runScript { options with onBuild := false }
      (script.take 1)).1[1 - m.values.size]? = some (.ok (.value w)) :=
    ⟨by decide +kernel, ⟨1⟩, by decide +kernel⟩
  have hs : m.Admits { options with onBuild := false } script := by
    intro i call hi v hv
    match i with
    | 0 =>
      obtain rfl := Option.some.inj hi
      obtain rfl : v = ⟨0⟩ := List.mem_singleton.mp hv
      exact .inl hholds
    | 1 =>
      obtain rfl := Option.some.inj hi
      obtain rfl : v = ⟨1⟩ := List.mem_singleton.mp hv
      exact .inr hanswer
    | i + 2 => cases hi
  obtain ⟨-, hsize, -, hpass⟩ := h.fold_on_build_agrees hs
  have hoff : off.1 = [.ok (.value ⟨1⟩), .ok (.value ⟨2⟩)] := by decide +kernel
  have hon : on.1 = [.ok (.value ⟨0⟩), .ok (.value ⟨2⟩)] := by decide +kernel
  exact ⟨hoff, hon, hsize, hpass options rfl (by decide)⟩

end Graph

end DeferredIR
