import DeferredIR.Export
import DeferredIR.Listing
import DeferredIR.Proofs.Arenas
import DeferredIR.Proofs.Fold.Failures
import DeferredIR.Proofs.Renaming
import DeferredIR.Proofs.TypeTable

/-!
# No faults

A fault is a read outside an arena or an operand list, a call cut at a bad bound, or a type handle
of another table. Commands never fault, whatever handles they are given, and neither do the reads
of handles that a graph issued. Three invariants carry this: the graph is well formed, the type of
each value is in the type table, and functions list existing nodes. The second is established here.
-/

namespace DeferredIR

open DeferredIR.Graph

variable {g g' : Graph} {options : FoldOptions} {n : NodeId} {x : Node} {v w : ValueId}
variable {f : FuncId} {d : Draft}

/-! ## Typed graphs -/

namespace Graph

open Check

/-- The type of each value is in the table. -/
def Typed (g : Graph) : Prop := ∀ v, g.types.contains (g.typeOf v) = true

namespace Typed

theorem of_sameShape (ht : g.Typed) (s : SameShape g g') : g'.Typed := by
  intro v
  rw [s.types, s.typeOf]
  exact ht v

theorem appendFunc (ht : g.Typed) {types : List TypeId} (hk : types.forM g.requireType = .ok ())
    (name : String) : (g.appendFunc name types).Typed := by
  intro v
  rw [typeOf_appendFunc]
  split
  · exact ht v
  · cases hv : types[v.index - g.values.size]? with
    | none => exact g.types.contains_undefined
    | some t => exact contains_of_requireType (forM_eq_ok.mp hk t (List.mem_of_getElem? hv))

theorem append (ht : g.Typed) (hd : g.requireDraft f d = .ok ()) : (g.append f d).Typed := by
  intro v
  show g.types.contains ((g.append f d).typeOf v) = true
  rw [typeOf_append]
  split
  · exact contains_of_requireDraft hd
  · exact ht v

theorem assignType (ht : g.Typed) {t : TypeId} (ha : g.requireAssignable v t = .ok ()) :
    (g.assignType v t).Typed := by
  obtain ⟨hv, -, -, hc⟩ := of_requireAssignable ha
  intro w
  rw [typeOf_assignType g v t hv]
  split
  · exact hc
  · exact ht w

theorem step {R : ValueId → ValueId → Prop} (ht : g.Typed) (hs : Step R g g') : g'.Typed := by
  cases hs with
  | intern hi => exact fun v => TypeTable.contains_of_prefix (TypeTable.prefix_of_intern hi) (ht v)
  | appendFunc hk => exact ht.appendFunc hk _
  | append hd => exact ht.append hd
  | assignType ha => exact ht.assignType ha
  | redirect _ _ _ => exact ht.of_sameShape ⟨sameFrame_redirect .., rfl, typeOf_redirect g _ _⟩
  | retire _ _ _ => exact ht.of_sameShape (sameShape_retire ..)

end Typed

theorem Reachable.typed (h : g.Reachable) : g.Typed :=
  h.induction (fun table _ => table.contains_undefined) (fun _ ht hs => ht.step hs)
    fun _ ht _ _ _ => ht.of_sameShape (sameShape_fold ..)

end Graph

/-! ## Answers without faults -/

namespace Check

variable {α β : Type}

/-- `x` answers, or fails with an error that is no fault. -/
def Faultless (x : Except Error α) : Prop := ∀ e, x ≠ .error (.fault e)

namespace Faultless

theorem liftM {x : Except Fault α} (h : ∃ a, x = .ok a) :
    Faultless (liftM x : Except Error α) := by
  obtain ⟨a, rfl⟩ := h
  exact nofun

/-- An error that is no fault stays none where it is passed on. -/
theorem error {x : Except Error α} (hx : Faultless x) {e : Error} (he : x = .error e) :
    Faultless (.error e : Except Error β) := by
  intro e' he'
  exact hx e' (he.trans (congrArg _ (Except.error.inj he')))

theorem mapError_edit (x : Except EditError α) : Faultless (x.mapError .edit) := by
  cases x <;> exact nofun

theorem bind {x : Except Error α} {f : α → Except Error β} (hx : Faultless x)
    (hf : ∀ a, x = .ok a → Faultless (f a)) : Faultless (x >>= f) := by
  cases x with
  | error e => exact fun e' he => hx e' (congrArg _ (Except.error.inj he))
  | ok a => exact hf a rfl

theorem map {x : Except Error α} (hx : Faultless x) (φ : α → β) : Faultless (φ <$> x) := by
  cases x with
  | error e => exact fun e' he => hx e' (congrArg _ (Except.error.inj he))
  | ok a => exact nofun

theorem forM {l : List α} {f : α → Except Error Unit} (hf : ∀ a ∈ l, Faultless (f a)) :
    Faultless (l.forM f) := by
  intro e he
  obtain ⟨a, ha, he⟩ := forM_eq_error he
  exact hf a ha e he

end Faultless

end Check

/-! ## The checks of edits -/

namespace Graph

open Check

theorem faultless_requireFunc (g : Graph) (f : FuncId) : Faultless (g.requireFunc f) := by
  unfold requireFunc
  split <;> exact nofun

theorem faultless_requireType (g : Graph) (t : TypeId) : Faultless (g.requireType t) := by
  unfold requireType
  split <;> exact nofun

theorem faultless_requireValue (g : Graph) (v : ValueId) : Faultless (g.requireValue v) := by
  unfold requireValue
  split <;> exact nofun

namespace Coherent

theorem faultless_requireLive (h : g.Coherent) (hv : v.index < g.values.size) :
    Faultless (g.requireLive v) := by
  refine .bind (.liftM (h.exists_definingNode? hv)) fun x? _ => ?_
  split <;> exact nofun

theorem exists_owner (h : g.Coherent) (hv : v.index < g.values.size) : ∃ f, g.owner v = .ok f := by
  obtain ⟨f, hf⟩ := h.exists_owner? hv
  exact ⟨f, owner_eq_ok.mpr hf⟩

theorem faultless_requireReadable (h : g.Coherent) (f : FuncId) (v : ValueId) :
    Faultless (g.requireReadable f v) := by
  refine .bind (g.faultless_requireValue v) fun _ hv => ?_
  have hlt := lt_of_requireValue hv
  refine .bind (h.faultless_requireLive hlt) fun _ _ => ?_
  refine .bind (.liftM (h.exists_owner hlt)) fun owner _ => ?_
  split <;> exact nofun

theorem faultless_requireDraft (h : g.Coherent) (f : FuncId) (d : Draft) :
    Faultless (g.requireDraft f d) := by
  refine .bind (g.faultless_requireFunc f) fun _ _ => ?_
  refine .bind (g.faultless_requireType d.type) fun _ _ => ?_
  refine .bind (.forM fun v _ => h.faultless_requireReadable f v) fun _ _ => ?_
  exact .mapError_edit _

theorem faultless_requireAssignable (h : g.Coherent) (v : ValueId) (t : TypeId) :
    Faultless (g.requireAssignable v t) := by
  refine .bind (g.faultless_requireValue v) fun _ hv => ?_
  have hlt := lt_of_requireValue hv
  refine .bind (h.faultless_requireLive hlt) fun _ _ => ?_
  refine .bind (g.faultless_requireType t) fun _ _ => ?_
  split
  · exact nofun
  · have hvalue := value_eq_ok.mpr (Array.getElem?_eq_getElem hlt)
    refine .bind (.liftM ⟨_, hvalue⟩) fun value _ => ?_
    split <;> exact nofun

theorem faultless_requireReplaceable (h : g.Coherent) (old new : ValueId) :
    Faultless (g.requireReplaceable old new) := by
  refine .bind (g.faultless_requireValue old) fun _ hold => ?_
  refine .bind (g.faultless_requireValue new) fun _ _ => ?_
  refine .bind (.liftM (h.exists_owner (lt_of_requireValue hold))) fun f _ => ?_
  exact h.faultless_requireReadable f new

end Coherent

/-! ## The reads of a graph -/

theorem Typed.exists_text (ht : g.Typed) {value : Value} (hv : g.value v = .ok value) :
    ∃ text, g.types.text value.type = .ok text := by
  have htype := ht v
  rw [typeOf_of_value (value_eq_ok.mp hv)] at htype
  exact TypeTable.exists_text_of_contains htype

theorem Typed.exists_typeText (ht : g.Typed) (hv : v.index < g.values.size) :
    ∃ text, g.typeText v = .ok text := by
  have hvalue := value_eq_ok.mpr (Array.getElem?_eq_getElem hv)
  exact exists_bind_eq_ok.mpr ⟨_, hvalue, ht.exists_text hvalue⟩

/-- An argument node that cannot be bound is reported with the types of both sides. -/
theorem WellFormed.faultless_boundFormal (h : g.WellFormed) (ht : g.Typed)
    (hn : g.nodes[n.index]? = some x) (index : Nat) : Faultless (g.boundFormal n x index) := by
  have hfunc := func_eq_ok.mpr (Array.getElem?_eq_getElem (h.func_lt hn))
  refine .bind (.liftM (exists_bind_eq_ok.mpr ⟨_, hfunc, _, rfl⟩)) fun v? hv => ?_
  cases v? with
  | none => exact .bind (.liftM ⟨_, hfunc⟩) fun _ _ => nofun
  | some v =>
    have hformal := formal?_eq_ok_some.mp (liftM_eq_ok.mp hv)
    have hlt := lt_of_origin? (h.formal_iff.mpr hformal)
    have hvalue := value_eq_ok.mpr (Array.getElem?_eq_getElem hlt)
    refine .bind (.liftM ⟨_, hvalue⟩) fun value hvalue => ?_
    have hresult := value_eq_ok.mpr (Array.getElem?_eq_getElem (h.lt_result hn))
    refine .bind (.liftM ⟨_, hresult⟩) fun result hresult => ?_
    have hexpected := ht.exists_text (liftM_eq_ok.mp hvalue)
    have hfound := ht.exists_text (liftM_eq_ok.mp hresult)
    dsimp only
    split
    · exact nofun
    · exact .bind (.liftM hexpected) fun _ _ => .bind (.liftM hfound) fun _ _ => nofun

theorem WellFormed.faultless_replacement? (h : g.WellFormed) (ht : g.Typed)
    (options : FoldOptions) (hn : g.nodes[n.index]? = some x) :
    Faultless (g.replacement? options n) := by
  intro e he
  obtain ⟨-, index, -, -, hbound⟩ := (h.replacement?_eq_error_iff hn).mp he
  exact h.faultless_boundFormal ht hn index e hbound

end Graph

/-! ## Commands -/

namespace Edit

open Check

/-- The answer of an edit. -/
def answer {α : Type} (y : Edit α) (g : Graph) : Except Error α :=
  match y.run g with
  | .ok a _ => .ok a
  | .error e _ => .error e

theorem answer_map {α β : Type} (φ : α → β) (y : Edit α) (g : Graph) :
    (φ <$> y).answer g = φ <$> y.answer g := by
  simp only [answer, EStateM.run, Functor.map, EStateM.map]
  cases y g <;> rfl

theorem faultless_internType (name : String) : Faultless ((internType name).answer g) := by
  rw [answer, run_internType]
  cases g.types.intern name <;> exact nofun

theorem faultless_addFunc (name : String) (types : List TypeId) :
    Faultless ((addFunc name types).answer g) := by
  have hcheck : Faultless (types.forM g.requireType) := .forM fun t _ => g.faultless_requireType t
  rw [answer, run_addFunc]
  cases hc : types.forM g.requireType with
  | error e => exact hcheck.error hc
  | ok _ => exact nofun

theorem faultless_assignType (h : g.WellFormed) (v : ValueId) (t : TypeId) :
    Faultless ((assignType v t).answer g) := by
  rw [answer, run_assignType]
  cases hc : g.requireAssignable v t with
  | error e => exact (h.faultless_requireAssignable v t).error hc
  | ok _ => exact nofun

theorem faultless_replace (h : g.WellFormed) (old new : ValueId) :
    Faultless ((replace old new).answer g) := by
  cases hc : g.requireReplaceable old new with
  | error e =>
    rw [answer, run_replace, hc]
    exact (h.faultless_requireReplaceable old new).error hc
  | ok _ =>
    obtain ⟨count, hrun⟩ := run_replace_of_ok h hc
    rw [answer, hrun]
    exact nofun

theorem faultless_build (h : g.WellFormed) (f : FuncId) (options : FoldOptions)
    (request : Request) : Faultless ((build f options request).answer g) := by
  have hb := built_run_build h f options request
  rw [answer]
  generalize (build f options request).run g = r at hb
  cases hb with
  | noFunc hf => exact (g.faultless_requireFunc f).error hf
  | noDraft _ => exact nofun
  | unfit hd => exact (h.faultless_requireDraft f _).error hd
  | kept _ | folded _ _ => exact nofun

theorem faultless_foldNodes (h : g.WellFormed) (ht : g.Typed) {nodes : List NodeId}
    (hnodes : ∀ n ∈ nodes, ∃ x, g.nodes[n.index]? = some x) (report : FoldReport) :
    Faultless ((foldNodes options nodes report).answer g) := by
  intro e he
  -- Folds move no failure, so what the round fails with was there when it began.
  have hfirst : nodes.findSome? (g.failure? options) = some (.fault e) := by
    rw [findSome?_failure?_eq h hnodes report]
    rw [answer] at he
    cases hrun : (foldNodes options nodes report).run g with
    | ok after g' => simp [hrun] at he
    | error e' g' => simpa [hrun] using he
  obtain ⟨n, hn, hfail⟩ := List.exists_of_findSome?_eq_some hfirst
  obtain ⟨x, hx⟩ := hnodes n hn
  exact h.faultless_replacement? ht options hx e (failure?_eq_some_iff.mp hfail)

theorem faultless_foldRounds (h : g.WellFormed) (ht : g.Typed) (bound : Nat)
    (report : FoldReport) : Faultless ((foldRounds options bound report).answer g) := by
  induction bound generalizing g report with
  | zero => exact nofun
  | succ bound ih =>
    have hround : Faultless ((foldNodes options g.live report.addRound).answer g) :=
      faultless_foldNodes h ht (fun _ => exists_node_of_mem_live) report.addRound
    rw [answer] at hround ⊢
    rw [run_foldRounds_succ]
    cases hrun : (foldNodes options g.live report.addRound).run g with
    | error e g' => simpa [hrun] using hround
    | ok after g' =>
      have hfolds := folds_of_run_foldNodes h hrun
      by_cases hidle : after.folded = report.folded
      · simp only [if_pos hidle]
        exact nofun
      · simp only [if_neg hidle]
        -- The next round begins like this one: folds change neither types nor well-formedness.
        exact ih (hfolds.wellFormed h) (ht.of_sameShape hfolds.sameShape) after

end Edit

theorem Command.run_fst (c : Command) (g : Graph) : (c.run g).1 = c.edit.answer g := by
  rw [run, Edit.answer]
  cases c.edit.run g <;> rfl

/-- A command that is refused, or a pass that ends early, says why. -/
theorem Command.faultless_run (h : g.WellFormed) (ht : g.Typed) (c : Command) :
    Check.Faultless (c.run g).1 := by
  rw [run_fst]
  cases c with
  | internType name =>
    rw [edit, Edit.answer_map]
    exact (Edit.faultless_internType name).map _
  | addFunc name types =>
    rw [edit, Edit.answer_map]
    exact (Edit.faultless_addFunc name types).map _
  | build func options request =>
    rw [edit, Edit.answer_map]
    exact (Edit.faultless_build h func options request).map _
  | assignType value type =>
    rw [edit_assignType, Edit.answer_map]
    exact (Edit.faultless_assignType h value type).map _
  | replace old new =>
    rw [edit, Edit.answer_map]
    exact (Edit.faultless_replace h old new).map _
  | foldAll options =>
    rw [edit, Edit.answer_map]
    exact (Edit.faultless_foldRounds h ht options.maxRounds {}).map _

/-! ## Calls, listings and exports -/

namespace Node

open Check

/-- A node with as many operands as its opcode wants is cut where its keywords begin. -/
theorem exists_keywordStart (h : x.opcode.arity.accepts x.operands.length = true) :
    ∃ start?, x.keywordStart = .ok start? := by
  unfold keywordStart
  split
  · rename_i keywords hk
    rw [hk, Opcode.arity, Arity.accepts_atLeast] at h
    rw [if_pos (by omega)]
    exact ⟨_, rfl⟩
  · exact ⟨_, rfl⟩

theorem exists_callLayout (h : x.opcode.arity.accepts x.operands.length = true) :
    ∃ layout?, x.callLayout = .ok layout? := by
  unfold callLayout
  split
  · rename_i keywords hk
    rw [hk, Opcode.arity, Arity.accepts_atLeast] at h
    split
    · rename_i callee arguments hops
      rw [hops, List.length_cons] at h
      rw [if_pos (by omega)]
      exact ⟨_, rfl⟩
    · rename_i hops
      rw [hops, List.length_nil] at h
      omega
  · exact ⟨_, rfl⟩

theorem exists_operandText (h : x.opcode.arity.accepts x.operands.length = true) :
    ∃ text, x.operandText = .ok text := by
  obtain ⟨layout?, hl⟩ := exists_callLayout h
  refine exists_bind_eq_ok.mpr ⟨layout?, hl, ?_⟩
  cases layout? with
  | some layout => exact ⟨_, rfl⟩
  | none =>
    dsimp only
    split <;> exact ⟨_, rfl⟩

end Node

namespace Graph

open Check

variable {func : Func}

theorem Coherent.lt_of_mem_formals (h : g.Coherent) (hf : g.functions[f.index]? = some func)
    (hv : v ∈ func.formals) : v.index < g.values.size := by
  obtain ⟨i, hi⟩ := List.mem_iff_getElem?.mp hv
  exact lt_of_origin? (h.formal_iff.mpr (formalAt?_eq_some_iff.mpr ⟨func, hf, hi⟩))

theorem ListsNodes.exists_node (hl : g.ListsNodes) (hf : g.functions[f.index]? = some func)
    (hn : n ∈ func.body) : ∃ x, g.node n = .ok x := by
  obtain ⟨x, hx, -⟩ := (hl.mem_body_iff hf).mp hn
  exact ⟨x, node_eq_ok.mpr hx⟩

theorem Typed.exists_formalSpans (ht : g.Typed) (hv : v.index < g.values.size) :
    ∃ spans, g.formalSpans v = .ok spans := by
  obtain ⟨text, htext⟩ := ht.exists_typeText hv
  exact exists_bind_eq_ok.mpr ⟨text, htext, _, rfl⟩

theorem Typed.exists_valueJson (ht : g.Typed) (hv : v.index < g.values.size) :
    ∃ json, g.valueJson v = .ok json := by
  obtain ⟨text, htext⟩ := ht.exists_typeText hv
  exact exists_bind_eq_ok.mpr ⟨text, htext, _, rfl⟩

namespace WellFormed

theorem exists_nodeLine (h : g.WellFormed) (ht : g.Typed) (hn : g.nodes[n.index]? = some x) :
    ∃ line, g.nodeLine x = .ok line := by
  obtain ⟨operands, hoperands⟩ := x.exists_operandText (h.accepts hn)
  obtain ⟨type, htype⟩ := ht.exists_typeText (h.lt_result hn)
  exact exists_bind_eq_ok.mpr ⟨operands, hoperands, exists_bind_eq_ok.mpr ⟨type, htype, _, rfl⟩⟩

theorem exists_nodeJson (h : g.WellFormed) (ht : g.Typed) (hx : g.node n = .ok x) :
    ∃ json, g.nodeJson n = .ok json := by
  obtain ⟨result, hresult⟩ := ht.exists_valueJson (h.lt_result (node_eq_ok.mp hx))
  exact exists_bind_eq_ok.mpr ⟨x, hx, exists_bind_eq_ok.mpr ⟨result, hresult, _, rfl⟩⟩

theorem exists_funcLines (h : g.WellFormed) (ht : g.Typed) (hl : g.ListsNodes)
    (hf : g.functions[f.index]? = some func) (showDead : Bool) :
    ∃ lines, g.funcLines showDead func = .ok lines := by
  obtain ⟨formals, hformals⟩ := exists_mapM_eq_ok (f := g.formalSpans) fun v hv =>
    ht.exists_formalSpans (h.lt_of_mem_formals hf hv)
  obtain ⟨body, hbody⟩ := exists_mapM_eq_ok (f := g.node) fun n hn => hl.exists_node hf hn
  have hshown : g.shownNodes showDead func =
      .ok (body.filter fun n => showDead || !n.dead) := bind_eq_ok.mpr ⟨body, hbody, rfl⟩
  obtain ⟨lines, hlines⟩ := exists_mapM_eq_ok (l := body.filter fun n => showDead || !n.dead)
    (f := g.nodeLine) fun x hx => by
      obtain ⟨n, -, hn⟩ := exists_of_mem_mapM hbody (List.mem_of_mem_filter hx)
      exact h.exists_nodeLine ht (node_eq_ok.mp hn)
  exact exists_bind_eq_ok.mpr ⟨formals, hformals, exists_bind_eq_ok.mpr
    ⟨_, hshown, exists_bind_eq_ok.mpr ⟨lines, hlines, _, rfl⟩⟩⟩

theorem exists_funcJson (h : g.WellFormed) (ht : g.Typed) (hl : g.ListsNodes)
    (hf : g.functions[f.index]? = some func) : ∃ json, g.funcJson func = .ok json := by
  obtain ⟨args, hargs⟩ := exists_mapM_eq_ok (f := g.valueJson) fun v hv =>
    ht.exists_valueJson (h.lt_of_mem_formals hf hv)
  obtain ⟨ops, hops⟩ := exists_mapM_eq_ok (f := g.nodeJson) fun n hn => by
    obtain ⟨x, hx⟩ := hl.exists_node hf hn
    exact h.exists_nodeJson ht hx
  exact exists_bind_eq_ok.mpr ⟨args, hargs, exists_bind_eq_ok.mpr ⟨ops, hops, _, rfl⟩⟩

end WellFormed

/-- What answers on each function of the arena answers on the list of them. -/
theorem exists_mapM_functions {β : Type} {read : Func → Except Fault β}
    (hread : ∀ (f : FuncId) (func : Func), g.functions[f.index]? = some func →
      ∃ b, read func = .ok b) : ∃ bs, g.functions.toList.mapM read = .ok bs := by
  refine exists_mapM_eq_ok fun func hfunc => ?_
  obtain ⟨f, hf⟩ := exists_funcId_of_mem hfunc
  exact hread f func hf

theorem WellFormed.exists_listing (h : g.WellFormed) (ht : g.Typed) (hl : g.ListsNodes)
    (options : ListingOptions) : ∃ text, g.listing options = .ok text := by
  obtain ⟨lines, hlines⟩ := exists_mapM_functions fun f func hf =>
    h.exists_funcLines ht hl hf options.showDead
  exact exists_bind_eq_ok.mpr ⟨_, bind_eq_ok.mpr ⟨lines, hlines, rfl⟩, _, rfl⟩

theorem WellFormed.exists_jsonText (h : g.WellFormed) (ht : g.Typed) (hl : g.ListsNodes) :
    ∃ text, g.jsonText = .ok text := by
  obtain ⟨items, hitems⟩ := exists_mapM_functions fun f func hf => h.exists_funcJson ht hl hf
  exact ⟨_, map_eq_ok.mpr ⟨_, bind_eq_ok.mpr ⟨items, hitems, rfl⟩, rfl⟩⟩

/-! ## Every run -/

/-- The graph after the last of several sessions. Each begins with a new graph over the types that
the one before it left. -/
def afterSessions (table : TypeTable) (sessions : List (List Command)) : Graph :=
  sessions.foldl (fun g script => (ofTable g.types).after script) (ofTable table)

theorem reachable_afterSessions (table : TypeTable) (sessions : List (List Command)) :
    (afterSessions table sessions).Reachable := by
  have hfoldl : ∀ {g : Graph}, g.Reachable →
      (sessions.foldl (fun g script => (ofTable g.types).after script) g).Reachable := by
    induction sessions with
    | nil => exact fun h => h
    | cons script sessions ih => exact fun _ => ih ⟨_, script, rfl⟩
  exact hfoldl ⟨table, [], rfl⟩

/-- What can be called on a graph does not fault: a command with any handles, a read with handles
that the graph issued. -/
structure FaultFree (g : Graph) : Prop where
  command : ∀ c : Command, Faultless (c.run g).1
  /-- A built node is written to a function and to values that exist. -/
  draft : ∀ (f : FuncId) (d : Draft), g.requireDraft f d = .ok () →
    f.index < g.functions.size ∧ ∀ v ∈ d.operands, v.index < g.values.size
  /-- A type is written to a value that exists. -/
  assignable : ∀ (v : ValueId) (t : TypeId), g.requireAssignable v t = .ok () →
    v.index < g.values.size
  replacement : ∀ (options : FoldOptions) (n : NodeId), n.index < g.nodes.size →
    Faultless (g.replacement? options n)
  func : ∀ f : FuncId, f.index < g.functions.size →
    ∃ func, g.func f = .ok func ∧ ∀ i, ∃ v?, g.formal? f i = .ok v?
  node : ∀ n : NodeId, n.index < g.nodes.size → ∃ x, g.node n = .ok x ∧
    (∃ start?, x.keywordStart = .ok start?) ∧ ∃ layout?, x.callLayout = .ok layout?
  value : ∀ v : ValueId, v.index < g.values.size →
    (∃ value, g.value v = .ok value) ∧ (∃ x?, g.definingNode? v = .ok x?) ∧
      (∃ f, g.owner v = .ok f) ∧ ∃ text, g.typeText v = .ok text
  listing : ∀ options : ListingOptions, ∃ text, g.listing options = .ok text
  json : ∃ text, g.jsonText = .ok text

/-- No run leads to a graph on which a call faults, even if its type table served other graphs
before, passes failed in it, or its nodes read each other in a circle. Verification is not among the
calls here because it cannot express a fault. -/
theorem faultFree_afterSessions (table : TypeTable) (sessions : List (List Command)) :
    (afterSessions table sessions).FaultFree := by
  have h := reachable_afterSessions table sessions
  have hwf := h.wellFormed
  have ht := h.typed
  generalize afterSessions table sessions = g at *
  have hnode : ∀ {n : NodeId} (hn : n.index < g.nodes.size),
      g.nodes[n.index]? = some g.nodes[n.index] := Array.getElem?_eq_getElem
  refine ⟨Command.faultless_run hwf ht, fun f d hd => ?_, fun v t ha => ?_, fun options n hn => ?_,
    fun f hf => ?_, fun n hn => ?_, fun v hv => ?_, hwf.exists_listing ht h.listsNodes,
    hwf.exists_jsonText ht h.listsNodes⟩
  · obtain ⟨hf, hoperands, -⟩ := of_requireDraft hd
    exact ⟨hf, fun v hv => lt_of_owner? (hoperands v hv).1⟩
  · exact (of_requireAssignable ha).1
  · exact hwf.faultless_replacement? ht options (hnode hn)
  · have hfunc := func_eq_ok.mpr (Array.getElem?_eq_getElem hf)
    exact ⟨_, hfunc, fun i => exists_bind_eq_ok.mpr ⟨_, hfunc, _, rfl⟩⟩
  · have hacc := hwf.accepts (hnode hn)
    exact ⟨_, node_eq_ok.mpr (hnode hn), Node.exists_keywordStart hacc, Node.exists_callLayout hacc⟩
  · exact ⟨⟨_, value_eq_ok.mpr (Array.getElem?_eq_getElem hv)⟩, hwf.exists_definingNode? hv,
      hwf.exists_owner hv, ht.exists_typeText hv⟩

/-- A node that came to read its own result, in a graph where passes fail, over a type table that
another graph left. -/
theorem faultFree_of_self_reader :
    let g := afterSessions {} [[.internType "int"], [.addFunc "f" [⟨1⟩],
      .build ⟨0⟩ {} (.iter ⟨0⟩), .replace ⟨0⟩ ⟨1⟩, .build ⟨0⟩ {} (.arg 1 "x"), .foldAll {}]]
    g.nodes[0]?.map Node.operands = some [⟨1⟩] ∧ g.resultOf? ⟨0⟩ = some ⟨1⟩ ∧
      ((Command.foldAll {}).run g).1 = .error (.inconsistent (.argumentOutOfRange ⟨1⟩ 1 1)) ∧
      g.FaultFree :=
  ⟨rfl, rfl, rfl, faultFree_afterSessions _ _⟩

/-- Graphs that no run leads to can fault. -/
example :
    let x : Node := { opcode := .cast, operands := [], result := ⟨0⟩, func := ⟨0⟩ }
    ({ nodes := #[x] } : Graph).localReplacement? {} ⟨0⟩ = .error .outOfRange := rfl

end Graph

end DeferredIR
