import DeferredIR.Proofs.Fold.Effects
import DeferredIR.Proofs.Fold.Remains
import DeferredIR.Proofs.NoFaults

/-!
# Where a pass stops

Only an argument node that cannot be bound stops a pass. Whether it can be bound depends on what no
fold changes, so the first round meets each such node that is live when the pass begins, and no
later round meets another. The oldest one stops the pass: the nodes before it have been tried once,
and neither it nor a newer one has been touched.
-/

namespace DeferredIR

open DeferredIR.Graph Check

variable {g g' : Graph} {options : FoldOptions} {n m : NodeId} {x y : Node} {index : Nat}
variable {name : String} {e : Error} {report report' : FoldReport}

namespace Graph

/-! ## Argument nodes that cannot be bound -/

/-- An argument node whose function has no formal argument at its index, or one of another type. -/
inductive Unbound (g : Graph) (x : Node) : Prop where
  | outOfRange {index : Nat} {name : String} {func : Func} (opcode : x.opcode = .arg index name)
      (func_eq : g.functions[x.func.index]? = some func) (le : func.formals.length ≤ index)
  | type {index : Nat} {name : String} {formal : ValueId} (opcode : x.opcode = .arg index name)
      (formal_eq : g.formalAt? x.func index = some formal)
      (ne : g.typeOf formal ≠ g.typeOf x.result)

/-- What is reported of an argument node `n` that cannot be bound. -/
inductive BindingFails (g : Graph) (n : NodeId) (x : Node) : Inconsistency → Prop where
  | outOfRange {index : Nat} {name : String} {func : Func} (opcode : x.opcode = .arg index name)
      (func_eq : g.functions[x.func.index]? = some func) (le : func.formals.length ≤ index) :
      BindingFails g n x (.argumentOutOfRange n index func.formals.length)
  | type {index : Nat} {name : String} {formal : ValueId} {expected found : String}
      (opcode : x.opcode = .arg index name) (formal_eq : g.formalAt? x.func index = some formal)
      (ne : g.typeOf formal ≠ g.typeOf x.result)
      (expected_eq : g.types.text (g.typeOf formal) = .ok expected)
      (found_eq : g.types.text (g.typeOf x.result) = .ok found) :
      BindingFails g n x (.argumentType n index expected found)

theorem formalAt?_of_func {func : Func} {f : FuncId} (hf : g.functions[f.index]? = some func)
    (index : Nat) : g.formalAt? f index = func.formals[index]? := by
  rw [formalAt?, hf, Option.bind_some]

theorem boundFormal_of_le {func : Func} (hf : g.functions[x.func.index]? = some func)
    (hle : func.formals.length ≤ index) :
    g.boundFormal n x index =
      .error (.inconsistent (.argumentOutOfRange n index func.formals.length)) := by
  have hfunc : g.func x.func = .ok func := func_eq_ok.mpr hf
  have hformal : g.formal? x.func index = .ok none := by
    rw [formal?, hfunc, ok_bind, List.getElem?_eq_none hle]
    rfl
  rw [boundFormal, hformal, hfunc]
  rfl

theorem WellFormed.boundFormal_of_type_ne (h : g.WellFormed) (hx : g.nodes[n.index]? = some x)
    {formal : ValueId} {expected found : String} (hf : g.formalAt? x.func index = some formal)
    (hne : g.typeOf formal ≠ g.typeOf x.result)
    (hexpected : g.types.text (g.typeOf formal) = .ok expected)
    (hfound : g.types.text (g.typeOf x.result) = .ok found) :
    g.boundFormal n x index = .error (.inconsistent (.argumentType n index expected found)) := by
  have hv := Array.getElem?_eq_getElem (lt_of_origin? (h.formal_iff.mpr hf))
  have hr := Array.getElem?_eq_getElem (h.lt_result hx)
  rw [typeOf_of_value hv] at hne hexpected
  rw [typeOf_of_value hr] at hne hfound
  rw [boundFormal, formal?_eq_ok_some.mpr hf, liftM_ok, ok_bind]
  dsimp only
  rw [value_eq_ok.mpr hv, value_eq_ok.mpr hr, liftM_ok, liftM_ok, ok_bind, ok_bind, if_neg hne,
    hexpected, hfound]
  rfl

namespace WellFormed

/-- A binding fails for one of the two reasons, and says for which. -/
theorem boundFormal_eq_error_iff (h : g.WellFormed) (ht : g.Typed)
    (hx : g.nodes[n.index]? = some x) (hk : x.opcode = .arg index name) :
    g.boundFormal n x index = .error e ↔ ∃ i, e = .inconsistent i ∧ g.BindingFails n x i := by
  constructor
  · intro he
    have hfunc := Array.getElem?_eq_getElem (h.func_lt hx)
    cases hf : g.formalAt? x.func index with
    | none =>
      rw [formalAt?_of_func hfunc, List.getElem?_eq_none_iff] at hf
      rw [boundFormal_of_le hfunc hf] at he
      exact ⟨_, (Except.error.inj he).symm, .outOfRange hk hfunc hf⟩
    | some formal =>
      have hne : g.typeOf formal ≠ g.typeOf x.result := by
        intro htype
        rw [boundFormal_eq_ok h hx hf htype] at he
        cases he
      obtain ⟨expected, hexpected⟩ := TypeTable.exists_text_of_contains (ht formal)
      obtain ⟨found, hfound⟩ := TypeTable.exists_text_of_contains (ht x.result)
      rw [h.boundFormal_of_type_ne hx hf hne hexpected hfound] at he
      exact ⟨_, (Except.error.inj he).symm, .type hk hf hne hexpected hfound⟩
  · rintro ⟨i, rfl, hfails⟩
    cases hfails with
    | outOfRange hk' hfunc hle =>
      cases hk.symm.trans hk'
      exact boundFormal_of_le hfunc hle
    | type hk' hf hne hexpected hfound =>
      cases hk.symm.trans hk'
      exact h.boundFormal_of_type_ne hx hf hne hexpected hfound

theorem replacement?_eq_error_iff_bindingFails (h : g.WellFormed) (ht : g.Typed)
    (hx : g.nodes[n.index]? = some x) :
    g.replacement? options n = .error e ↔
      x.dead = false ∧ ∃ i, e = .inconsistent i ∧ g.BindingFails n x i := by
  rw [h.replacement?_eq_error_iff hx]
  refine and_congr_right fun _ => ⟨?_, ?_⟩
  · rintro ⟨index, name, hk, he⟩
    exact (h.boundFormal_eq_error_iff ht hx hk).mp he
  · rintro ⟨i, hi, hfails⟩
    obtain ⟨index, name, hk⟩ : ∃ index name, x.opcode = .arg index name := by
      cases hfails <;> exact ⟨_, _, ‹_›⟩
    exact ⟨index, name, hk, (h.boundFormal_eq_error_iff ht hx hk).mpr ⟨i, hi, hfails⟩⟩

end WellFormed

theorem Typed.unbound_iff (ht : g.Typed) : g.Unbound x ↔ ∃ i, g.BindingFails n x i := by
  constructor
  · rintro (⟨hk, hfunc, hle⟩ | ⟨hk, hf, hne⟩)
    · exact ⟨_, .outOfRange hk hfunc hle⟩
    · obtain ⟨expected, hexpected⟩ := TypeTable.exists_text_of_contains (ht _)
      obtain ⟨found, hfound⟩ := TypeTable.exists_text_of_contains (ht x.result)
      exact ⟨_, .type hk hf hne hexpected hfound⟩
  · rintro ⟨i, hfails⟩
    cases hfails with
    | outOfRange hk hfunc hle => exact .outOfRange hk hfunc hle
    | type hk hf hne _ _ => exact .type hk hf hne

/-- Folding fails at a live node exactly if it is an argument node that cannot be bound. -/
theorem WellFormed.failure?_ne_none_iff (h : g.WellFormed) (ht : g.Typed)
    (hx : g.nodes[n.index]? = some x) :
    g.failure? options n ≠ none ↔ x.dead = false ∧ g.Unbound x := by
  simp only [Option.ne_none_iff_exists', failure?_eq_some_iff,
    h.replacement?_eq_error_iff_bindingFails ht hx, ht.unbound_iff (n := n)]
  constructor
  · rintro ⟨e, hd, i, -, hfails⟩
    exact ⟨hd, i, hfails⟩
  · rintro ⟨hd, i, hfails⟩
    exact ⟨_, hd, i, rfl, hfails⟩

theorem WellFormed.firstFailure?_ne_none_iff (h : g.WellFormed) (ht : g.Typed) :
    g.firstFailure? options ≠ none ↔
      ∃ (n : NodeId) (x : Node), g.nodes[n.index]? = some x ∧ x.dead = false ∧ g.Unbound x := by
  rw [← findSome?_live, Ne, List.findSome?_eq_none_iff]
  constructor
  · intro hsome
    obtain ⟨n, hn⟩ := not_forall.mp hsome
    obtain ⟨hn, hne⟩ := Classical.not_imp.mp hn
    obtain ⟨x, hx⟩ := exists_node_of_mem_live hn
    exact ⟨n, x, hx, (h.failure?_ne_none_iff ht hx).mp hne⟩
  · rintro ⟨n, x, hx, hunbound⟩ hnone
    exact (h.failure?_ne_none_iff ht hx).mpr hunbound (hnone n (mem_live_of_live hx hunbound.1))

/-! ## The nodes before a live node -/

/-- The live nodes that are older than `n`, from the oldest to the newest. -/
def liveBefore (g : Graph) (n : NodeId) : List NodeId := g.live.filter fun m => m.index < n.index

theorem mem_liveBefore : m ∈ g.liveBefore n ↔ m ∈ g.live ∧ m.index < n.index := by
  simp [liveBefore]

theorem exists_node_of_mem_liveBefore (hm : m ∈ g.liveBefore n) :
    ∃ x, g.nodes[m.index]? = some x :=
  exists_node_of_mem_live (mem_liveBefore.mp hm).1

theorem eq_liveBefore_of_live_eq {older newer : List NodeId} (hl : g.live = older ++ n :: newer) :
    older = g.liveBefore n := by
  have hsorted := g.pairwise_live
  rw [hl, List.pairwise_append, List.pairwise_cons] at hsorted
  obtain ⟨-, ⟨hnewer, -⟩, holder⟩ := hsorted
  have hkeep : older.filter (fun m => m.index < n.index) = older :=
    List.filter_eq_self.mpr fun m hm => decide_eq_true (holder m hm n List.mem_cons_self)
  have hdrop : (n :: newer).filter (fun m => m.index < n.index) = [] := by
    rw [List.filter_eq_nil_iff]
    intro m hm
    rcases List.mem_cons.mp hm with rfl | hm
    · simp
    · simpa using Nat.le_of_lt (hnewer m hm)
  rw [liveBefore, hl, List.filter_append, hkeep, hdrop, List.append_nil]

end Graph

namespace Edit

/-! ## Rounds -/

/-- A list of nodes is folded by folding a first part of it and then the rest. -/
theorem run_foldNodes_append (older newer : List NodeId) (report : FoldReport) (g : Graph) :
    (foldNodes options (older ++ newer) report).run g =
      match (foldNodes options older report).run g with
      | .ok after g' => (foldNodes options newer after).run g'
      | .error e g' => .error e g' := by
  induction older generalizing report g with
  | nil => rfl
  | cons n older ih =>
    rw [List.cons_append, foldNodes, foldNodes, EStateM.run_bind, EStateM.run_bind]
    cases (foldNode options n).run g with
    | error e g' => rfl
    | ok opcode? g' =>
      cases opcode? with
      | none => exact ih report g'
      | some opcode => exact ih (report.addFold opcode) g'

/-- Where folding fails at no node, no round fails. -/
theorem exists_run_foldRounds (h : g.WellFormed) (hnone : g.firstFailure? options = none)
    (bound : Nat) (report : FoldReport) :
    ∃ report' g', (foldRounds options bound report).run g = .ok report' g' := by
  induction bound generalizing g report with
  | zero => exact ⟨report, g, rfl⟩
  | succ bound ih =>
    have hround : g.firstFailure? options = _ := h.firstFailure?_eq_of_round report.addRound
    rw [run_foldRounds_succ]
    cases hrun : (foldNodes options g.live report.addRound).run g with
    | error e g' =>
      rw [hnone, hrun] at hround
      cases hround
    | ok after g' =>
      have hfolds := folds_of_run_foldNodes h hrun
      dsimp only
      split
      · exact ⟨after, g', rfl⟩
      · exact ih (hfolds.wellFormed h) ((hfolds.firstFailure?_eq h).trans hnone) after

/-- A pass stops at the first live node at which folding fails, after the older ones were tried. -/
theorem run_foldAll_of_firstFailure? (h : g.WellFormed) (hbound : 0 < options.maxRounds)
    (hfirst : g.firstFailure? options = some e) :
    ∃ n report g', n ∈ g.live ∧ g.replacement? options n = .error e ∧
      (∀ m ∈ g.liveBefore n, g.failure? options m = none) ∧
      (foldNodes options (g.liveBefore n) { rounds := 1 }).run g = .ok report g' ∧
      (foldAll options).run g = .error e g' := by
  rw [← findSome?_live, List.findSome?_eq_some_iff] at hfirst
  obtain ⟨older, n, newer, hl, he, hnone⟩ := hfirst
  obtain rfl := eq_liveBefore_of_live_eq hl
  have hn : n ∈ g.live := hl ▸ List.mem_append_right _ List.mem_cons_self
  obtain ⟨x, hx⟩ := exists_node_of_mem_live hn
  have hrest : (g.liveBefore n).findSome? (g.failure? options) = _ :=
    findSome?_failure?_eq h (fun _ => exists_node_of_mem_liveBefore) { rounds := 1 }
  rw [List.findSome?_eq_none_iff.mpr hnone] at hrest
  cases hrun : (foldNodes options (g.liveBefore n) { rounds := 1 }).run g with
  | error e' g' =>
    rw [hrun] at hrest
    cases hrest
  | ok report g' =>
    -- The folds of the older nodes leave what folding `n` fails with as it is.
    have hfolds := folds_of_run_foldNodes h hrun
    have hfail : g'.replacement? options n = .error e :=
      failure?_eq_some_iff.mp ((hfolds.failure?_eq h hx).trans he)
    have hround : (foldNodes options g.live { rounds := 1 }).run g = .error e g' := by
      rw [hl, run_foldNodes_append, hrun]
      exact run_bind_of_error (run_foldNode_error hfail)
    exact ⟨n, report, g', hn, failure?_eq_some_iff.mp he, hnone, hrun,
      OrderedReachable.run_foldAll_of_round_error hround rfl hbound⟩

/-- A pass fails with what folding fails with at the oldest node at which it fails. -/
theorem run_foldAll_eq_error_iff (h : g.WellFormed) (hbound : 0 < options.maxRounds) :
    (∃ g', (foldAll options).run g = .error e g') ↔ g.firstFailure? options = some e := by
  constructor
  · rintro ⟨g', hrun⟩
    cases hfirst : g.firstFailure? options with
    | none =>
      obtain ⟨report, k, hok⟩ := exists_run_foldRounds h hfirst options.maxRounds {}
      cases hrun.symm.trans hok
    | some e' =>
      obtain ⟨n, report, k, -, -, -, -, herror⟩ := run_foldAll_of_firstFailure? h hbound hfirst
      rw [(EStateM.Result.error.inj (hrun.symm.trans herror)).1]
  · intro hfirst
    obtain ⟨n, report, k, -, -, -, -, herror⟩ := run_foldAll_of_firstFailure? h hbound hfirst
    exact ⟨k, herror⟩

/-- A round of the live nodes before `n` leaves `n` and all newer live nodes live, and no live
argument node before them. -/
theorem live_of_run_liveBefore (h : g.WellFormed)
    (hrun : (foldNodes options (g.liveBefore n) report).run g = .ok report' g') :
    (∀ m ∈ g.live, n.index ≤ m.index → m ∈ g'.live) ∧
    ∀ (m : NodeId) (y : Node) (index : Nat) (name : String), m.index < n.index →
      g'.nodes[m.index]? = some y → y.opcode = .arg index name → y.dead = true := by
  have hfolds := folds_of_run_foldNodes h hrun
  constructor
  · intro m hm hle
    refine (hfolds.mem_live_iff h).mpr ⟨hm, fun hfolded => ?_⟩
    obtain ⟨p, hp, rfl⟩ := List.mem_map.mp hfolded
    exact Nat.not_lt.mpr hle (mem_liveBefore.mp (mem_of_mem_foldTrace hp)).2
  · intro m y index name hlt hy hk
    by_contra hlive
    have hd : y.dead = false := by simpa using hlive
    have hm := ((hfolds.mem_live_iff h).mp (mem_live_of_live hy hd)).1
    have hinert := inertAt_of_run_foldNodes h (fun _ => exists_node_of_mem_liveBefore) hrun m
      (mem_liveBefore.mpr ⟨hm, hlt⟩) y (liveNode?_of_live hy hd)
    exact hinert.notArg index name hk

end Edit

namespace Graph

open Edit

/-- `n` is the oldest live argument node that cannot be bound. -/
structure OldestUnbound (g : Graph) (n : NodeId) (x : Node) : Prop where
  node_eq : g.nodes[n.index]? = some x
  live : x.dead = false
  unbound : g.Unbound x
  oldest : ∀ (m : NodeId) (y : Node), g.nodes[m.index]? = some y → y.dead = false →
    g.Unbound y → n.index ≤ m.index

/-- A pass of at least one round fails exactly if some live argument node cannot be bound. It fails
with what folding fails with at the oldest of them in the graph it is given. That node and all newer
ones that were live stay live, all older argument nodes are dead, and the graph is the one that
trying the older live nodes once leads to. -/
theorem Reachable.foldAll_fails_iff (h : g.Reachable) (hbound : 0 < options.maxRounds) :
    ((∃ e g', (foldAll options).run g = .error e g') ↔
      ∃ (n : NodeId) (x : Node), g.nodes[n.index]? = some x ∧ x.dead = false ∧ g.Unbound x) ∧
    ∀ e g', (foldAll options).run g = .error e g' →
      ∃ (n : NodeId) (x : Node), g.OldestUnbound n x ∧
        (g.replacement? options n = .error e ∧ ∃ i, e = .inconsistent i ∧ g.BindingFails n x i) ∧
        (∀ m ∈ g.live, n.index ≤ m.index → m ∈ g'.live) ∧
        (∀ (m : NodeId) (y : Node) (index : Nat) (name : String), m.index < n.index →
          g'.nodes[m.index]? = some y → y.opcode = .arg index name → y.dead = true) ∧
        ∃ report, (foldNodes options (g.liveBefore n) { rounds := 1 }).run g = .ok report g' := by
  have hwf := h.wellFormed
  have ht := h.typed
  constructor
  · simp only [run_foldAll_eq_error_iff hwf hbound, ← Option.ne_none_iff_exists',
      hwf.firstFailure?_ne_none_iff ht]
  · intro e g' hrun
    have hfirst := (run_foldAll_eq_error_iff hwf hbound).mp ⟨g', hrun⟩
    obtain ⟨n, report, k, hn, he, hnone, hround, herror⟩ :=
      run_foldAll_of_firstFailure? hwf hbound hfirst
    cases hrun.symm.trans herror
    obtain ⟨x, hx⟩ := exists_node_of_mem_live hn
    obtain ⟨hd, i, hi, hfails⟩ := (hwf.replacement?_eq_error_iff_bindingFails ht hx).mp he
    obtain ⟨hnewer, harg⟩ := live_of_run_liveBefore hwf hround
    refine ⟨n, x, ⟨hx, hd, ht.unbound_iff.mpr ⟨i, hfails⟩, fun m y hy hyd hunbound => ?_⟩,
      ⟨he, i, hi, hfails⟩, hnewer, harg, report, hround⟩
    by_contra hlt
    have hm := mem_liveBefore.mpr ⟨mem_live_of_live hy hyd, Nat.lt_of_not_le hlt⟩
    exact (hwf.failure?_ne_none_iff ht hy).mpr ⟨hyd, hunbound⟩ (hnone m hm)

/-- Of two argument nodes that cannot be bound the older one stops the pass. The argument node
before them is dead by then; the cast after them, which would fold, is live. -/
theorem foldAll_fails_at_older_of_two :
    let g := (ofTable { names := ["int"] }).after
      [.addFunc "f" [⟨1⟩], .build ⟨0⟩ {} (.iter ⟨0⟩), .replace ⟨0⟩ ⟨1⟩,
        .build ⟨0⟩ {} (.node { opcode := .arg 0 "x", operands := [], type := ⟨1⟩ }),
        .build ⟨0⟩ {} (.arg 1 "y"), .build ⟨0⟩ {} (.arg 0 "z"), .build ⟨0⟩ {} (.cast ⟨2⟩ ⟨1⟩)]
    let g' := (foldAll {}).after g
    (foldAll {}).run g = .error (.inconsistent (.argumentOutOfRange ⟨2⟩ 1 1)) g' ∧
      (∀ (y : Node) (index : Nat) (name : String), g'.nodes[1]? = some y →
        y.opcode = .arg index name → y.dead = true) ∧
      ⟨4⟩ ∈ g'.live ∧
      ∃ report, (foldNodes {} (g.liveBefore ⟨2⟩) { rounds := 1 }).run g = .ok report g' := by
  intro g g'
  have h : g.Reachable := ⟨_, _, rfl⟩
  have hrun : (foldAll {}).run g = .error (.inconsistent (.argumentOutOfRange ⟨2⟩ 1 1)) g' := by
    unfold g' g
    rfl
  have hnew : (⟨4⟩ : NodeId) ∈ g.live := by
    unfold g
    decide
  clear_value g'
  clear_value g
  have hbound : 0 < ({} : FoldOptions).maxRounds := by decide
  obtain ⟨-, hfails⟩ := h.foldAll_fails_iff hbound
  obtain ⟨n, x, -, ⟨-, i, hi, hbinding⟩, hnewer, holder, hround⟩ := hfails _ _ hrun
  -- The error names the node.
  obtain rfl := Error.inconsistent.inj hi
  obtain rfl : n = ⟨2⟩ := by
    generalize hlength : (1 : Nat) = length at hbinding
    cases hbinding
    rfl
  exact ⟨hrun, fun y index name => holder ⟨1⟩ y index name (by decide),
    hnewer ⟨4⟩ hnew (by decide), hround⟩

end Graph

end DeferredIR
