import DeferredIR.Proofs.Fold.OneRound

/-!
# What a pass leaves behind

A round tries its nodes once, in a list made before it began, while its folds change what the nodes
read. In a graph with circles this can make a node fold that was tried before. But it makes no
argument node and no cast fold: whether those fold depends on types only, and a fold puts a value in
the place of another of the same type. So no pass that succeeds leaves one of them behind that
folds, and a pass whose last round was idle leaves no projection from a tuple behind either.
-/

namespace DeferredIR

open DeferredIR.Graph

variable {g g' start : Graph} {options : FoldOptions} {n m : NodeId} {x y : Node} {v : ValueId}
variable {nodes : List NodeId} {report report' before : FoldReport} {bound : Nat}
variable {trace : List (NodeId × ValueId)}

namespace Graph

/-! ## Nodes that no fold makes fold -/

/-- The node is no argument node, and no cast to the known type of its operand. -/
structure Inert (g : Graph) (x : Node) : Prop where
  notArg : ∀ index name, x.opcode ≠ .arg index name
  notCast : x.opcode = .cast → ∀ v, x.operands[0]? = some v → ¬ g.SameKnownType v x.result

theorem WellFormed.inert_of_replacement? (h : g.WellFormed) (hx : g.nodes[n.index]? = some x)
    (hd : x.dead = false) (hr : g.replacement? options n = .ok none) : g.Inert x where
  notArg index name hk := by
    rw [replacement?_of_live hx hd, hk] at hr
    cases hb : g.boundFormal n x index <;> simp [hb, Functor.map, Except.map] at hr
  notCast hk v hv hs := by
    have hsome : g.replacement? options n = .ok (some v) :=
      (h.replacement?_eq_some_iff hx).mpr ⟨hd, .cast hk hv hs⟩
    cases hr.symm.trans hsome

/-- A fold changes no types, also not those of what a slot reads. -/
theorem Restates.inert_fold (hr : g.Restates options y v) (hi : g.Inert x) :
    (g.fold m y.result v).Inert (x.mapOperands (y.result.subst v)) where
  notArg := hi.notArg
  notCast hk w hw hs := by
    have hslot : (x.operands.map (y.result.subst v))[0]? = some w := hw
    rw [List.getElem?_map, Option.map_eq_some_iff] at hslot
    obtain ⟨u, hu, rfl⟩ := hslot
    rw [SameKnownType, typeOf_fold, typeOf_fold, hr.typeOf_subst] at hs
    exact hi.notCast hk u hu hs

/-- While it is live, `n` is inert. -/
def InertAt (g : Graph) (n : NodeId) : Prop := ∀ x, g.liveNode? n = some x → g.Inert x

theorem InertAt.fold (hi : g.InertAt n) (h : g.WellFormed) (hr : g.Restates options y v)
    (m : NodeId) : (g.fold m y.result v).InertAt n := by
  intro x hx
  rw [h.liveNode?_fold] at hx
  split at hx
  · cases hx
  · obtain ⟨z, hz, rfl⟩ := Option.map_eq_some_iff.mp hx
    exact hr.inert_fold (hi z hz)

theorem InertAt.folds (hi : g.InertAt n) (h : g.WellFormed) (hf : Folds options g trace g') :
    g'.InertAt n :=
  (hf.preserves (P := fun g => g.InertAt n) (fun hwf hi _ _ hs => hi.fold hwf hs _) h hi).2

end Graph

namespace Edit

/-! ## After a round -/

/-- Each node that a round tried is inert or dead after it. -/
theorem inertAt_of_run_foldNodes (h : g.WellFormed)
    (hnodes : ∀ n ∈ nodes, ∃ x, g.nodes[n.index]? = some x)
    (hrun : (foldNodes options nodes report).run g = .ok report' g') :
    ∀ n ∈ nodes, g'.InertAt n := by
  induction nodes generalizing g report with
  | nil => simp
  | cons n nodes ih =>
    obtain ⟨⟨x, hx⟩, hrest⟩ := List.forall_mem_cons.mp hnodes
    rw [List.forall_mem_cons]
    rcases of_run_foldNodes_cons h hx hrun with ⟨hr, hrun⟩ | ⟨v, -, hs, hrun⟩
    · -- What did not fold when it was tried stays inert under the folds that follow.
      have hn : g.InertAt n := by
        intro y hy
        obtain ⟨hy, hd⟩ := liveNode?_eq_some.mp hy
        exact h.inert_of_replacement? hy hd hr
      exact ⟨hn.folds h (folds_of_run_foldNodes h hrun), ih h hrest hrun⟩
    · have hwf := h.fold hx hs
      have hn : (g.fold n x.result v).InertAt n := by
        intro y hy
        rw [h.liveNode?_fold, if_pos rfl] at hy
        cases hy
      exact ⟨hn.folds hwf (folds_of_run_foldNodes hwf hrun),
        ih hwf (fun m hm => exists_node_fold (hrest m hm) ..) hrun⟩

/-- A round over all live nodes leaves only inert ones live. -/
theorem inert_of_run_foldNodes (h : g.WellFormed)
    (hrun : (foldNodes options g.live report).run g = .ok report' g')
    (hx : g'.nodes[n.index]? = some x) (hd : x.dead = false) : g'.Inert x := by
  have hfolds := folds_of_run_foldNodes h hrun
  have hn : n ∈ g.live := ((hfolds.mem_live_iff h).mp (mem_live_of_live hx hd)).1
  exact inertAt_of_run_foldNodes h (fun _ => exists_node_of_mem_live) hrun n hn x
    (liveNode?_of_live hx hd)

/-! ## The last round of a pass -/

/-- The last round of a pass over `g` began with the report `before` and the graph `start`, and it
ended with the report and the graph of the pass. -/
structure LastRound (options : FoldOptions) (g : Graph) (report : FoldReport) (g' : Graph)
    (before : FoldReport) (start : Graph) : Prop where
  earlier : (foldRounds options before.rounds {}).run g = .ok before start
  round : (foldNodes options start.live before.addRound).run start = .ok report g'
  rounds : report.rounds = before.rounds + 1

/-- A pass of at least one round has a last one: the rounds before it all folded something, and it
folded nothing itself unless the bound ended the pass. -/
theorem exists_last_of_run_foldRounds (h : g.WellFormed)
    (hrun : (foldRounds options (bound + 1) report).run g = .ok report' g') :
    ∃ k before start, (foldRounds options k report).run g = .ok before start ∧
      before.rounds = report.rounds + k ∧ start.WellFormed ∧
      (foldNodes options start.live before.addRound).run start = .ok report' g' ∧
      report.folded + k ≤ before.folded ∧ k ≤ bound ∧
      (k = bound ∨ report'.folded = before.folded) := by
  induction bound generalizing g report with
  | zero =>
    refine ⟨0, report, g, rfl, rfl, h, ?_, le_rfl, le_rfl, .inl rfl⟩
    obtain ⟨after, k, hround, ⟨-, rfl, rfl⟩ | ⟨-, hrest⟩⟩ := of_run_foldRounds_succ hrun
    · exact hround
    · cases hrest
      exact hround
  | succ bound ih =>
    obtain ⟨after, k, hround, ⟨hidle, rfl, rfl⟩ | ⟨hbusy, hrest⟩⟩ := of_run_foldRounds_succ hrun
    · exact ⟨0, report, g, rfl, rfl, h, hround, le_rfl, Nat.zero_le _, .inr hidle⟩
    · obtain ⟨hrounds, ⟨hsame, -, -⟩ | hlt⟩ := idle_or_lt_of_round h hround
      · exact absurd (congrArg FoldReport.folded hsame) hbusy
      · have hfolds := folds_of_run_foldNodes h hround
        obtain ⟨j, before, start, hbefore, hcount, hwf, hlast, hfolded, hle, hend⟩ :=
          ih (hfolds.wellFormed h) hrest
        refine ⟨j + 1, before, start, ?_, by omega, hwf, hlast, by omega, by omega, ?_⟩
        · rw [run_foldRounds_succ, hround]
          exact (if_neg hbusy).trans hbefore
        · exact hend.imp_left (congrArg Nat.succ)

/-- The last round, with the bounds on the number of the rounds. -/
theorem exists_lastRound_le (h : g.WellFormed) (hbound : 0 < options.maxRounds)
    (hrun : (foldAll options).run g = .ok report g') :
    ∃ before start, start.WellFormed ∧ LastRound options g report g' before start ∧
      before.rounds ≤ before.folded ∧ report.rounds ≤ options.maxRounds ∧
      (report.rounds = options.maxRounds ∨ report.folded = before.folded) := by
  obtain ⟨bound, hmax⟩ := Nat.exists_eq_succ_of_ne_zero (Nat.ne_of_gt hbound)
  rw [foldAll, hmax] at hrun
  obtain ⟨k, before, start, hearlier, hcount, hwf, hround, hfolded, hle, hend⟩ :=
    exists_last_of_run_foldRounds h hrun
  obtain ⟨hrounds, -⟩ := idle_or_lt_of_round hwf hround
  obtain rfl : before.rounds = k := hcount.trans (Nat.zero_add k)
  refine ⟨before, start, hwf, ⟨hearlier, hround, hrounds⟩, ?_, by omega, hend.imp_left ?_⟩
  · exact (Nat.zero_add before.rounds).symm.trans_le hfolded
  · intro hlast
    omega

theorem exists_lastRound (h : g.WellFormed) (hbound : 0 < options.maxRounds)
    (hrun : (foldAll options).run g = .ok report g') :
    ∃ before start, start.WellFormed ∧ LastRound options g report g' before start := by
  obtain ⟨before, start, hwf, hlast, -⟩ := exists_lastRound_le h hbound hrun
  exact ⟨before, start, hwf, hlast⟩

/-- Where the last round folded nothing, nothing folds. -/
theorem LastRound.settled (hl : LastRound options g report g' before start)
    (hwf : start.WellFormed) (hidle : report.folded = before.folded) : g'.Settled options := by
  obtain ⟨-, ⟨-, rfl, hnone⟩ | hlt⟩ := idle_or_lt_of_round hwf hl.round
  · exact .of_live hnone
  · exact absurd hidle (Nat.ne_of_gt hlt)

end Edit

namespace Graph

open Edit

/-- A projection of a settled graph does not take an item that has its own known type. -/
theorem Settled.not_sameKnownType {t : Node} {c : ValueId} {index : Nat}
    (hs : g.Settled options) (h : g.WellFormed) (hstructural : options.structural = true)
    (hx : g.nodes[n.index]? = some x) (hd : x.dead = false)
    (hk : x.opcode.Projects index t.operands.length) (hc : x.operands[0]? = some c)
    (ht : g.IsTuple c t) (hv : t.operands[index]? = some v) : ¬ g.SameKnownType v x.result := by
  intro htype
  have hsome := (h.replacement?_eq_some_iff hx).mpr
    ⟨hd, .projection hstructural hk hc ht hv htype⟩
  cases (hs n x hx).symm.trans hsome

/-- A pass of at least one round that succeeds leaves no live argument node, and no live cast to the
known type of its operand. It has a last round, and if that folded nothing and projections fold, no
live node projects an item of its own known type from a live tuple. -/
theorem Reachable.remains_of_foldAll (h : g.Reachable) (hbound : 0 < options.maxRounds)
    (hrun : (foldAll options).run g = .ok report g') :
    (∀ (n : NodeId) (x : Node), g'.nodes[n.index]? = some x → x.dead = false →
      (∀ index name, x.opcode ≠ .arg index name) ∧
      (x.opcode = .cast → ∃ v, x.operands = [v] ∧
        ¬ (g'.typeOf v = g'.typeOf x.result ∧ g'.typeOf v ≠ .undefined))) ∧
    ∃ before start, LastRound options g report g' before start ∧
      (report.folded = before.folded → options.structural = true →
        ∀ (n : NodeId) (x t : Node) (index : Nat) (c v : ValueId),
          g'.nodes[n.index]? = some x → x.dead = false →
          x.opcode.Projects index t.operands.length → x.operands[0]? = some c →
          g'.IsTuple c t → t.operands[index]? = some v →
          ¬ (g'.typeOf v = g'.typeOf x.result ∧ g'.typeOf v ≠ .undefined)) := by
  obtain ⟨before, start, hwf, hlast⟩ := exists_lastRound h.wellFormed hbound hrun
  have hfolds : Folds options start _ _ := folds_foldNodes hwf start.live before.addRound
  rw [after_of_ok hlast.round] at hfolds
  have hwf' := hfolds.wellFormed hwf
  refine ⟨fun n x hx hd => ?_, before, start, hlast, ?_⟩
  · have hinert := inert_of_run_foldNodes hwf hlast.round hx hd
    refine ⟨hinert.notArg, fun hk => ?_⟩
    have hlength := hwf'.accepts hx
    rw [hk, Opcode.arity, Arity.accepts_exactly] at hlength
    obtain ⟨v, hv⟩ := List.length_eq_one_iff.mp hlength
    exact ⟨v, hv, hinert.notCast hk v (by rw [hv]; rfl)⟩
  · intro hidle hstructural n x t index c v hx hd hk hc ht hv
    exact (hlast.settled hwf hidle).not_sameKnownType hwf' hstructural hx hd hk hc ht hv

/-- A cast that reads its own result, an argument and an item fold, and the second round is idle. An
item of the tuple that was given no type stays. -/
theorem remains_of_foldAll_of_self_reader :
    let g := (ofTable { names := ["int"] }).after
      [.addFunc "f" [⟨1⟩], .build ⟨0⟩ {} (.cast ⟨0⟩ ⟨1⟩), .replace ⟨0⟩ ⟨1⟩,
        .build ⟨0⟩ {} (.tuple [⟨0⟩, ⟨0⟩]), .build ⟨0⟩ {} (.item ⟨2⟩ ⟨0⟩ 0),
        .build ⟨0⟩ {} (.node { opcode := .item 1, operands := [⟨2⟩, ⟨1⟩], type := ⟨1⟩ }),
        .build ⟨0⟩ {} (.node { opcode := .arg 0 "x", operands := [], type := ⟨1⟩ }),
        .build ⟨0⟩ {} (.binop ⟨4⟩ ⟨5⟩ "+")]
    let options : FoldOptions := { structural := true }
    let g' := (foldAll options).after g
    (foldAll options).run g =
      .ok ⟨2, 3, [("cast", 1), ("static_getitem", 1), ("arg", 1)]⟩ g' ∧
    (∀ (n : NodeId) (x : Node), g'.nodes[n.index]? = some x → x.dead = false →
      ∀ index name, x.opcode ≠ .arg index name) ∧
    ¬ (g'.typeOf ⟨0⟩ = g'.typeOf ⟨3⟩ ∧ g'.typeOf ⟨0⟩ ≠ .undefined) := by
  intro g options g'
  have h : g.Reachable := ⟨_, _, rfl⟩
  have hrun : (foldAll options).run g =
      .ok ⟨2, 3, [("cast", 1), ("static_getitem", 1), ("arg", 1)]⟩ g' :=
    run_of_run' (by decide +kernel)
  have hfirst : (foldRounds options 1 {}).run g =
      .ok ⟨1, 3, [("cast", 1), ("static_getitem", 1), ("arg", 1)]⟩ _ :=
    run_of_run' (by decide +kernel)
  have hitem : g'.nodes[2]? = some ⟨.item 0, [⟨2⟩, ⟨0⟩], ⟨3⟩, ⟨0⟩, false⟩ := by
    unfold g' options g
    rfl
  have htuple : g'.IsTuple ⟨2⟩ ⟨.tuple, [⟨0⟩, ⟨0⟩], ⟨2⟩, ⟨0⟩, false⟩ := by
    unfold g' options g
    exact ⟨⟨1⟩, rfl, rfl, rfl, rfl⟩
  -- From here on it does not matter how the graphs were made.
  clear_value g'
  clear_value g
  obtain ⟨hlive, before, start, hlast, hitems⟩ := h.remains_of_foldAll (by decide) hrun
  have hrounds : before.rounds = 1 := (Nat.succ.inj hlast.rounds).symm
  have hbefore := hfirst.symm.trans (hrounds ▸ hlast.earlier)
  obtain rfl := (EStateM.Result.ok.inj hbefore).1
  exact ⟨hrun, fun n x hx hd => (hlive n x hx hd).1,
    hitems rfl rfl ⟨2⟩ _ _ 0 ⟨2⟩ ⟨0⟩ hitem rfl (.item 0 _) rfl htuple rfl⟩

end Graph

end DeferredIR
