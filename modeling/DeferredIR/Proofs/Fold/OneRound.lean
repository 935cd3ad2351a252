import DeferredIR.Proofs.Arenas
import DeferredIR.Proofs.Fold.Commute

/-!
# One round is enough

Nodes are made in the order of their results, and in an ordered graph a node reads older values
only. So no fold of a newer node changes what decides whether an older one folds, and a round, which
tries the nodes from the oldest to the newest, leaves none behind that folds. Whatever its bound, a
pass over an ordered graph is one round, which a second round can only confirm.
-/

namespace DeferredIR

open DeferredIR.Graph

variable {g g' : Graph} {options options' : FoldOptions} {n m : NodeId} {x y : Node} {v : ValueId}
variable {nodes : List NodeId} {report report' : FoldReport} {trace : List (NodeId × ValueId)}
variable {e : Error} {bound : Nat}

namespace Graph

/-! ## Folds of newer nodes -/

/-- A fold leaves each node that is older than the folded one as it is. -/
theorem WellFormed.nodes_fold_of_newer (h : g.WellFormed) (ho : g.Ordered)
    (hx : g.nodes[n.index]? = some x) (hy : g.nodes[m.index]? = some y)
    (hlt : x.result.index < y.result.index) (v : ValueId) :
    (g.fold m y.result v).nodes[n.index]? = some x := by
  have hnm : n ≠ m := by
    rintro rfl
    obtain rfl := Option.some.inj (hx.symm.trans hy)
    exact Nat.lt_irrefl _ hlt
  have hsubst : x.operands.map (fun w => if w = y.result then v else w) = x.operands := by
    refine (List.map_congr_left fun w hw => if_neg ?_).trans (List.map_id' _)
    rintro rfl
    exact Nat.lt_asymm hlt (ho n x hx _ hw)
  unfold Graph.fold
  rw [getElem?_nodes_retire]
  simp only [if_neg hnm, Option.map_id_fun', id]
  split
  · exact hx
  · simp [h.nodes_redirect, hx, hsubst]

/-- A fold leaves each older node as able or unable to fold as it was. -/
theorem WellFormed.replacement?_fold_of_newer (h : g.WellFormed) (ho : g.Ordered)
    (hx : g.nodes[n.index]? = some x) (hy : g.nodes[m.index]? = some y)
    (hr : g.Restates options y v) (hlt : x.result.index < y.result.index) :
    (g.fold m y.result v).replacement? options n = g.replacement? options n := by
  refine h.replacement?_eq (h.fold hy hr) (sameShape_fold ..) hx
    (h.nodes_fold_of_newer ho hx hy hlt v) ?_
  intro c t hc
  have hclt : c.index < y.result.index := Nat.lt_trans (ho n x hx c hc) hlt
  constructor
  · rintro ⟨k, horigin, hk, hd, hop⟩
    obtain ⟨z, hz, hresult⟩ := h.exists_node horigin
    obtain rfl := Option.some.inj (hk.symm.trans hz)
    refine ⟨k, ((sameFrame_fold ..).origin c).trans horigin, ?_, hd, hop⟩
    exact h.nodes_fold_of_newer ho hk hy (hresult ▸ hclt) v
  · rintro ⟨k, horigin, hk, hd, hop⟩
    rw [(sameFrame_fold ..).origin] at horigin
    obtain ⟨z, hz, hresult⟩ := h.exists_node horigin
    rw [h.nodes_fold_of_newer ho hz hy (hresult ▸ hclt) v] at hk
    obtain rfl := Option.some.inj hk
    exact ⟨k, horigin, hz, hd, hop⟩

theorem Folds.replacement?_eq_of_newer (hf : Folds options g trace g') (h : g.WellFormed)
    (ho : g.Ordered) (hc : g.CreatedInOrder) (hx : g.nodes[n.index]? = some x)
    (hnewer : ∀ p ∈ trace, n.index < p.1.index) :
    g'.replacement? options n = g.replacement? options n := by
  induction hf with
  | nil => rfl
  | @cons g g' m y v trace hm hr _ ih =>
    obtain ⟨-, hs⟩ := restates_of_node_eq hm hr
    have hlt : x.result.index < y.result.index :=
      hc n m _ _ (by simp [resultOf?, hx]) (by simp [resultOf?, hm])
        (hnewer _ List.mem_cons_self)
    have hx' := h.nodes_fold_of_newer ho hx hm hlt v
    rw [ih (h.fold hm hs) (ho.fold h hm hs) (hc.of_sameFrame (sameFrame_fold ..)) hx'
      fun p hp => hnewer p (List.mem_cons_of_mem _ hp)]
    exact h.replacement?_fold_of_newer ho hx hm hs hlt

/-- A node that folded does not fold again. -/
theorem WellFormed.replacement?_fold_self (h : g.WellFormed) (hx : g.nodes[n.index]? = some x)
    (v : ValueId) : (g.fold n x.result v).replacement? options n = .ok none := by
  obtain ⟨y, hy⟩ := exists_node_fold ⟨x, hx⟩ n x.result v
  have hlive := h.liveNode?_fold n x.result v n
  rw [if_pos rfl] at hlive
  refine replacement?_of_dead hy ?_
  by_contra hd
  rw [liveNode?_of_live hy (by simpa using hd)] at hlive
  cases hlive

/-! ## Settled graphs -/

/-- No node folds, and none makes folding fail. -/
def Settled (options : FoldOptions) (g : Graph) : Prop :=
  ∀ (n : NodeId) (x : Node), g.nodes[n.index]? = some x → g.replacement? options n = .ok none

theorem Settled.of_live (hs : ∀ n ∈ g.live, g.replacement? options n = .ok none) :
    g.Settled options := by
  intro n x hx
  cases hd : x.dead with
  | true => exact replacement?_of_dead hx hd
  | false => exact hs n (mem_live_of_live hx hd)

theorem Settled.congr (hg : g.Settled options) (hs : options'.structural = options.structural) :
    g.Settled options' := by
  intro n x hx
  rw [replacement?_congr hs]
  exact hg n x hx

/-! ## A round -/

theorem mem_of_mem_foldTrace {p : NodeId × ValueId} (hp : p ∈ foldTrace options nodes g) :
    p.1 ∈ nodes := by
  induction nodes generalizing g with
  | nil => exact absurd hp List.not_mem_nil
  | cons n nodes ih =>
    unfold foldTrace at hp
    split at hp
    · rcases List.mem_cons.mp hp with rfl | hp
      · exact List.mem_cons_self
      · exact List.mem_cons_of_mem n (ih hp)
    · exact List.mem_cons_of_mem n (ih hp)
    · exact absurd hp List.not_mem_nil

end Graph

namespace Edit

/-- What a round does at its first node. -/
theorem run_foldNodes_cons (h : g.WellFormed) (hx : g.nodes[n.index]? = some x)
    (nodes : List NodeId) (report : FoldReport) :
    (foldNodes options (n :: nodes) report).run g =
      match g.replacement? options n with
      | .error e => .error e g
      | .ok none => (foldNodes options nodes report).run g
      | .ok (some v) =>
        (foldNodes options nodes (report.addFold x.opcode)).run (g.fold n x.result v) := by
  rw [foldNodes]
  cases hr : g.replacement? options n with
  | error e => exact run_bind_of_error (run_foldNode_error hr)
  | ok v? =>
    cases v? with
    | none => exact run_bind_of_ok (run_foldNode_none hr)
    | some v => exact run_bind_of_ok (run_foldNode_some h hx hr)

/-- A round that succeeds passes its first node over or folds it. -/
theorem of_run_foldNodes_cons (h : g.WellFormed) (hx : g.nodes[n.index]? = some x)
    (hrun : (foldNodes options (n :: nodes) report).run g = .ok report' g') :
    g.replacement? options n = .ok none ∧
        (foldNodes options nodes report).run g = .ok report' g' ∨
      ∃ v, g.replacement? options n = .ok (some v) ∧ g.Restates options x v ∧
        (foldNodes options nodes (report.addFold x.opcode)).run (g.fold n x.result v) =
          .ok report' g' := by
  rw [run_foldNodes_cons h hx] at hrun
  cases hr : g.replacement? options n with
  | error e => simp [hr] at hrun
  | ok v? =>
    rw [hr] at hrun
    cases v? with
    | none => exact .inl ⟨rfl, hrun⟩
    | some v => exact .inr ⟨v, rfl, (restates_of_node_eq hx hr).2, hrun⟩

/-- A round that succeeds counts its folds, if it makes any, and otherwise changes nothing. -/
theorem idle_or_lt_of_run_foldNodes (h : g.WellFormed)
    (hnodes : ∀ n ∈ nodes, ∃ x, g.nodes[n.index]? = some x)
    (hrun : (foldNodes options nodes report).run g = .ok report' g') :
    report'.rounds = report.rounds ∧
      (report' = report ∧ g' = g ∧ (∀ n ∈ nodes, g.replacement? options n = .ok none) ∨
        report.folded < report'.folded) := by
  induction nodes generalizing g report with
  | nil =>
    cases hrun
    exact ⟨rfl, .inl ⟨rfl, rfl, by simp⟩⟩
  | cons n nodes ih =>
    obtain ⟨⟨x, hx⟩, hrest⟩ := List.forall_mem_cons.mp hnodes
    rcases of_run_foldNodes_cons h hx hrun with ⟨hr, hrun⟩ | ⟨v, hr, hs, hrun⟩
    · obtain ⟨hrounds, ⟨rfl, rfl, hnone⟩ | hlt⟩ := ih h hrest hrun
      · exact ⟨rfl, .inl ⟨rfl, rfl, List.forall_mem_cons.mpr ⟨hr, hnone⟩⟩⟩
      · exact ⟨hrounds, .inr hlt⟩
    · have hrest' : ∀ m ∈ nodes, ∃ y, (g.fold n x.result v).nodes[m.index]? = some y :=
        fun m hm => exists_node_fold (hrest m hm) n x.result v
      obtain ⟨hrounds, ⟨rfl, -, -⟩ | hlt⟩ := ih (h.fold hx hs) hrest' hrun
      · exact ⟨hrounds, .inr (Nat.lt_succ_self _)⟩
      · exact ⟨hrounds, .inr (Nat.lt_of_succ_lt hlt)⟩

/-- A round of a pass folds something, or it only counts itself. -/
theorem idle_or_lt_of_round (h : g.WellFormed)
    (hround : (foldNodes options g.live report.addRound).run g = .ok report' g') :
    report'.rounds = report.rounds + 1 ∧
      (report' = report.addRound ∧ g' = g ∧ (∀ n ∈ g.live, g.replacement? options n = .ok none) ∨
        report.folded < report'.folded) :=
  idle_or_lt_of_run_foldNodes h (fun _ => exists_node_of_mem_live) hround

/-- A round over nodes that do not fold does nothing. -/
theorem run_foldNodes_of_forall_none
    (hnone : ∀ n ∈ nodes, g.replacement? options n = .ok none) :
    (foldNodes options nodes report).run g = .ok report g := by
  induction nodes with
  | nil => rfl
  | cons n nodes ih =>
    obtain ⟨hn, hrest⟩ := List.forall_mem_cons.mp hnone
    rw [foldNodes, run_bind_of_ok (run_foldNode_none hn)]
    exact ih hrest

/-- A round of newer nodes leaves a node as able or unable to fold as it was. -/
theorem replacement?_eq_of_run_foldNodes (h : g.WellFormed) (ho : g.Ordered)
    (hc : g.CreatedInOrder) (hx : g.nodes[n.index]? = some x)
    (hnewer : ∀ m ∈ nodes, n.index < m.index)
    (hrun : (foldNodes options nodes report).run g = .ok report' g') :
    g'.replacement? options n = g.replacement? options n := by
  have hfolds := folds_of_run_foldNodes h hrun
  exact hfolds.replacement?_eq_of_newer h ho hc hx fun p hp =>
    hnewer p.1 (mem_of_mem_foldTrace hp)

/-- Of the nodes that a round tried, none folds after it. -/
theorem replacement?_of_run_foldNodes (h : g.WellFormed) (ho : g.Ordered) (hc : g.CreatedInOrder)
    (hsorted : nodes.Pairwise fun m n => m.index < n.index)
    (hnodes : ∀ n ∈ nodes, ∃ x, g.nodes[n.index]? = some x)
    (hrun : (foldNodes options nodes report).run g = .ok report' g') :
    ∀ n ∈ nodes, g'.replacement? options n = .ok none := by
  induction nodes generalizing g report with
  | nil => simp
  | cons n nodes ih =>
    obtain ⟨⟨x, hx⟩, hrest⟩ := List.forall_mem_cons.mp hnodes
    obtain ⟨hnewer, hsorted⟩ := List.pairwise_cons.mp hsorted
    rw [List.forall_mem_cons]
    rcases of_run_foldNodes_cons h hx hrun with ⟨hr, hrun⟩ | ⟨v, -, hs, hrun⟩
    · exact ⟨(replacement?_eq_of_run_foldNodes h ho hc hx hnewer hrun).trans hr,
        ih h ho hc hsorted hrest hrun⟩
    · have hwf := h.fold hx hs
      have ho' := ho.fold h hx hs
      have hc' := hc.of_sameFrame (sameFrame_fold g n x.result v)
      obtain ⟨y, hy⟩ := exists_node_fold ⟨x, hx⟩ n x.result v
      exact ⟨(replacement?_eq_of_run_foldNodes hwf ho' hc' hy hnewer hrun).trans
          (h.replacement?_fold_self hx v),
        ih hwf ho' hc' hsorted (fun m hm => exists_node_fold (hrest m hm) ..) hrun⟩

/-- A round that succeeds on an ordered graph leaves nothing that folds. -/
theorem settled_of_run_foldNodes (h : g.WellFormed) (ho : g.Ordered) (hc : g.CreatedInOrder)
    (hrun : (foldNodes options g.live report).run g = .ok report' g') : g'.Settled options := by
  have hfolds := folds_of_run_foldNodes h hrun
  refine Settled.of_live fun n hn => ?_
  exact replacement?_of_run_foldNodes h ho hc g.pairwise_live (fun _ => exists_node_of_mem_live)
    hrun n ((hfolds.mem_live_iff h).mp hn).1

/-! ## A pass -/

theorem run_foldRounds_succ (bound : Nat) (report : FoldReport) :
    (foldRounds options (bound + 1) report).run g =
      match (foldNodes options g.live report.addRound).run g with
      | .error e g' => .error e g'
      | .ok after g' =>
        if after.folded = report.folded then .ok after g'
        else (foldRounds options bound after).run g' := by
  have hget : (get : Edit Graph).run g = .ok g g := rfl
  rw [foldRounds, run_bind_of_ok hget, EStateM.run_bind]
  cases (foldNodes options g.live report.addRound).run g with
  | error e g' => rfl
  | ok after g' =>
    dsimp only
    split <;> rfl

/-- A pass that succeeds ends after its first round if that folded nothing. -/
theorem of_run_foldRounds_succ
    (hrun : (foldRounds options (bound + 1) report).run g = .ok report' g') :
    ∃ after k, (foldNodes options g.live report.addRound).run g = .ok after k ∧
      (after.folded = report.folded ∧ after = report' ∧ k = g' ∨
        after.folded ≠ report.folded ∧
          (foldRounds options bound after).run k = .ok report' g') := by
  rw [run_foldRounds_succ] at hrun
  cases hround : (foldNodes options g.live report.addRound).run g with
  | error e k => simp [hround] at hrun
  | ok after k =>
    rw [hround] at hrun
    refine ⟨after, k, rfl, ?_⟩
    by_cases hidle : after.folded = report.folded
    · obtain ⟨hreport, hgraph⟩ := EStateM.Result.ok.inj ((if_pos hidle).symm.trans hrun)
      exact .inl ⟨hidle, hreport, hgraph⟩
    · exact .inr ⟨hidle, (if_neg hidle).symm.trans hrun⟩

theorem foldNodes_congr (hs : options'.structural = options.structural) (nodes : List NodeId)
    (report : FoldReport) : foldNodes options' nodes report = foldNodes options nodes report := by
  induction nodes generalizing report with
  | nil => rfl
  | cons n nodes ih => simp only [foldNodes, foldNode, replacement?_congr hs, ih]

/-- A pass over a settled graph is one idle round. -/
theorem run_foldRounds_of_settled (hs : g.Settled options) (bound : Nat) (report : FoldReport) :
    (foldRounds options (bound + 1) report).run g = .ok report.addRound g := by
  have hround : (foldNodes options g.live report.addRound).run g = .ok report.addRound g := by
    refine run_foldNodes_of_forall_none fun n hn => ?_
    obtain ⟨x, hx⟩ := exists_node_of_mem_live hn
    exact hs n x hx
  rw [run_foldRounds_succ, hround]
  exact if_pos rfl

theorem run_foldAll_of_settled (hs : g.Settled options) (hbound : 0 < options.maxRounds) :
    (foldAll options).run g = .ok { rounds := 1 } g := by
  obtain ⟨bound, hmax⟩ := Nat.exists_eq_succ_of_ne_zero (Nat.ne_of_gt hbound)
  rw [foldAll, hmax]
  exact run_foldRounds_of_settled hs bound {}

end Edit

namespace Graph.OrderedReachable

open Edit

theorem settled_of_round (h : g.OrderedReachable)
    (hround : (foldNodes options g.live report).run g = .ok report' g') : g'.Settled options :=
  settled_of_run_foldNodes h.wellFormed h.ordered h.reachable.createdInOrder hround

/-- Where a round succeeds on an ordered graph, any pass is that round, and one more to confirm it
if it folded something. -/
theorem run_foldAll_of_round (h : g.OrderedReachable)
    (hround : (foldNodes options g.live { rounds := 1 }).run g = .ok report g')
    (hs : options'.structural = options.structural) (hbound : 0 < options'.maxRounds) :
    (foldAll options').run g = .ok { report with
      rounds := if report.folded = 0 ∨ options'.maxRounds = 1 then 1 else 2 } g' := by
  obtain ⟨bound, hmax⟩ := Nat.exists_eq_succ_of_ne_zero (Nat.ne_of_gt hbound)
  have hround' : (foldNodes options' g.live (FoldReport.addRound {})).run g = .ok report g' := by
    rw [foldNodes_congr hs]
    exact hround
  have hsettled := h.settled_of_round hround'
  obtain ⟨hrounds, -⟩ :=
    idle_or_lt_of_run_foldNodes h.wellFormed (fun _ => exists_node_of_mem_live) hround
  obtain ⟨rounds, folded, byMnemonic⟩ := report
  obtain rfl : rounds = 1 := hrounds
  rw [foldAll, hmax, run_foldRounds_succ, hround']
  by_cases hf : folded = 0
  · simp [hf]
  · cases bound with
    | zero => simp [hf, foldRounds]
    | succ bound => simp [hf, run_foldRounds_of_settled hsettled, FoldReport.addRound]

theorem run_foldAll_of_round_error
    (hround : (foldNodes options g.live { rounds := 1 }).run g = .error e g')
    (hs : options'.structural = options.structural) (hbound : 0 < options'.maxRounds) :
    (foldAll options').run g = .error e g' := by
  obtain ⟨bound, hmax⟩ := Nat.exists_eq_succ_of_ne_zero (Nat.ne_of_gt hbound)
  have hround' : (foldNodes options' g.live (FoldReport.addRound {})).run g = .error e g' := by
    rw [foldNodes_congr hs]
    exact hround
  rw [foldAll, hmax, run_foldRounds_succ, hround']

/-- A pass that succeeds on an ordered graph leads to one graph whatever its bound is. It reports
two rounds if it may make a second one and something folds, and one otherwise. It leaves nothing
that folds, so a pass after it is one idle round. -/
theorem one_round_suffices (h : g.OrderedReachable) (hbound : 0 < options.maxRounds)
    (hrun : (foldAll options).run g = .ok report g') :
    (∀ options' : FoldOptions, options'.structural = options.structural →
      0 < options'.maxRounds → (foldAll options').run g = .ok { report with
        rounds := if report.folded = 0 ∨ options'.maxRounds = 1 then 1 else 2 } g') ∧
    (report.folded = 0 ↔ g.Settled options) ∧
    g'.Settled options ∧
    ∀ options' : FoldOptions, options'.structural = options.structural →
      0 < options'.maxRounds → (foldAll options').run g' = .ok { rounds := 1 } g' := by
  cases hround : (foldNodes options g.live { rounds := 1 }).run g with
  | error e k =>
    rw [run_foldAll_of_round_error hround rfl hbound] at hrun
    cases hrun
  | ok r k =>
    rw [h.run_foldAll_of_round hround rfl hbound] at hrun
    cases hrun
    have hsettled := h.settled_of_round hround
    refine ⟨fun options' hs hb => ?_, ⟨fun hf => ?_, fun hg => ?_⟩, hsettled,
      fun options' hs hb => run_foldAll_of_settled (hsettled.congr hs) hb⟩
    · have hpass := h.run_foldAll_of_round hround hs hb
      exact hpass
    · obtain ⟨-, ⟨-, -, hnone⟩ | hlt⟩ :=
        idle_or_lt_of_run_foldNodes h.wellFormed (fun _ => exists_node_of_mem_live) hround
      · exact Settled.of_live hnone
      · exact absurd hf (Nat.ne_of_gt hlt)
    · have hpass := h.run_foldAll_of_round hround rfl hbound
      rw [run_foldAll_of_settled hg hbound] at hpass
      exact (congrArg FoldReport.folded (EStateM.Result.ok.inj hpass).1).symm

/-- A cast of an item of a tuple folds in the round in which the item does. -/
theorem one_round_suffices_of_cast_item :
    let g := (ofTable { names := ["int"] }).after
      [.addFunc "f" [⟨1⟩], .build ⟨0⟩ {} (.tuple [⟨0⟩, ⟨0⟩]),
        .build ⟨0⟩ {} (.node { opcode := .item 1, operands := [⟨1⟩, ⟨0⟩], type := ⟨1⟩ }),
        .build ⟨0⟩ {} (.cast ⟨2⟩ ⟨1⟩), .build ⟨0⟩ {} (.iter ⟨3⟩)]
    let report : FoldReport := { folded := 2, byMnemonic := [("static_getitem", 1), ("cast", 1)] }
    ∃ g', (foldAll { structural := true }).run g = .ok { report with rounds := 2 } g' ∧
      (foldAll { structural := true, maxRounds := 1 }).run g =
        .ok { report with rounds := 1 } g' ∧
      g'.Settled { structural := true } := by
  intro g report
  have h : g.OrderedReachable := (init _).after (by simp)
  have hrun : (foldAll { structural := true }).run g = .ok { report with rounds := 2 } _ :=
    run_of_run' (by decide +kernel)
  obtain ⟨hbounds, -, hsettled, -⟩ := h.one_round_suffices (by decide) hrun
  exact ⟨_, hrun, hbounds { structural := true, maxRounds := 1 } rfl (by decide), hsettled⟩

end Graph.OrderedReachable

end DeferredIR
