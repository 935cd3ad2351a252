import DeferredIR.Proofs.Fold.Effects
import DeferredIR.Proofs.Fold.Remains
import Mathlib.Data.List.Induction

/-!
# What a pass reports

A report is told the opcode of each fold and nothing about the graph. Each fold kills one node that
was live when the pass began, and nothing else dies, so the counts of the report are those of the
nodes that died. A round that folds nothing is the last one, so there are at most as many rounds as
folds and one more; where the bound is greater than the number of live nodes, it is never what ends
the pass.
-/

namespace DeferredIR

open DeferredIR.Graph

/-! ## Counting keys -/

namespace FoldReport

variable {keys : List String} {k : String} {count : Nat}

/-- The counts after one more of each of the keys. -/
def tallies (keys : List String) (counts : List (String × Nat)) : List (String × Nat) :=
  keys.foldl (fun counts key => tally key counts) counts

theorem tallies_append (keys keys' : List String) (counts : List (String × Nat)) :
    tallies (keys ++ keys') counts = tallies keys' (tallies keys counts) :=
  List.foldl_append

theorem tally_map (hnodup : keys.Nodup) (count : String → Nat) (key : String) :
    tally key (keys.map fun k => (k, count k)) =
      if key ∈ keys then keys.map fun k => (k, count k + if k = key then 1 else 0)
      else (keys.map fun k => (k, count k)) ++ [(key, 1)] := by
  induction keys with
  | nil => rfl
  | cons k keys ih =>
    obtain ⟨hk, hnodup⟩ := List.nodup_cons.mp hnodup
    rw [List.map_cons, tally]
    by_cases he : k = key
    · subst he
      -- The keys are distinct, so the later counts stay as they are.
      have hrest : keys.map (fun k' => (k', count k' + if k' = k then 1 else 0)) =
          keys.map fun k' => (k', count k') := by
        refine List.map_congr_left fun k' hk' => ?_
        rw [if_neg (ne_of_mem_of_not_mem hk' hk), Nat.add_zero]
      simp [hrest]
    · rw [if_neg he, ih hnodup]
      by_cases hmem : key ∈ keys
      · simp [he, hmem]
      · simp [hmem, Ne.symm he]

theorem eraseDups_concat (keys : List String) (key : String) :
    (keys ++ [key]).eraseDups =
      if key ∈ keys then keys.eraseDups else keys.eraseDups ++ [key] := by
  rw [List.eraseDups_append]
  by_cases hmem : key ∈ keys <;> simp [hmem, List.removeAll, List.eraseDups_cons]

theorem nodup_eraseDups (keys : List String) : keys.eraseDups.Nodup := by
  induction keys using List.reverseRecOn with
  | nil => exact List.nodup_nil
  | append_singleton keys key ih =>
    rw [eraseDups_concat]
    split
    · exact ih
    · rename_i hmem
      exact List.nodup_append_comm.mp (List.nodup_cons.mpr ⟨by simpa using hmem, ih⟩)

/-- From no counts on, each key is counted once where it first occurs, with all its occurrences. -/
theorem tallies_nil (keys : List String) :
    tallies keys [] = keys.eraseDups.map fun k => (k, keys.count k) := by
  -- On the last key: a new key is added behind the others, by `tally` as by `eraseDups`.
  induction keys using List.reverseRecOn with
  | nil => rfl
  | append_singleton keys key ih =>
    have hone : tallies [key] (tallies keys []) = tally key (tallies keys []) := rfl
    rw [tallies_append, hone, ih, tally_map (nodup_eraseDups keys), eraseDups_concat]
    simp only [List.mem_eraseDups, List.count_append, List.count_singleton, beq_iff_eq]
    split
    · simp only [eq_comm]
    · rename_i hmem
      rw [List.map_append, List.map_singleton, List.count_eq_zero_of_not_mem hmem]
      have hold : ∀ k ∈ keys.eraseDups, key ≠ k := by
        rintro k hk rfl
        exact hmem (List.mem_eraseDups.mp hk)
      simp +contextual [hold]

theorem mem_tallies_nil :
    (k, count) ∈ tallies keys [] ↔ 0 < count ∧ count = keys.count k := by
  rw [tallies_nil]
  constructor
  · intro hmem
    obtain ⟨k', hk', he⟩ := List.mem_map.mp hmem
    obtain ⟨rfl, rfl⟩ := Prod.mk.inj he
    exact ⟨List.count_pos_iff.mpr (List.mem_eraseDups.mp hk'), rfl⟩
  · rintro ⟨hpos, rfl⟩
    exact List.mem_map.mpr ⟨k, List.mem_eraseDups.mpr (List.count_pos_iff.mp hpos), rfl⟩

theorem sum_tally (key : String) (counts : List (String × Nat)) :
    ((tally key counts).map Prod.snd).sum = (counts.map Prod.snd).sum + 1 := by
  induction counts with
  | nil => rfl
  | cons p counts ih =>
    rw [tally]
    split
    · simp only [List.map_cons, List.sum_cons]
      omega
    · simp only [List.map_cons, List.sum_cons, ih]
      omega

theorem sum_tallies (keys : List String) (counts : List (String × Nat)) :
    ((tallies keys counts).map Prod.snd).sum = (counts.map Prod.snd).sum + keys.length := by
  induction keys generalizing counts with
  | nil => rfl
  | cons key keys ih =>
    have hcons : tallies (key :: keys) counts = tallies keys (tally key counts) := rfl
    rw [hcons, ih, sum_tally, List.length_cons]
    omega

end FoldReport

open FoldReport

variable {g g' : Graph} {options : FoldOptions} {n : NodeId} {x : Node} {v : ValueId}
variable {nodes : List NodeId} {trace trace' : List (NodeId × ValueId)} {bound : Nat}
variable {report report' report'' : FoldReport}

namespace Graph

/-- The mnemonic of the opcode of `n`. -/
def mnemonic? (g : Graph) (n : NodeId) : Option String :=
  g.nodes[n.index]?.map fun x => x.opcode.mnemonic

/-- The mnemonics of the nodes that were folded, in the order of the folds. -/
def mnemonics (g : Graph) (trace : List (NodeId × ValueId)) : List String :=
  trace.filterMap fun p => g.mnemonic? p.1

/-- The nodes that are live in `g` and not in `g'`. -/
def died (g g' : Graph) : List NodeId := g.live.filter fun n => n ∉ g'.live

theorem SameFrame.mnemonics (s : SameFrame g g') (trace : List (NodeId × ValueId)) :
    g'.mnemonics trace = g.mnemonics trace :=
  List.filterMap_congr fun p _ => s.map_node (fun q => q.1.mnemonic) p.1

/-- The nodes that died are those that folded. -/
theorem Folds.perm_died (hf : Folds options g trace g') (hg : g.WellFormed) :
    (trace.map Prod.fst).Perm (g.died g') := by
  have hperm := hf.perm_live hg
  obtain ⟨-, -, hdisjoint⟩ := List.nodup_append'.mp (hperm.nodup_iff.mpr g.nodup_live)
  have hfiltered := hperm.filter fun n => n ∉ g'.live
  have hfolded : (trace.map Prod.fst).filter (fun n => n ∉ g'.live) = trace.map Prod.fst :=
    List.filter_eq_self.mpr fun n hn => decide_eq_true (hdisjoint hn)
  have hlive : g'.live.filter (fun n => n ∉ g'.live) = [] :=
    List.filter_eq_nil_iff.mpr fun n hn => by simpa using hn
  rwa [List.filter_append, hfolded, hlive, List.append_nil] at hfiltered

theorem Folds.count_mnemonics (hf : Folds options g trace g') (hg : g.WellFormed) (k : String) :
    (g.mnemonics trace).count k = (g.died g').countP fun n => g.mnemonic? n = some k := by
  rw [← (hf.perm_died hg).countP_eq, List.countP_map, mnemonics, List.count_filterMap]
  exact List.countP_congr fun p _ => by simp

theorem Folds.length_mnemonics (hf : Folds options g trace g') (hg : g.WellFormed) :
    (g.mnemonics trace).length = trace.length := by
  refine List.filterMap_length_eq_length.mpr fun p hp => ?_
  obtain ⟨x, hx⟩ := exists_node_of_mem_live (hf.mem_live_of_mem hg hp)
  simp [mnemonic?, hx]

end Graph

namespace Edit

/-! ## What is counted -/

/-- `report'` is `report` with the folds of `trace`, apart from the number of rounds. -/
structure Counted (g : Graph) (trace : List (NodeId × ValueId)) (report report' : FoldReport) :
    Prop where
  folded : report'.folded = report.folded + trace.length
  byMnemonic : report'.byMnemonic = tallies (g.mnemonics trace) report.byMnemonic

namespace Counted

theorem nil (g : Graph) (report : FoldReport) : Counted g [] report report := ⟨rfl, rfl⟩

theorem cons (hx : g.nodes[n.index]? = some x)
    (h : Counted g trace (report.addFold x.opcode) report') :
    Counted g ((n, v) :: trace) report report' where
  folded := by
    rw [h.folded, List.length_cons]
    exact Nat.succ_add_eq_add_succ ..
  byMnemonic := by
    have hmnemonics : g.mnemonics ((n, v) :: trace) = x.opcode.mnemonic :: g.mnemonics trace := by
      simp [mnemonics, mnemonic?, hx]
    rw [h.byMnemonic, hmnemonics]
    rfl

theorem append (h : Counted g trace report report') (h' : Counted g trace' report' report'') :
    Counted g (trace ++ trace') report report'' where
  folded := by
    rw [h'.folded, h.folded, List.length_append, Nat.add_assoc]
  byMnemonic := by
    rw [h'.byMnemonic, h.byMnemonic, mnemonics, mnemonics, mnemonics, List.filterMap_append,
      tallies_append]

theorem of_addRound (h : Counted g trace report.addRound report') :
    Counted g trace report report' :=
  ⟨h.folded, h.byMnemonic⟩

theorem of_sameFrame (s : SameFrame g g') (h : Counted g' trace report report') :
    Counted g trace report report' :=
  ⟨h.folded, by rw [h.byMnemonic, s.mnemonics]⟩

end Counted

theorem counted_of_run_foldNodes (h : g.WellFormed)
    (hnodes : ∀ n ∈ nodes, ∃ x, g.nodes[n.index]? = some x)
    (hrun : (foldNodes options nodes report).run g = .ok report' g') :
    Counted g (foldTrace options nodes g) report report' := by
  induction nodes generalizing g report with
  | nil =>
    cases hrun
    exact .nil _ _
  | cons n nodes ih =>
    obtain ⟨⟨x, hx⟩, hrest⟩ := List.forall_mem_cons.mp hnodes
    rcases of_run_foldNodes_cons h hx hrun with ⟨hr, hrun⟩ | ⟨v, hr, hs, hrun⟩
    · simp only [foldTrace, hr, run_foldNode_none hr]
      exact ih h hrest hrun
    · simp only [foldTrace, hr, run_foldNode_some h hx hr]
      -- The rest is counted with the opcodes after this fold, which are those before it.
      have hcounted := ih (h.fold hx hs) (fun m hm => exists_node_fold (hrest m hm) ..) hrun
      exact .cons hx (hcounted.of_sameFrame (sameFrame_fold ..))

theorem counted_of_run_foldRounds (h : g.WellFormed)
    (hrun : (foldRounds options bound report).run g = .ok report' g') :
    Counted g (roundsTrace options bound report g) report report' := by
  induction bound generalizing g report with
  | zero =>
    cases hrun
    exact .nil _ _
  | succ bound ih =>
    obtain ⟨after, k, hround, hrest⟩ := of_run_foldRounds_succ hrun
    have hfirst := counted_of_run_foldNodes h (fun _ => exists_node_of_mem_live) hround
    have hfolds := folds_of_run_foldNodes h hround
    simp only [roundsTrace, hround]
    rcases hrest with ⟨hidle, rfl, rfl⟩ | ⟨hbusy, hrest⟩
    · rw [if_pos hidle, List.append_nil]
      exact hfirst.of_addRound
    · rw [if_neg hbusy]
      have hcounted := ih (hfolds.wellFormed h) hrest
      exact hfirst.of_addRound.append (hcounted.of_sameFrame hfolds.sameShape.toSameFrame)

/-- The last round of the pass folded nothing. -/
def EndsIdle (options : FoldOptions) (g : Graph) (report : FoldReport) (g' : Graph) : Prop :=
  ∃ before start, LastRound options g report g' before start ∧ report.folded = before.folded

/-- The rounds of a pass: no more than the bound allows, and all but one of them fold something. -/
theorem rounds_of_run_foldAll (h : g.WellFormed)
    (hrun : (foldAll options).run g = .ok report g') :
    report.rounds ≤ options.maxRounds ∧ report.rounds ≤ report.folded + 1 ∧
      (report.rounds = options.maxRounds ∨ EndsIdle options g report g') ∧
      (report.folded < options.maxRounds → EndsIdle options g report g' ∧ g'.Settled options) := by
  rcases Nat.eq_zero_or_pos options.maxRounds with hzero | hbound
  · rw [foldAll, hzero] at hrun
    cases hrun
    rw [hzero]
    exact ⟨le_rfl, Nat.zero_le _, .inl rfl, fun hlt => absurd hlt (Nat.not_lt_zero _)⟩
  · obtain ⟨before, start, hwf, hlast, hbusy, hle, hend⟩ := exists_lastRound_le h hbound hrun
    obtain ⟨hrounds, hround⟩ := idle_or_lt_of_round hwf hlast.round
    have hmono : before.folded ≤ report.folded := by
      rcases hround with ⟨rfl, -, -⟩ | hlt
      · exact le_rfl
      · exact hlt.le
    refine ⟨hle, by omega, hend.imp_right fun hidle => ⟨before, start, hlast, hidle⟩, ?_⟩
    -- If the last round folded something too, then each round that the bound allows did.
    intro hlt
    have hidle : report.folded = before.folded := by omega
    exact ⟨⟨before, start, hlast, hidle⟩, hlast.settled hwf hidle⟩

end Edit

namespace Graph

open Edit

/-- A pass that succeeds reports its folds: as many as nodes died, by mnemonic as many as nodes with
that mnemonic died, and the mnemonics in the order of their first folds. It makes no more rounds
than its bound allows, nor more than it makes folds and one. Unless it makes all rounds that it may,
its last round folded nothing; with more rounds allowed than nodes live, nothing folds any more. -/
theorem Reachable.report_exact (h : g.Reachable)
    (hrun : (foldAll options).run g = .ok report g') :
    let trace := (Command.foldAll options).trace g
    Folds options g trace g' ∧
    g'.live.length + report.folded = g.live.length ∧
    ((∀ k count, (k, count) ∈ report.byMnemonic ↔
        0 < count ∧ count = (g.died g').countP fun n => g.mnemonic? n = some k) ∧
      (report.byMnemonic.map Prod.snd).sum = report.folded ∧
      report.byMnemonic.map Prod.fst = (g.mnemonics trace).eraseDups ∧
      (report.byMnemonic.map Prod.fst).Nodup) ∧
    report.rounds ≤ min options.maxRounds (report.folded + 1) ∧
    (report.rounds = options.maxRounds ∨ EndsIdle options g report g') ∧
    (g.live.length < options.maxRounds → EndsIdle options g report g' ∧ g'.Settled options) := by
  intro trace
  have hwf := h.wellFormed
  have hfolds : Folds options g trace ((foldAll options).after g) :=
    folds_foldRounds hwf options.maxRounds {}
  rw [after_of_ok hrun] at hfolds
  have hcounted : Counted g trace {} report := counted_of_run_foldRounds hwf hrun
  have hfolded : report.folded = trace.length := hcounted.folded.trans (Nat.zero_add _)
  have hcounts : report.byMnemonic = tallies (g.mnemonics trace) [] := hcounted.byMnemonic
  have hkeys : report.byMnemonic.map Prod.fst = (g.mnemonics trace).eraseDups := by
    rw [hcounts, tallies_nil, List.map_map]
    exact List.map_id _
  have hlength : g'.live.length + report.folded = g.live.length := by
    rw [← (hfolds.perm_live hwf).length_eq, List.length_append, List.length_map, hfolded,
      Nat.add_comm]
  obtain ⟨hle, hle', hend, hsettled⟩ := rounds_of_run_foldAll hwf hrun
  refine ⟨hfolds, hlength, ⟨fun k count => ?_, ?_, hkeys, ?_⟩, Nat.le_min.mpr ⟨hle, hle'⟩, hend,
    fun hlt => hsettled (by omega)⟩
  · rw [hcounts, mem_tallies_nil, hfolds.count_mnemonics hwf]
  · rw [hcounts, sum_tallies, hfolds.length_mnemonics hwf, hfolded]
    exact Nat.zero_add _
  · rw [hkeys]
    exact nodup_eraseDups _

/-- Two casts fold, one of which reads its own result, and an item and an argument between them. The
second round is idle, so nothing folds any more. -/
theorem report_exact_of_self_reader :
    let g := (ofTable { names := ["int"] }).after
      [.addFunc "f" [⟨1⟩], .build ⟨0⟩ {} (.cast ⟨0⟩ ⟨1⟩), .replace ⟨0⟩ ⟨1⟩,
        .build ⟨0⟩ {} (.tuple [⟨0⟩, ⟨0⟩]),
        .build ⟨0⟩ {} (.node { opcode := .item 1, operands := [⟨2⟩, ⟨1⟩], type := ⟨1⟩ }),
        .build ⟨0⟩ {} (.node { opcode := .arg 0 "x", operands := [], type := ⟨1⟩ }),
        .build ⟨0⟩ {} (.cast ⟨3⟩ ⟨1⟩), .build ⟨0⟩ {} (.binop ⟨4⟩ ⟨5⟩ "+")]
    let options : FoldOptions := { structural := true }
    let g' := (foldAll options).after g
    (foldAll options).run g =
      .ok ⟨2, 4, [("cast", 2), ("static_getitem", 1), ("arg", 1)]⟩ g' ∧
    g'.live.length + 4 = g.live.length ∧
    2 = ((g.died g').countP fun n => g.mnemonic? n = some "cast") ∧
    g'.Settled options := by
  intro g options g'
  have h : g.Reachable := ⟨_, _, rfl⟩
  have hrun : (foldAll options).run g =
      .ok ⟨2, 4, [("cast", 2), ("static_getitem", 1), ("arg", 1)]⟩ g' :=
    run_of_run' (by decide +kernel)
  have hlive : g.live.length < options.maxRounds := by
    unfold g options
    decide
  clear_value g'
  clear_value g
  obtain ⟨-, hlength, ⟨hcount, -, -, -⟩, -, -, hsettled⟩ := h.report_exact hrun
  exact ⟨hrun, hlength, ((hcount "cast" 2).mp (by decide)).2, (hsettled hlive).2⟩

end Graph

end DeferredIR
