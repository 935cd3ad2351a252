import DeferredIR.Proofs.Fold.Failures
import Mathlib.Logic.Relation

/-!
# Folding in any order

Nodes of an ordered graph may fold one at a time in any order. Each fold leaves one live node less,
so every sequence of folds ends, and where no more node folds, the graphs that different sequences
lead to are alike. A pass that does not fail leads to one of them.
-/

namespace DeferredIR.Graph

open Relation

variable {g g' h k k' : Graph} {options options' : FoldOptions} {n m : NodeId} {x y : Node}
variable {v w : ValueId} {trace trace' : List (NodeId × ValueId)}

/-- Some node of `g` restates a value: in `g'` it is dead, and what read its result reads that
value. -/
def FoldsTo (options : FoldOptions) (g g' : Graph) : Prop :=
  ∃ (n : NodeId) (x : Node) (v : ValueId), g.nodes[n.index]? = some x ∧
    g.replacement? options n = .ok (some v) ∧ g' = g.fold n x.result v

/-- No node restates a value. -/
def Exhausted (options : FoldOptions) (g : Graph) : Prop :=
  ∀ n v, g.replacement? options n ≠ .ok (some v)

/-! ## Steps and sequences -/

theorem exhausted_iff : g.Exhausted options ↔ ∀ k, ¬ FoldsTo options g k := by
  constructor
  · rintro he k ⟨n, x, v, -, hr, -⟩
    exact he n v hr
  · intro hk n v hr
    obtain ⟨x, hx, -⟩ := restates_of_replacement? hr
    exact hk _ ⟨n, x, v, hx, hr, rfl⟩

/-- The steps are what folding a node does. -/
theorem WellFormed.foldsTo_iff_run_foldNode (hg : g.WellFormed) :
    FoldsTo options g g' ↔
      ∃ n opcode, (Edit.foldNode options n).run g = .ok (some opcode) g' := by
  constructor
  · rintro ⟨n, x, v, hx, hr, rfl⟩
    exact ⟨n, x.opcode, Edit.run_foldNode_some hg hx hr⟩
  · rintro ⟨n, opcode, hrun⟩
    cases hr : g.replacement? options n with
    | error e =>
      rw [Edit.run_foldNode_error hr] at hrun
      cases hrun
    | ok v? =>
      cases v? with
      | none =>
        rw [Edit.run_foldNode_none hr] at hrun
        cases hrun
      | some v =>
        obtain ⟨x, hx, -⟩ := restates_of_replacement? hr
        rw [Edit.run_foldNode_some hg hx hr] at hrun
        cases hrun
        exact ⟨n, x, v, hx, hr, rfl⟩

namespace Folds

theorem single (hx : g.nodes[n.index]? = some x) (hr : g.replacement? options n = .ok (some v)) :
    Folds options g [(n, v)] (g.fold n x.result v) :=
  .cons hx hr (.nil _)

theorem reflTransGen (hf : Folds options g trace g') : ReflTransGen (FoldsTo options) g g' := by
  induction hf with
  | nil => exact .refl
  | cons hx hr _ ih => exact ih.head ⟨_, _, _, hx, hr, rfl⟩

end Folds

theorem exists_folds (hk : ReflTransGen (FoldsTo options) g k) :
    ∃ trace, Folds options g trace k := by
  induction hk with
  | refl => exact ⟨[], .nil g⟩
  | tail _ hstep ih =>
    obtain ⟨trace, hf⟩ := ih
    obtain ⟨n, x, v, hx, hr, rfl⟩ := hstep
    exact ⟨_, hf.append (.single hx hr)⟩

/-! ## Every sequence ends -/

theorem WellFormed.length_live_fold (hg : g.WellFormed) (hn : n ∈ g.live) (old new : ValueId) :
    (g.fold n old new).live.length + 1 = g.live.length :=
  (hg.perm_live_fold hn old new).length_eq

/-- A sequence of folds is no longer than the list of live nodes. -/
theorem WellFormed.length_le_of_foldsTo (hg : g.WellFormed) {s : Nat → Graph} {length : Nat}
    (h0 : s 0 = g) (hs : ∀ i < length, FoldsTo options (s i) (s (i + 1))) :
    length ≤ g.live.length := by
  have hrun : ∀ i ≤ length, (s i).WellFormed ∧ i + (s i).live.length ≤ g.live.length := by
    intro i
    induction i with
    | zero =>
      intro _
      rw [h0]
      exact ⟨hg, Nat.le_of_eq (Nat.zero_add _)⟩
    | succ i ih =>
      intro hi
      obtain ⟨hwf, hle⟩ := ih (Nat.le_of_succ_le hi)
      obtain ⟨n, x, v, hx, hr, hk⟩ := hs i hi
      obtain ⟨hd, hres⟩ := restates_of_node_eq hx hr
      have hlength := hwf.length_live_fold (mem_live_of_live hx hd) x.result v
      rw [hk]
      exact ⟨hwf.fold hx hres, by omega⟩
  exact Nat.le_trans (Nat.le_add_right _ _) (hrun length (Nat.le_refl _)).2

/-! ## All sequences end alike -/

theorem Alike.exhausted (a : Alike g h) (hg : g.WellFormed) (hh : h.WellFormed)
    (he : g.Exhausted options) : h.Exhausted options := by
  intro n v hr
  obtain ⟨y, hy, -⟩ := restates_of_replacement? hr
  obtain ⟨x, hx, -⟩ := a.toSameFrame.exists_node hy
  rw [a.replacement?_eq hg hh hx] at hr
  exact he n v hr

/-- Graphs that are alike take the same folds, and stay alike. -/
theorem Folds.alike (hf : Folds options g trace k) (hg : g.WellFormed) (hh : h.WellFormed)
    (a : Alike g h) : ∃ k', Folds options h trace k' ∧ Alike k k' := by
  induction hf generalizing h with
  | nil => exact ⟨h, .nil h, a⟩
  | @cons g k n x v trace hx hr _ ih =>
    obtain ⟨hd, hs⟩ := restates_of_node_eq hx hr
    have hx' := a.node_of_live hx hd
    have hr' := (a.replacement?_eq hg hh hx).trans hr
    obtain ⟨-, hs'⟩ := restates_of_node_eq hx' hr'
    obtain ⟨k', hf', a'⟩ := ih (hg.fold hx hs) (hh.fold hx' hs') (a.fold hg hh n x.result v)
    exact ⟨k', .cons hx' hr' hf', a'⟩

/-- A node that folds before a fold of another node folds after it. -/
theorem WellFormed.replacement?_fold_of_ne (hg : g.WellFormed)
    (hx : g.nodes[n.index]? = some x) (hr : g.replacement? options n = .ok (some v))
    (hy : g.nodes[m.index]? = some y) (hs : g.replacement? options m = .ok (some w))
    (hne : m ≠ n) :
    (g.fold n x.result v).nodes[m.index]? = some (y.mapOperands (x.result.subst v)) ∧
      (g.fold n x.result v).replacement? options m = .ok (some (x.result.subst v w)) := by
  obtain ⟨-, hrx⟩ := restates_of_node_eq hx hr
  obtain ⟨hd, hry⟩ := restates_of_node_eq hy hs
  have hlive := hg.liveNode?_fold n x.result v m
  rw [if_neg hne, liveNode?_of_live hy hd] at hlive
  obtain ⟨hnode, hdead⟩ := liveNode?_eq_some.mp hlive
  exact ⟨hnode, ((hg.fold hx hrx).replacement?_eq_some_iff hnode).mpr ⟨hdead, hry.fold hg hx hrx⟩⟩

/-- A sequence after which no node folds can start with any node that folds. -/
theorem Folds.exists_head (hf : Folds options g trace k) (hg : g.WellFormed) (ho : g.Ordered)
    (hk : k.Exhausted options) (hx : g.nodes[n.index]? = some x)
    (hr : g.replacement? options n = .ok (some v)) :
    ∃ trace' k', Folds options (g.fold n x.result v) trace' k' ∧ Alike k k' := by
  induction hf generalizing x v with
  | nil => exact absurd hr (hk n v)
  | @cons g k m y w trace hy hs hf ih =>
    by_cases hne : n = m
    · subst hne
      obtain rfl := Option.some.inj (hx.symm.trans hy)
      obtain rfl : v = w := by
        rw [hr] at hs
        cases hs
        rfl
      exact ⟨trace, k, hf, .refl k⟩
    · obtain ⟨-, hrx⟩ := restates_of_node_eq hx hr
      obtain ⟨-, hry⟩ := restates_of_node_eq hy hs
      -- `n` folds after `m`, by induction first of all; `m` folds after `n`; and the orders commute
      obtain ⟨hx', hr'⟩ := hg.replacement?_fold_of_ne hy hs hx hr hne
      obtain ⟨hy', hs'⟩ := hg.replacement?_fold_of_ne hx hr hy hs (Ne.symm hne)
      obtain ⟨-, hrx'⟩ := restates_of_node_eq hx' hr'
      obtain ⟨-, hry'⟩ := restates_of_node_eq hy' hs'
      obtain ⟨trace', k', hf', a⟩ := ih (hg.fold hy hry) (ho.fold hg hy hry) hk hx' hr'
      obtain ⟨k'', hf'', a'⟩ := hf'.alike ((hg.fold hy hry).fold hx' hrx')
        ((hg.fold hx hrx).fold hy' hry') (alike_fold_fold hg ho hne hx hy hrx hry).symm
      exact ⟨_, k'', .cons hy' hs' hf'', a.trans a'⟩

/-- Sequences after which no node folds lead to graphs that are alike. -/
theorem Folds.alike_of_exhausted (hf : Folds options g trace k) (hg : g.WellFormed)
    (ho : g.Ordered) (hk : k.Exhausted options) (hf' : Folds options g trace' k')
    (hk' : k'.Exhausted options) : Alike k k' := by
  induction hf generalizing trace' k' with
  | nil =>
    cases hf' with
    | nil => exact .refl _
    | cons _ hr _ => exact absurd hr (hk _ _)
  | cons hx hr hf ih =>
    obtain ⟨-, hs⟩ := restates_of_node_eq hx hr
    obtain ⟨trace'', k'', hf'', a⟩ := hf'.exists_head hg ho hk' hx hr
    have hwf := hg.fold hx hs
    have hk'' := a.exhausted (hf'.wellFormed hg) (hf''.wellFormed hwf) hk'
    exact (ih hwf (ho.fold hg hx hs) hk hf'' hk'').trans a.symm

/-! ## Passes -/

theorem Settled.exhausted (hs : g.Settled options) : g.Exhausted options := by
  intro n v hr
  obtain ⟨x, hx, -⟩ := restates_of_replacement? hr
  rw [hs n x hx] at hr
  cases hr

/-- Where folding fails at no node of an ordered graph, each pass leads to the end of one sequence
of folds. -/
theorem OrderedReachable.exists_folds_of_foldAll (h : g.OrderedReachable)
    (hnone : g.firstFailure? options = none) :
    ∃ g' trace, Folds options g trace g' ∧ g'.Exhausted options ∧
      ∀ options' : FoldOptions, options'.structural = options.structural →
        0 < options'.maxRounds → ∃ report, (Edit.foldAll options').run g = .ok report g' := by
  rw [h.wellFormed.firstFailure?_eq_of_round { rounds := 1 }] at hnone
  cases hround : (Edit.foldNodes options g.live { rounds := 1 }).run g with
  | error e g' => simp [hround] at hnone
  | ok report g' =>
    refine ⟨g', _, folds_of_run_foldNodes h.wellFormed hround,
      (h.settled_of_round hround).exhausted, fun options' hs hbound => ?_⟩
    exact ⟨_, h.run_foldAll_of_round hround hs hbound⟩

theorem OrderedReachable.firstFailure?_eq_none (h : g.OrderedReachable)
    (harg : ∀ (n : NodeId) (x : Node) (index : Nat) (name : String),
      g.nodes[n.index]? = some x → x.dead = false → x.opcode = .arg index name →
        ∀ e, g.replacement? options n ≠ .error e) : g.firstFailure? options = none := by
  by_contra hne
  obtain ⟨e, he⟩ := Option.ne_none_iff_exists'.mp hne
  obtain ⟨i, hi, he⟩ := List.exists_of_findSome?_eq_some he
  have hx := Array.getElem?_eq_getElem (List.mem_range.mp hi)
  have hr := failure?_eq_some_iff.mp he
  obtain ⟨hd, index, name, hk, -⟩ := (h.wellFormed.replacement?_eq_error_iff hx).mp hr
  exact harg ⟨i⟩ _ index name hx hd hk e hr

/-- In an ordered graph whose argument nodes can all be bound, no sequence of folds is longer than
the list of live nodes, and every pass leads to where all sequences end. No node of its graph
restates a value, its graph is the end of one sequence, and the end of any other is alike and has
the same use lists up to their order. The steps of the sequences are what folding a node does. -/
theorem OrderedReachable.folds_confluent (h : g.OrderedReachable)
    (harg : ∀ (n : NodeId) (x : Node) (index : Nat) (name : String),
      g.nodes[n.index]? = some x → x.dead = false → x.opcode = .arg index name →
        ∀ e, g.replacement? options n ≠ .error e) :
    (∀ k k', ReflTransGen (FoldsTo options) g k → (FoldsTo options k k' ↔
      ∃ n opcode, (Edit.foldNode options n).run k = .ok (some opcode) k')) ∧
    (∀ (s : Nat → Graph) (length : Nat), s 0 = g →
      (∀ i < length, FoldsTo options (s i) (s (i + 1))) → length ≤ g.live.length) ∧
    ∃ g', (∀ options' : FoldOptions, options'.structural = options.structural →
        0 < options'.maxRounds → ∃ report, (Edit.foldAll options').run g = .ok report g') ∧
      ReflTransGen (FoldsTo options) g g' ∧ g'.Exhausted options ∧
      (∀ k, ¬ FoldsTo options g' k) ∧
      ∀ k, ReflTransGen (FoldsTo options) g k → (∀ k', ¬ FoldsTo options k k') →
        Alike g' k ∧ ∀ v, (k.usesOf v).Perm (g'.usesOf v) := by
  have hg := h.wellFormed
  have hwf : ∀ k, ReflTransGen (FoldsTo options) g k → k.WellFormed := by
    intro k hk
    obtain ⟨trace, hf⟩ := exists_folds hk
    exact hf.wellFormed hg
  refine ⟨fun k k' hk => (hwf k hk).foldsTo_iff_run_foldNode,
    fun s length h0 hs => hg.length_le_of_foldsTo h0 hs, ?_⟩
  obtain ⟨g', trace, hf, he, hpass⟩ := h.exists_folds_of_foldAll (h.firstFailure?_eq_none harg)
  refine ⟨g', hpass, hf.reflTransGen, he, exhausted_iff.mp he, fun k hk hend => ?_⟩
  obtain ⟨trace', hf'⟩ := exists_folds hk
  have a : Alike g' k := hf.alike_of_exhausted hg h.ordered he hf' (exhausted_iff.mpr hend)
  exact ⟨a, a.usesOf_perm (hf.wellFormed hg) (hwf k hk)⟩

/-- A cast of a bound argument node: either may fold first. -/
theorem OrderedReachable.folds_confluent_of_bound_argument :
    let g := (ofTable { names := ["int"] }).after
      [.addFunc "f" [⟨1⟩], .build ⟨0⟩ {} (.arg 0 "x"), .assignType ⟨1⟩ ⟨1⟩,
        .build ⟨0⟩ {} (.cast ⟨1⟩ ⟨1⟩), .build ⟨0⟩ {} (.iter ⟨2⟩)]
    (∀ (s : Nat → Graph) (length : Nat), s 0 = g →
      (∀ i < length, FoldsTo {} (s i) (s (i + 1))) → length ≤ 3) ∧
    ∃ report g', (Edit.foldAll {}).run g = .ok report g' ∧ g'.Exhausted {} ∧
      ∀ k, ReflTransGen (FoldsTo {}) g k → (∀ k', ¬ FoldsTo {} k k') → Alike g' k := by
  intro g
  have h : g.OrderedReachable := (init _).after (by simp)
  have hlength : g.live.length = 3 := by decide +kernel
  have hok : ∀ i < g.nodes.size, (g.replacement? {} ⟨i⟩).isOk = true := by decide +kernel
  have harg : ∀ (n : NodeId) (x : Node) (index : Nat) (name : String),
      g.nodes[n.index]? = some x → x.dead = false → x.opcode = .arg index name →
        ∀ e, g.replacement? {} n ≠ .error e := by
    intro n x _ _ hx _ _ e he
    have hn : (g.replacement? {} n).isOk = true := hok n.index (Array.getElem?_eq_some_iff.mp hx).1
    rw [he] at hn
    cases hn
  obtain ⟨-, hbound, g', hpass, -, he, -, hend⟩ := h.folds_confluent harg
  obtain ⟨report, hrun⟩ := hpass {} rfl (by decide)
  refine ⟨fun s length h0 hs => hlength ▸ hbound s length h0 hs, report, g', hrun, he, ?_⟩
  exact fun k hk hmax => (hend k hk hmax).1

end DeferredIR.Graph
