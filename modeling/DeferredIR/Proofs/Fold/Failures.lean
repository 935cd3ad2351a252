import DeferredIR.Proofs.Fold.OneRound

/-!
# What a pass fails with

No fold makes folding fail at a node, and none stops it from failing, so a pass fails with what the
oldest failing node fails with in the graph it is given, and succeeds if there is no such node. The
folds that were made before a pass make no difference to that.
-/

namespace DeferredIR

open DeferredIR.Graph

variable {g g' h : Graph} {options options' : FoldOptions} {n m : NodeId} {x y : Node}
variable {v : ValueId} {e : Error} {nodes : List NodeId} {report : FoldReport}
variable {trace : List (NodeId × ValueId)}

theorem findSome?_congr {α β : Type} {l : List α} {p q : α → Option β}
    (hpq : ∀ a ∈ l, p a = q a) : l.findSome? p = l.findSome? q := by
  rw [← List.head?_filterMap, ← List.head?_filterMap, List.filterMap_congr hpq]

namespace Graph

/-- What folding fails with at `n`. -/
def failure? (g : Graph) (options : FoldOptions) (n : NodeId) : Option Error :=
  match g.replacement? options n with
  | .ok _ => none
  | .error e => some e

theorem failure?_eq_some_iff :
    g.failure? options n = some e ↔ g.replacement? options n = .error e := by
  unfold failure?
  cases g.replacement? options n <;> simp

theorem failure?_of_dead (hn : g.nodes[n.index]? = some x) (hd : x.dead = true) :
    g.failure? options n = none := by
  rw [failure?, replacement?_of_dead hn hd]

/-- What folding fails with at the oldest node at which it fails. -/
def firstFailure? (g : Graph) (options : FoldOptions) : Option Error :=
  (List.range g.nodes.size).findSome? fun i => g.failure? options ⟨i⟩

theorem findSome?_live (g : Graph) (options : FoldOptions) :
    g.live.findSome? (g.failure? options) = g.firstFailure? options := by
  have hall : (g.nodeEntries.map Prod.fst).findSome? (g.failure? options) =
      g.firstFailure? options := by
    rw [map_fst_nodeEntries, List.findSome?_map]
    rfl
  rw [← hall, live, liveEntries, ← List.head?_filterMap, ← List.head?_filterMap,
    List.filterMap_map, List.filterMap_map, List.filterMap_filter]
  congr 1
  refine List.filterMap_congr fun p hp => ?_
  cases hd : p.2.dead with
  | false => rfl
  | true => exact (failure?_of_dead (mem_nodeEntries.mp hp) hd).symm

/-! ## Failures under folds -/

theorem WellFormed.failure?_fold (hg : g.WellFormed) (hx : g.nodes[n.index]? = some x)
    (hy : g.nodes[m.index]? = some y) (hd : y.dead = false) (hr : g.Restates options y v) :
    (g.fold m y.result v).failure? options n = g.failure? options n :=
  Option.ext fun e => by
    rw [failure?_eq_some_iff, failure?_eq_some_iff, hg.replacement?_fold_eq_error_iff hx hy hd hr]

theorem Folds.failure?_eq (hf : Folds options g trace g') (hg : g.WellFormed)
    (hx : g.nodes[n.index]? = some x) : g'.failure? options n = g.failure? options n := by
  induction hf generalizing x with
  | nil => rfl
  | cons hm hr _ ih =>
    obtain ⟨hd, hs⟩ := restates_of_node_eq hm hr
    obtain ⟨y, hy⟩ := exists_node_fold ⟨x, hx⟩ _ _ _
    rw [ih (hg.fold hm hs) hy, hg.failure?_fold hx hm hd hs]

theorem firstFailure?_eq_of_forall (hsize : h.nodes.size = g.nodes.size)
    (hnode : ∀ (n : NodeId) (x : Node), g.nodes[n.index]? = some x →
      h.failure? options n = g.failure? options n) :
    h.firstFailure? options = g.firstFailure? options := by
  rw [firstFailure?, firstFailure?, hsize]
  refine findSome?_congr fun i hi => ?_
  exact hnode ⟨i⟩ _ (Array.getElem?_eq_getElem (List.mem_range.mp hi))

/-- What a pass fails with stays the same when nodes fold before it. -/
theorem Folds.firstFailure?_eq (hf : Folds options g trace g') (hg : g.WellFormed) :
    g'.firstFailure? options = g.firstFailure? options :=
  firstFailure?_eq_of_forall hf.sameShape.size_nodes fun _ _ hx => hf.failure?_eq hg hx

theorem Alike.firstFailure?_eq (a : Alike g h) (hg : g.WellFormed) (hh : h.WellFormed) :
    h.firstFailure? options = g.firstFailure? options :=
  firstFailure?_eq_of_forall a.size_nodes fun n x hx => by
    rw [failure?, failure?, a.replacement?_eq hg hh hx]

end Graph

namespace Edit

/-- A round fails with what folding fails with at the first node at which it fails. -/
theorem findSome?_failure?_eq (hg : g.WellFormed)
    (hnodes : ∀ n ∈ nodes, ∃ x, g.nodes[n.index]? = some x) (report : FoldReport) :
    nodes.findSome? (g.failure? options) =
      match (foldNodes options nodes report).run g with
      | .ok _ _ => none
      | .error e _ => some e := by
  induction nodes generalizing g report with
  | nil => rfl
  | cons n nodes ih =>
    obtain ⟨⟨x, hx⟩, hrest⟩ := List.forall_mem_cons.mp hnodes
    rw [run_foldNodes_cons hg hx, List.findSome?_cons]
    cases hr : g.replacement? options n with
    | error e => simp [failure?, hr]
    | ok v? =>
      have hnone : g.failure? options n = none := by rw [failure?, hr]
      rw [hnone]
      cases v? with
      | none => exact ih hg hrest report
      | some v =>
        obtain ⟨hd, hs⟩ := restates_of_node_eq hx hr
        refine Eq.trans (findSome?_congr fun m hm => ?_)
          (ih (hg.fold hx hs) (fun m hm => exists_node_fold (hrest m hm) n x.result v) _)
        obtain ⟨y, hy⟩ := hrest m hm
        exact (hg.failure?_fold hy hx hd hs).symm

end Edit

namespace Graph

theorem WellFormed.firstFailure?_eq_of_round (hg : g.WellFormed) (report : FoldReport) :
    g.firstFailure? options =
      match (Edit.foldNodes options g.live report).run g with
      | .ok _ _ => none
      | .error e _ => some e := by
  rw [← findSome?_live]
  exact Edit.findSome?_failure?_eq hg (fun _ => exists_node_of_mem_live) report

/-- A pass over an ordered graph fails with what folding fails with at the oldest node at which it
fails. -/
theorem OrderedReachable.exists_error_of_firstFailure? (h : g.OrderedReachable)
    (hfirst : g.firstFailure? options = some e) (hs : options'.structural = options.structural)
    (hbound : 0 < options'.maxRounds) : ∃ g', (Edit.foldAll options').run g = .error e g' := by
  rw [h.wellFormed.firstFailure?_eq_of_round { rounds := 1 }] at hfirst
  cases hround : (Edit.foldNodes options g.live { rounds := 1 }).run g with
  | ok report g' => simp [hround] at hfirst
  | error e' g' =>
    obtain rfl : e' = e := by simpa [hround] using hfirst
    exact ⟨g', OrderedReachable.run_foldAll_of_round_error hround hs hbound⟩

end Graph

end DeferredIR
