import DeferredIR.Proofs.Fold.Commute
import DeferredIR.Proofs.History

/-!
# What a pass changes

A sequence of folds changes what operand slots read, in as many steps as there are folds, and each
step puts a value of one owner and one type in the place of another. So a slot ends with a value of
the owner and the type that it began with, and it is changed at all only if it began with the result
of a node that folded.
-/

namespace DeferredIR

open DeferredIR.Graph

namespace Graph

variable {g g' : Graph} {options : FoldOptions} {n m : NodeId} {x y : Node} {u v w : ValueId}
variable {trace : List (NodeId × ValueId)} {p : NodeId × ValueId}

/-! ## Operand slots -/

/-- `w` may stand in the place of `v` after the folds of `trace`. -/
structure StandsFor (g : Graph) (trace : List (NodeId × ValueId)) (w v : ValueId) : Prop where
  owner : g.owner? w = g.owner? v
  type : g.typeOf w = g.typeOf v
  /-- Only results of nodes that folded are replaced. -/
  replaced : w ≠ v → ∃ p ∈ trace, g.resultOf? p.1 = some v

theorem StandsFor.refl (g : Graph) (trace : List (NodeId × ValueId)) (v : ValueId) :
    g.StandsFor trace v v :=
  ⟨rfl, rfl, fun hne => absurd rfl hne⟩

/-- What a node restates may stand in the place of its result. -/
theorem Restates.standsFor (hr : g.Restates options x v) (hg : g.WellFormed)
    (hx : g.nodes[n.index]? = some x) : g.StandsFor [(n, v)] v x.result where
  owner := (hr.owner? hg hx).trans (hg.owner?_result hx).symm
  type := hr.typeOf_eq
  replaced _ := ⟨_, List.mem_singleton_self _, by rw [resultOf?, hx]; rfl⟩

theorem StandsFor.cons (hu : g.StandsFor [p] u v) (s : SameShape g g')
    (hw : g'.StandsFor trace w u) : g.StandsFor (p :: trace) w v where
  owner := by
    rw [← s.owner? w, hw.owner, s.owner?, hu.owner]
  type := by
    rw [← s.typeOf w, hw.type, s.typeOf, hu.type]
  replaced hne := by
    by_cases he : u = v
    · subst he
      obtain ⟨q, hq, hresult⟩ := hw.replaced hne
      exact ⟨q, List.mem_cons_of_mem p hq, (s.resultOf? q.1).symm.trans hresult⟩
    · obtain ⟨q, hq, hresult⟩ := hu.replaced he
      obtain rfl := List.mem_singleton.mp hq
      exact ⟨q, List.mem_cons_self, hresult⟩

/-- After folds each slot reads what may stand for the value that it read before. -/
theorem Folds.exists_standsFor (hf : Folds options g trace g') (hg : g.WellFormed)
    (hy : g'.nodes[n.index]? = some y) :
    ∃ x, g.nodes[n.index]? = some x ∧ ∀ (slot : Nat) (w : ValueId), y.operands[slot]? = some w →
      ∃ v, x.operands[slot]? = some v ∧ g.StandsFor trace w v := by
  induction hf with
  | nil g => exact ⟨y, hy, fun slot w hw => ⟨w, hw, .refl g [] w⟩⟩
  | @cons g g' m z r trace hz hr _ ih =>
    obtain ⟨-, hs⟩ := restates_of_node_eq hz hr
    obtain ⟨x', hx', hslots'⟩ := ih (hg.fold hz hs) hy
    obtain ⟨x, hx, -, -, hslots⟩ := hg.of_nodes_fold hx'
    refine ⟨x, hx, fun slot w hw => ?_⟩
    obtain ⟨u, hu, hwu⟩ := hslots' slot w hw
    rcases hslots slot with he | ⟨hold, hnew⟩
    · exact ⟨u, he.symm.trans hu, .cons (.refl g _ u) (sameShape_fold ..) hwu⟩
    · obtain rfl : r = u := Option.some.inj (hnew.symm.trans hu)
      exact ⟨z.result, hold, .cons (hs.standsFor hg hz) (sameShape_fold ..) hwu⟩

/-! ## Passes -/

/-- A pass, whether it fails or not, changes only operands, use lists and dead marks, and dead nodes
not at all. An operand slot ends with a value of the owner and the type of the value that it began
with, and with that value itself unless it is the result of a node that the pass folded. -/
theorem Reachable.foldAll_keeps_types (h : g.Reachable) (options : FoldOptions) :
    let g' := ((Command.foldAll options).run g).2
    SameShape g g' ∧
    (∀ (n : NodeId) (x : Node), g.nodes[n.index]? = some x → x.dead = true →
      g'.nodes[n.index]? = some x) ∧
    ∀ (n : NodeId) (x y : Node), g.nodes[n.index]? = some x → g'.nodes[n.index]? = some y →
      ∀ (slot : Nat) (v w : ValueId), x.operands[slot]? = some v → y.operands[slot]? = some w →
        g.owner? v = some x.func ∧ g'.owner? w = some x.func ∧ g'.typeOf w = g.typeOf v ∧
        ((∀ m ∈ g.live, g.resultOf? m = some v → m ∈ g'.live) → w = v) := by
  intro g'
  have hwf := h.wellFormed
  have hfolds : Folds options g _ g' := Command.folds_foldAll hwf options
  refine ⟨hfolds.sameShape, fun n x hx hd => ?_, fun n x y hx hy slot v w hv hw => ?_⟩
  · obtain ⟨y, hy, -, hdead⟩ := (hfolds.extends hwf).node n x hx
    rw [hy, hdead hd]
  · obtain ⟨x', hx', hslots⟩ := hfolds.exists_standsFor hwf hy
    obtain rfl := Option.some.inj (hx.symm.trans hx')
    obtain ⟨v', hv', hstands⟩ := hslots slot w hw
    obtain rfl := Option.some.inj (hv.symm.trans hv')
    have howner := hwf.operand_owner hx (List.mem_of_getElem? hv)
    refine ⟨howner, ?_, ?_, fun hlive => ?_⟩
    · rw [hfolds.sameShape.owner?, hstands.owner, howner]
    · rw [hfolds.sameShape.typeOf, hstands.type]
    · by_contra hne
      obtain ⟨p, hp, hresult⟩ := hstands.replaced hne
      have hkept := hlive p.1 (hfolds.mem_live_of_mem hwf hp) hresult
      exact ((hfolds.mem_live_iff hwf).mp hkept).2 (List.mem_map_of_mem hp)

/-- A pass that fails, over a graph in which one node reads its own result: the cast before the
failing node folds, and its reader comes to read what the cast read. -/
theorem foldAll_keeps_types_of_failing_pass :
    let g := (ofTable { names := ["int"] }).after
      [.addFunc "f" [⟨1⟩], .build ⟨0⟩ {} (.iter ⟨0⟩), .build ⟨0⟩ {} (.cast ⟨0⟩ ⟨1⟩),
        .replace ⟨0⟩ ⟨1⟩, .assignType ⟨1⟩ ⟨1⟩, .build ⟨0⟩ {} (.binop ⟨2⟩ ⟨0⟩ "+"),
        .build ⟨0⟩ {} (.arg 1 "x")]
    let g' := ((Command.foldAll {}).run g).2
    ((Command.foldAll {}).run g).1 = .error (.inconsistent (.argumentOutOfRange ⟨3⟩ 1 1)) ∧
      (g.nodes[2]?.map Node.operands = some [⟨2⟩, ⟨0⟩] ∧
        g'.nodes[2]?.map Node.operands = some [⟨1⟩, ⟨0⟩]) ∧
      g'.owner? ⟨1⟩ = some ⟨0⟩ ∧ g'.typeOf ⟨1⟩ = g.typeOf ⟨2⟩ := by
  intro g g'
  have h : g.Reachable := ⟨_, _, rfl⟩
  have hx : g.nodes[2]? = some ⟨.binop "+", [⟨2⟩, ⟨0⟩], ⟨3⟩, ⟨0⟩, false⟩ := by
    unfold g
    rfl
  have hy : g'.nodes[2]? = some ⟨.binop "+", [⟨1⟩, ⟨0⟩], ⟨3⟩, ⟨0⟩, false⟩ := by
    unfold g' g
    rfl
  have herror : ((Command.foldAll {}).run g).1 =
      .error (.inconsistent (.argumentOutOfRange ⟨3⟩ 1 1)) := by
    unfold g
    rfl
  have hg' : ((Command.foldAll {}).run g).2 = g' := by unfold g'; rfl
  -- From here on it does not matter how the graphs were made.
  clear_value g'
  clear_value g
  have hkeeps := h.foldAll_keeps_types {}
  rw [hg'] at hkeeps
  obtain ⟨-, -, hslots⟩ := hkeeps
  obtain ⟨-, howner, htype, -⟩ := hslots ⟨2⟩ _ _ hx hy 0 ⟨2⟩ ⟨1⟩ rfl rfl
  exact ⟨herror, ⟨by rw [hx]; rfl, by rw [hy]; rfl⟩, howner, htype⟩

end Graph

end DeferredIR
