import DeferredIR.Fold.Rounds
import DeferredIR.Proofs.Fold.Restates
import DeferredIR.Proofs.Graph.Live

/-!
# Passes as sequences of folds

On a well-formed graph, folding one node never faults: it replaces the result of the node, if there
is anything to replace, and retires the node. A pass is a sequence of such folds, also where it ends
with an error.
-/

namespace DeferredIR

open Check

namespace Graph

variable {g g' : Graph} {options : FoldOptions} {n : NodeId} {node : Node} {v old new : ValueId}

/-! ## One fold -/

/-- `g` with `n` retired and `new` in the place of its result `old`. -/
def fold (g : Graph) (n : NodeId) (old new : ValueId) : Graph :=
  (if old = new then g else g.redirect old new).retire n

theorem sameFrame_fold (g : Graph) (n : NodeId) (old new : ValueId) :
    SameFrame g (g.fold n old new) := by
  unfold fold
  split
  · exact sameFrame_retire g n
  · exact (sameFrame_redirect g old new).trans (sameFrame_retire _ n)

@[simp] theorem typeOf_fold (g : Graph) (n : NodeId) (old new w : ValueId) :
    (g.fold n old new).typeOf w = g.typeOf w := by
  unfold fold
  split <;> simp

theorem sameShape_fold (g : Graph) (n : NodeId) (old new : ValueId) :
    SameShape g (g.fold n old new) :=
  ⟨sameFrame_fold g n old new, by unfold fold; split <;> rfl, typeOf_fold g n old new⟩

theorem WellFormed.fold (h : g.WellFormed) (hn : g.nodes[n.index]? = some node)
    (hr : g.Restates options node v) : (g.fold n node.result v).WellFormed := by
  unfold Graph.fold
  split
  · exact h.retire n
  · exact (h.redirect ‹_› (h.owner?_result hn) (hr.owner? h hn)).retire n

/-- A fold leaves each operand slot as it is, unless it read what was replaced. -/
theorem WellFormed.of_nodes_fold (h : g.WellFormed) {m : NodeId} {y : Node}
    (hy : (g.fold n old new).nodes[m.index]? = some y) :
    ∃ x, g.nodes[m.index]? = some x ∧ x.frame = y.frame ∧ (y.dead = false → x.dead = false) ∧
      ∀ slot : Nat, y.operands[slot]? = x.operands[slot]? ∨
        x.operands[slot]? = some old ∧ y.operands[slot]? = some new := by
  rw [Graph.fold, getElem?_nodes_retire, Option.map_eq_some_iff] at hy
  obtain ⟨z, hz, hzy⟩ := hy
  have hyz : y.frame = z.frame ∧ y.operands = z.operands ∧ (y.dead = false → z.dead = false) := by
    subst hzy
    split <;> simp [Node.frame]
  obtain ⟨hframe, hops, hdead⟩ := hyz
  rw [hframe, hops]
  split at hz
  · exact ⟨z, hz, rfl, hdead, fun slot => .inl rfl⟩
  · rcases h.of_nodes_redirect hz with ⟨x, hx, ⟨-, rfl⟩ | ⟨hxd, rfl⟩⟩
    · exact ⟨z, hx, rfl, hdead, fun slot => .inl rfl⟩
    · refine ⟨x, hx, by simp [Node.frame], fun _ => hxd, fun slot => ?_⟩
      rw [List.getElem?_map]
      cases hs : x.operands[slot]? with
      | none => exact .inl rfl
      | some w =>
        by_cases hw : w = old
        · exact .inr ⟨by rw [hw], by simp [hw]⟩
        · exact .inl (by simp [hw])

/-- The recorded readers of a value are operand slots. -/
theorem WellFormed.readers_eq (h : g.WellFormed) (ho : old.index < g.values.size)
    (hn : new.index < g.values.size) : g.readers old new = .ok (g.usesOf old) := by
  have hold := Array.getElem?_eq_getElem ho
  have hnew := Array.getElem?_eq_getElem hn
  unfold readers
  simp only [bind_eq_ok, value_eq_ok, pure_eq_ok]
  refine ⟨_, hold, ⟨⟩, forM_eq_ok.mpr fun u hu => ?_, ⟨⟩, ?_, (usesOf_of_value hold).symm⟩
  · rw [← usesOf_of_value hold] at hu
    obtain ⟨x, hx, -, hs⟩ := h.exists_of_mem_uses hu
    exact bind_eq_ok.mpr ⟨x, node_eq_ok.mpr hx, discard_eq_ok.mpr ⟨old, operand_eq_ok.mpr hs⟩⟩
  · exact discard_eq_ok.mpr ⟨_, value_eq_ok.mpr hnew⟩

theorem WellFormed.readable_eq (h : g.WellFormed) (hn : g.nodes[n.index]? = some node) :
    g.readable n = .ok node := by
  unfold readable
  rw [node_eq_ok.mpr hn]
  show (if node.dead then pure node else _) = _
  split
  · rfl
  · have hall : node.operands.forM (fun v => discard (g.value v)) = .ok () :=
      forM_eq_ok.mpr fun v hv => discard_eq_ok.mpr
        ⟨_, value_eq_ok.mpr (Array.getElem?_eq_getElem (h.lt_of_mem_operands hn hv))⟩
    rw [hall]
    rfl

end Graph

namespace Edit

open DeferredIR.Graph

variable {g g' : Graph} {options : FoldOptions} {n : NodeId} {node : Node} {v old new : ValueId}

theorem run_bind_of_ok {α β : Type} {x : Edit α} {f : α → Edit β} {a : α}
    (hx : x.run g = .ok a g') : (x >>= f).run g = (f a).run g' := by
  rw [EStateM.run_bind, hx]

theorem run_bind_of_error {α β : Type} {x : Edit α} {f : α → Edit β} {e : Error}
    (hx : x.run g = .error e g') : (x >>= f).run g = .error e g' := by
  rw [EStateM.run_bind, hx]

theorem run_map_of_ok {α β : Type} {x : Edit α} {φ : α → β} {a : α} (hx : x.run g = .ok a g') :
    (φ <$> x).run g = .ok (φ a) g' := by
  rw [EStateM.run] at hx
  simp only [EStateM.run, Functor.map, EStateM.map, hx]

theorem run_read_of_ok {m : Type → Type} [MonadLiftT m (Except Error)] {α : Type} {f : Graph → m α}
    {a : α} (h : (liftM (f g) : Except Error α) = .ok a) : (Edit.read f).run g = .ok a g := by
  rw [run_read, h]

theorem run_read_of_error {m : Type → Type} [MonadLiftT m (Except Error)] {α : Type}
    {f : Graph → m α} {e : Error} (h : (liftM (f g) : Except Error α) = .error e) :
    (Edit.read f).run g = .error e g := by
  rw [run_read, h]

theorem run_discard_of_ok {α : Type} {x : Edit α} {a : α} (hx : x.run g = .ok a g') :
    (discard x).run g = .ok () g' := by
  show (x >>= fun _ => pure ()).run g = _
  rw [run_bind_of_ok hx]
  rfl

/-- On a well-formed graph, replacing an existing value by another does not fault. -/
theorem run_redirect_eq (h : g.WellFormed) (ho : old.index < g.values.size)
    (hn : new.index < g.values.size) : (redirect old new).run g =
      .ok (if old = new then 0 else (g.usesOf old).length)
        (if old = new then g else g.redirect old new) := by
  rw [run_redirect, h.readers_eq ho hn]
  split <;> rfl

theorem run_retire_of_live (h : g.WellFormed) (hn : g.nodes[n.index]? = some node)
    (hd : node.dead = false) : (retire n).run g = .ok () (g.retire n) := by
  rw [run_retire, h.readable_eq hn]
  simp [hd]

theorem run_retire_of_dead (h : g.WellFormed) (hn : g.nodes[n.index]? = some node)
    (hd : node.dead = true) : (retire n).run g = .ok () g := by
  rw [run_retire, h.readable_eq hn]
  simp [hd]

theorem run_foldNode_error {e : Error} (hr : g.replacement? options n = .error e) :
    (foldNode options n).run g = .error e g :=
  run_bind_of_error (run_read_of_error hr)

theorem run_foldNode_none (hr : g.replacement? options n = .ok none) :
    (foldNode options n).run g = .ok none g := by
  rw [foldNode, run_bind_of_ok (run_read_of_ok hr)]
  rfl

/-- What a fold does after it replaced the result of `n`. -/
theorem run_retire_of_restates (h : g.WellFormed) (hn : g.nodes[n.index]? = some node)
    (hd : node.dead = false) (hr : g.Restates options node v) :
    (retire n).run (if node.result = v then g else g.redirect node.result v) =
      .ok () (g.fold n node.result v) := by
  rw [fold]
  split
  · exact run_retire_of_live h hn hd
  · have hwf := h.redirect ‹_› (h.owner?_result hn) (hr.owner? h hn)
    exact run_retire_of_live hwf (by rw [h.nodes_redirect, hn]; rfl) (by simp [hd])

theorem run_foldNode_some (h : g.WellFormed) (hn : g.nodes[n.index]? = some node)
    (hr : g.replacement? options n = .ok (some v)) :
    (foldNode options n).run g = .ok (some node.opcode) (g.fold n node.result v) := by
  obtain ⟨hd, hs⟩ := restates_of_node_eq hn hr
  have hredirect :=
    run_redirect_eq h (lt_of_owner? (h.owner?_result hn)) (lt_of_owner? (hs.owner? h hn))
  calc (foldNode options n).run g
      = (do
          let node ← read fun g => g.node n
          discard (redirect node.result v)
          retire n
          return some node.opcode : Edit (Option Opcode)).run g := by
        rw [foldNode, run_bind_of_ok (run_read_of_ok hr)]
    _ = (do
          discard (redirect node.result v)
          retire n
          return some node.opcode : Edit (Option Opcode)).run g :=
        run_bind_of_ok (run_read_of_ok (liftM_eq_ok.mpr (node_eq_ok.mpr hn)))
    _ = (do
          retire n
          return some node.opcode : Edit (Option Opcode)).run
            (if node.result = v then g else g.redirect node.result v) :=
        run_bind_of_ok (run_discard_of_ok hredirect)
    _ = .ok (some node.opcode) (g.fold n node.result v) :=
        run_bind_of_ok (run_retire_of_restates h hn hd hs)

/-- The graph that an edit leaves, whether it fails or not. -/
def after {α : Type} (x : Edit α) (g : Graph) : Graph :=
  match x.run g with
  | .ok _ g' => g'
  | .error _ g' => g'

theorem after_of_ok {α : Type} {x : Edit α} {a : α} (h : x.run g = .ok a g') : x.after g = g' := by
  rw [after, h]

theorem after_of_error {α : Type} {x : Edit α} {e : Error} (h : x.run g = .error e g') :
    x.after g = g' := by
  rw [after, h]

theorem run_of_run' {α : Type} {z : Edit α} {a : α} (ha : z.run' g = some a) :
    z.run g = .ok a (z.after g) := by
  delta EStateM.run' at ha
  cases hrun : z.run g with
  | error e k =>
    rw [hrun] at ha
    cases ha
  | ok b k =>
    rw [hrun] at ha
    rw [Option.some.inj ha, after_of_ok hrun]

end Edit

/-! ## Many folds -/

namespace Graph

variable {g g' g'' : Graph} {options : FoldOptions} {n : NodeId} {node : Node} {v : ValueId}
variable {trace trace' : List (NodeId × ValueId)}

/-- `Folds options g trace g'`: the folds of `trace`, each of a node into what it restates, lead
from `g` to `g'`. -/
inductive Folds (options : FoldOptions) : Graph → List (NodeId × ValueId) → Graph → Prop where
  | nil (g : Graph) : Folds options g [] g
  | cons {g g' : Graph} {n : NodeId} {node : Node} {v : ValueId} {trace : List (NodeId × ValueId)}
      (node_eq : g.nodes[n.index]? = some node)
      (replacement : g.replacement? options n = .ok (some v))
      (rest : Folds options (g.fold n node.result v) trace g') :
      Folds options g ((n, v) :: trace) g'

namespace Folds

theorem append (h : Folds options g trace g') (h' : Folds options g' trace' g'') :
    Folds options g (trace ++ trace') g'' := by
  induction h with
  | nil => exact h'
  | cons hn hr _ ih => exact .cons hn hr (ih h')

/-- Each fold of a sequence is one of the graph that the folds before it lead to. -/
theorem exists_of_mem (h : Folds options g trace g') {p : NodeId × ValueId} (hp : p ∈ trace) :
    ∃ before k x, Folds options g before k ∧ k.nodes[p.1.index]? = some x ∧
      k.replacement? options p.1 = .ok (some p.2) := by
  induction h with
  | nil => exact absurd hp List.not_mem_nil
  | cons hn hr _ ih =>
    rcases List.mem_cons.mp hp with rfl | hp
    · exact ⟨[], _, _, .nil _, hn, hr⟩
    · obtain ⟨before, k, x, hk, hx, hx'⟩ := ih hp
      exact ⟨_, k, x, .cons hn hr hk, hx, hx'⟩

theorem sameShape (h : Folds options g trace g') : SameShape g g' := by
  induction h with
  | nil => exact .refl _
  | cons _ _ _ ih => exact (sameShape_fold ..).trans ih

/-- What each fold of a live node on a well-formed graph keeps, a sequence of folds keeps. -/
theorem preserves {P : Graph → Prop}
    (hP : ∀ {g : Graph} {n : NodeId} {node : Node} {v : ValueId}, g.WellFormed → P g →
      g.nodes[n.index]? = some node → node.dead = false → g.Restates options node v →
      P (g.fold n node.result v))
    (h : Folds options g trace g') (hwf : g.WellFormed) (hg : P g) : g'.WellFormed ∧ P g' := by
  induction h with
  | nil => exact ⟨hwf, hg⟩
  | cons hn hr _ ih =>
    obtain ⟨hd, hs⟩ := restates_of_node_eq hn hr
    exact ih (hwf.fold hn hs) (hP hwf hg hn hd hs)

theorem wellFormed (h : Folds options g trace g') (hwf : g.WellFormed) : g'.WellFormed :=
  (h.preserves (P := fun _ => True) (fun _ _ _ _ _ => trivial) hwf trivial).1

end Folds

/-- The folds that are made when the given nodes are folded in turn: which node, and into what. -/
def foldTrace (options : FoldOptions) : List NodeId → Graph → List (NodeId × ValueId)
  | [], _ => []
  | n :: nodes, g =>
      match g.replacement? options n, (Edit.foldNode options n).run g with
      | .ok (some v), .ok _ g' => (n, v) :: foldTrace options nodes g'
      | .ok none, .ok _ g' => foldTrace options nodes g'
      | _, _ => []

/-- The folds of the rounds of a pass. -/
def roundsTrace (options : FoldOptions) : Nat → FoldReport → Graph → List (NodeId × ValueId)
  | 0, _, _ => []
  | bound + 1, report, g =>
      foldTrace options g.live g ++
        match (Edit.foldNodes options g.live report.addRound).run g with
        | .ok after g' =>
            if after.folded = report.folded then [] else roundsTrace options bound after g'
        | .error .. => []

theorem folds_foldNodes (h : g.WellFormed) (nodes : List NodeId) (report : FoldReport) :
    Folds options g (foldTrace options nodes g)
      ((Edit.foldNodes options nodes report).after g) := by
  induction nodes generalizing g report with
  | nil => exact .nil g
  | cons n nodes ih =>
    cases hr : g.replacement? options n with
    | error e =>
      have hrun := Edit.run_foldNode_error hr
      rw [Edit.foldNodes, Edit.after_of_error (Edit.run_bind_of_error hrun)]
      simp only [foldTrace, hr, hrun]
      exact .nil g
    | ok v? =>
      cases v? with
      | none =>
        have hrun := Edit.run_foldNode_none hr
        rw [Edit.foldNodes, Edit.after, Edit.run_bind_of_ok hrun]
        simp only [foldTrace, hr, hrun]
        exact ih h report
      | some v =>
        obtain ⟨node, hn, hd, hs⟩ := restates_of_replacement? hr
        have hrun := Edit.run_foldNode_some h hn hr
        rw [Edit.foldNodes, Edit.after, Edit.run_bind_of_ok hrun]
        simp only [foldTrace, hr, hrun]
        exact .cons hn hr (ih (h.fold hn hs) (report.addFold node.opcode))

/-- A round that succeeds ends where its folds lead to. -/
theorem folds_of_run_foldNodes {nodes : List NodeId} {report report' : FoldReport}
    (h : g.WellFormed) (hrun : (Edit.foldNodes options nodes report).run g = .ok report' g') :
    Folds options g (foldTrace options nodes g) g' :=
  Edit.after_of_ok hrun ▸ folds_foldNodes h nodes report

theorem folds_foldRounds (h : g.WellFormed) (bound : Nat) (report : FoldReport) :
    Folds options g (roundsTrace options bound report g)
      ((Edit.foldRounds options bound report).after g) := by
  induction bound generalizing g report with
  | zero => exact .nil g
  | succ bound ih =>
    have hround : Folds options g _ _ := folds_foldNodes h g.live report.addRound
    have hget : (get : Edit Graph).run g = .ok g g := rfl
    rw [Edit.foldRounds, Edit.after, Edit.run_bind_of_ok hget]
    rw [Edit.after] at hround
    cases hrun : (Edit.foldNodes options g.live report.addRound).run g with
    | error e g' =>
      rw [hrun] at hround
      rw [Edit.run_bind_of_error hrun]
      simpa only [roundsTrace, hrun, List.append_nil] using hround
    | ok after g' =>
      rw [hrun] at hround
      rw [Edit.run_bind_of_ok hrun]
      simp only [roundsTrace, hrun]
      split
      · simpa using hround
      · exact hround.append (ih (hround.wellFormed h) after)

end Graph

end DeferredIR
