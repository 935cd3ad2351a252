import DeferredIR.Proofs.Graph.Folded
import DeferredIR.Proofs.Graph.Verification

/-!
# Ordered runs

Builds and folds make nodes read older values only, and so do replacements that put an older value
in the place of a newer one. In a graph where every node reads older values, what a node restates is
older than its result, so no node folds onto itself and no live node reads the result of a dead one.
-/

namespace DeferredIR

open DeferredIR.Graph Relation

variable {g g' : Graph} {n : NodeId} {node : Node} {v old new : ValueId} {f : FuncId}
variable {options : FoldOptions}

/-- `new` was made no later than `old`. -/
def ValueId.NoNewer (old new : ValueId) : Prop := new.index ≤ old.index

/-- The command is no accepted replacement by a newer value. -/
def Command.Ordered : Command → Graph → Prop
  | replace old new, g => ((replace old new).run g).1.isOk → old.NoNewer new
  | _, _ => True

namespace Graph

/-- The graphs that ordered commands can make. -/
inductive OrderedReachable : Graph → Prop where
  | init (table : TypeTable) : OrderedReachable (ofTable table)
  | run {g : Graph} {c : Command} (reachable : OrderedReachable g) (ordered : c.Ordered g) :
      OrderedReachable (c.run g).2

/-- Every node reads values that are older than its result. -/
def Ordered (g : Graph) : Prop :=
  ∀ (n : NodeId) (node : Node), g.nodes[n.index]? = some node → ∀ v ∈ node.operands,
    v.index < node.result.index

/-! ## Changes -/

/-- A fold rule never leads to a newer value: items of a tuple are older than the tuple, and formal
arguments are older than the nodes of their function. -/
theorem Restates.index_lt (hr : g.Restates options node v) (h : g.WellFormed) (ho : g.Ordered)
    (hn : g.nodes[n.index]? = some node) : v.index < node.result.index := by
  cases hr with
  | arg _ hf _ => exact h.formal_lt hn hf
  | cast _ hv _ => exact ho n node hn v (List.mem_of_getElem? hv)
  | @projection index container tuple _ _ hc ht hv _ =>
    obtain ⟨t, horigin, htn, -⟩ := ht
    obtain ⟨x, hx, hresult⟩ := h.exists_node horigin
    obtain rfl : tuple = x := Option.some.inj (htn.symm.trans hx)
    calc v.index < tuple.result.index := ho t tuple htn v (List.mem_of_getElem? hv)
      _ = container.index := congrArg ValueId.index hresult
      _ < node.result.index := ho n node hn container (List.mem_of_getElem? hc)

theorem Ordered.redirect (ho : g.Ordered) (h : g.WellFormed) (hle : old.NoNewer new) :
    (g.redirect old new).Ordered := by
  intro n node hn v hv
  rcases h.of_nodes_redirect hn with ⟨x, hx, ⟨-, rfl⟩ | ⟨-, rfl⟩⟩
  · exact ho n node hx v hv
  · obtain ⟨w, hw, rfl⟩ := List.mem_map.mp hv
    have hlt := ho n x hx w hw
    split
    · rename_i heq
      exact Nat.lt_of_le_of_lt hle (heq ▸ hlt)
    · exact hlt

theorem Ordered.retire (ho : g.Ordered) (n : NodeId) : (g.retire n).Ordered := by
  intro m node hm v hv
  rw [getElem?_nodes_retire, Option.map_eq_some_iff] at hm
  obtain ⟨x, hx, rfl⟩ := hm
  have hlt := ho m x hx v (by split at hv <;> exact hv)
  split <;> exact hlt

theorem Ordered.append (ho : g.Ordered) {d : Draft}
    (hd : ∀ v ∈ d.operands, v.index < g.values.size) : (g.append f d).Ordered := by
  intro n node hn v hv
  rw [getElem?_nodes_append] at hn
  split at hn
  · obtain rfl := Option.some.inj hn
    exact hd v hv
  · exact ho n node hn v hv

theorem Ordered.step (ho : g.Ordered) (h : g.WellFormed) (hs : Step ValueId.NoNewer g g') :
    g'.Ordered := by
  cases hs with
  | intern _ => exact ho
  | appendFunc _ => exact ho
  | append hd => exact ho.append (lt_of_requireDraft hd)
  | assignType _ => exact ho
  | redirect _ _ hle => exact ho.redirect h hle
  | retire _ _ _ => exact ho.retire _

theorem Ordered.fold (ho : g.Ordered) (h : g.WellFormed) (hn : g.nodes[n.index]? = some node)
    (hr : g.Restates options node v) : (g.fold n node.result v).Ordered := by
  have hle : node.result.NoNewer v := Nat.le_of_lt (hr.index_lt h ho hn)
  unfold Graph.fold
  split
  · exact ho.retire n
  · exact (ho.redirect h hle).retire n

/-- A pass replaces results by older values. -/
theorem Folds.index_lt {trace : List (NodeId × ValueId)} (hf : Folds options g trace g')
    (h : g.WellFormed) (ho : g.Ordered) :
    ∀ p ∈ trace, ∃ r, g.resultOf? p.1 = some r ∧ p.2.index < r.index := by
  intro p hp
  obtain ⟨before, k, x, hk, hx, hr⟩ := hf.exists_of_mem hp
  obtain ⟨-, hs⟩ := restates_of_node_eq hx hr
  obtain ⟨hwf, hok⟩ := hk.preserves (fun hwf ho hn _ hr => ho.fold hwf hn hr) h ho
  refine ⟨x.result, ?_, hs.index_lt hwf hok hx⟩
  rw [← hk.sameShape.resultOf?, resultOf?, hx]
  rfl

end Graph

/-! ## Runs -/

theorem Command.Ordered.noNewer {c : Command} (hc : c.Ordered g) (h : g.WellFormed)
    (heq : c = .replace old new) (hr : g.requireReplaceable old new = .ok ()) :
    old.NoNewer new := by
  subst heq
  obtain ⟨count, hrun⟩ := Edit.run_replace_of_ok h hr
  refine hc ?_
  rw [run, edit, Edit.run_map_of_ok hrun]
  rfl

namespace Graph.OrderedReachable

theorem invariant (h : g.OrderedReachable) :
    g.WellFormed ∧ g.Ordered ∧ g.Unread fun _ => False := by
  induction h with
  | init table =>
    refine ⟨wellFormed_ofTable table, ?_, ?_⟩
    · intro n node hn
      simp [ofTable] at hn
    · rintro v ⟨n, node, ho, -⟩
      simp [origin?, ofTable] at ho
  | @run g c _ hc ih =>
    obtain ⟨hwf, hinv⟩ := ih
    refine Command.run_preserves (R := ValueId.NoNewer)
      (P := fun g => g.Ordered ∧ g.Unread fun _ => False) ?_ ?_ (hc.noNewer hwf) hwf hinv
    · rintro g g' hwf ⟨ho, hu⟩ hs
      exact ⟨ho.step hwf hs, hu.step hwf hs⟩
    · rintro g options n node v hwf ⟨ho, hu⟩ hn hd hr
      have hlt := hr.index_lt hwf ho hn
      refine ⟨ho.fold hwf hn hr, hu.fold hwf hn hd hr ?_⟩
      rintro rfl
      exact Nat.lt_irrefl _ hlt

theorem wellFormed (h : g.OrderedReachable) : g.WellFormed := h.invariant.1

theorem ordered (h : g.OrderedReachable) : g.Ordered := h.invariant.2.1

theorem usesOf_of_folded (h : g.OrderedReachable) (hv : g.Folded v) : g.usesOf v = [] :=
  h.invariant.2.2 v hv not_false

theorem available (h : g.OrderedReachable) (hn : g.nodes[n.index]? = some node)
    (hd : node.dead = false) (hv : v ∈ node.operands) : g.Available node.func v := by
  refine h.wellFormed.available hn hv fun hfolded => ?_
  obtain ⟨slot, hslot⟩ := List.mem_iff_getElem?.mp hv
  exact List.ne_nil_of_mem (h.wellFormed.mem_uses hn hd hslot) (h.usesOf_of_folded hfolded)

theorem reachable (h : g.OrderedReachable) : g.Reachable := by
  induction h with
  | init table => exact ⟨table, [], rfl⟩
  | @run g c _ _ ih =>
    obtain ⟨table, script, rfl⟩ := ih
    exact ⟨table, script ++ [c], by rw [Graph.after, Graph.after, List.foldl_append]; rfl⟩

/-- A script is ordered if none of its replacements is by a newer value. -/
theorem after (h : g.OrderedReachable) {script : List Command}
    (hs : ∀ old new, .replace old new ∈ script → old.NoNewer new) :
    (g.after script).OrderedReachable := by
  induction script generalizing g with
  | nil => exact h
  | cons c script ih =>
    refine ih (h.run ?_) fun old new hm => hs old new (List.mem_cons_of_mem _ hm)
    cases c with
    | replace old new => exact fun _ => hs old new List.mem_cons_self
    | _ => trivial

/-- What a new node restates is older than its result. -/
theorem lt_nextValue (h : g.OrderedReachable) {d : Draft} (hd : g.requireDraft f d = .ok ())
    (hr : (g.append f d).localReplacement? options g.nextNode = .ok (some v)) :
    v.index < g.nextValue.index := by
  obtain ⟨hwf, -⟩ := Edit.append_of_requireDraft h.wellFormed hd
  obtain ⟨node, hn, hs, -⟩ := restates_of_localReplacement? hr
  have ho := h.ordered.step h.wellFormed (.append hd)
  have hlt := hs.index_lt hwf ho hn
  rw [getElem?_nodes_append_nextNode] at hn
  obtain rfl := Option.some.inj hn
  exact hlt

/-- Every live node reads older values, which are formal arguments of its function or results of
live nodes of its function, and nothing reads the result of a dead node. What a node folds into, as
it is built or in a pass, is older than its result. So verification finds nothing, whether the last
command failed or not. -/
theorem reads_older_available (h : g.OrderedReachable) :
    (∀ (n : NodeId) (node : Node), g.nodes[n.index]? = some node → node.dead = false →
      ∀ v ∈ node.operands, v.index < node.result.index ∧ g.Available node.func v) ∧
    (∀ (n : NodeId) (node : Node), g.nodes[n.index]? = some node → node.dead = true →
      g.usesOf node.result = []) ∧
    (∀ options f d v, g.requireDraft f d = .ok () →
      (g.append f d).localReplacement? options g.nextNode = .ok (some v) →
        v.index < g.nextValue.index) ∧
    (∀ options, ∀ p ∈ (Command.foldAll options).trace g,
      ∃ r, g.resultOf? p.1 = some r ∧ p.2.index < r.index) ∧
    g.verify = .ok () := by
  refine ⟨?_, ?_, ?_, ?_, ?_⟩
  · intro n node hn hd v hv
    exact ⟨h.ordered n node hn v hv, h.available hn hd hv⟩
  · intro n node hn hd
    exact h.usesOf_of_folded ((h.wellFormed.folded_result_iff hn).mpr hd)
  · intro options f d v hd hr
    exact h.lt_nextValue hd hr
  · intro options
    exact (Command.folds_foldAll h.wellFormed options).index_lt h.wellFormed h.ordered
  · exact h.wellFormed.verify_eq_ok_iff.mpr fun v hv => h.usesOf_of_folded hv

/-- A cast that folds in a pass after its reader came to read it twice. -/
theorem reads_older_available_of_pass :
    let g := (Graph.ofTable { names := ["int"] }).after
      [.addFunc "f" [⟨1⟩], .build ⟨0⟩ {} (.cast ⟨0⟩ ⟨1⟩), .build ⟨0⟩ {} (.iter ⟨1⟩),
        .build ⟨0⟩ {} (.binop ⟨1⟩ ⟨2⟩ "+"), .replace ⟨2⟩ ⟨1⟩, .foldAll {}]
    g.OrderedReachable ∧ g.usesOf ⟨0⟩ = [⟨⟨1⟩, 0⟩, ⟨⟨2⟩, 0⟩, ⟨⟨2⟩, 1⟩] ∧ g.usesOf ⟨1⟩ = [] ∧
      g.verify = .ok () := by
  intro g
  have h : g.OrderedReachable := (init _).after (by simp [ValueId.NoNewer])
  obtain ⟨-, hdead, -, -, hverify⟩ := h.reads_older_available
  have hn : g.nodes[0]? = some ⟨.cast, [⟨0⟩], ⟨1⟩, ⟨0⟩, true⟩ := rfl
  exact ⟨h, by decide, hdead ⟨0⟩ _ hn rfl, hverify⟩

end Graph.OrderedReachable

end DeferredIR
