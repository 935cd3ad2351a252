import DeferredIR.Proofs.Graph.Folded
import DeferredIR.Proofs.Graph.Verification
import DeferredIR.Proofs.UseLists

/-!
# Retiring a node

A node is retired by going through its operands and filtering the use list of each. A value that
stands in several slots is filtered as often, and a value that is no operand is not filtered at all.
Where use lists are exact this is the same as filtering every use list once: a second pass finds
nothing to remove, and no other value has a record of the node. So the records that go are one for
each operand slot, and no two of them are the same, also where a node reads one value twice or its
own result.

What nothing filters are the records of the result. Whether the graph still verifies depends on them
alone: all of them have to be reads of the node by itself.
-/

namespace DeferredIR.Graph

variable {g g' : Graph} {n : NodeId} {x : Node} {v : ValueId} {u : Use} {e : Inconsistency}

/-! ## What is left -/

/-- `g'` is `g` with `n` dead and without the records of its reads. -/
structure Retired (g : Graph) (n : NodeId) (g' : Graph) : Prop where
  types : g'.types = g.types
  functions : g'.functions = g.functions
  node : ∀ m : NodeId, g'.nodes[m.index]? = g.nodes[m.index]?.map fun x =>
    if m = n then { x with dead := true } else x
  /-- The records of other nodes keep their order. -/
  value : ∀ v : ValueId, g'.values[v.index]? = g.values[v.index]?.map fun x =>
    { x with uses := x.uses.filter fun u => u.node ≠ n }

/-- A value that `n` does not read has no record to lose. -/
theorem WellFormed.filter_uses_eq_self (h : g.WellFormed) (hv : v ∉ g.operandsOf n) :
    (g.usesOf v).filter (fun u => u.node ≠ n) = g.usesOf v :=
  List.filter_eq_self.mpr fun _ hu => decide_eq_true (h.node_ne_of_mem_uses hu hv)

theorem WellFormed.retired_retire (h : g.WellFormed) (n : NodeId) : g.Retired n (g.retire n) where
  types := rfl
  functions := rfl
  node := getElem?_nodes_retire g n
  value v := by
    rw [getElem?_values_retire]
    cases hx : g.values[v.index]? with
    | none => rfl
    | some x =>
      by_cases hv : v ∈ g.operandsOf n
      · simp only [Option.map_some, if_pos hv]
      · have huses := h.filter_uses_eq_self hv
        rw [usesOf_of_value hx] at huses
        simp only [Option.map_some, if_neg hv, huses]

namespace Retired

theorem values_eq (s : g.Retired n g') :
    g'.values = g.values.map fun x => { x with uses := x.uses.filter fun u => u.node ≠ n } :=
  Array.ext_getElem? fun i => by rw [s.value ⟨i⟩, Array.getElem?_map]

theorem usesOf_eq (s : g.Retired n g') (v : ValueId) :
    g'.usesOf v = (g.usesOf v).filter fun u => u.node ≠ n := by
  rw [usesOf, usesOf, s.value]
  cases g.values[v.index]? <;> rfl

/-- In the whole graph, the records of other nodes are left, in their order. -/
theorem records_eq (s : g.Retired n g') : g'.records = g.records.filter fun u => u.node ≠ n := by
  rw [records, s.values_eq, Array.toList_map, List.flatMap_map, records, List.filter_flatMap]

end Retired

/-- A live node has one record for each of its operand slots. -/
theorem WellFormed.filter_records_perm (h : g.WellFormed) (hn : g.nodes[n.index]? = some x)
    (hd : x.dead = false) : (g.records.filter fun u => u.node = n).Perm
      ((List.range x.operands.length).map (Use.mk n)) := by
  have hslots : ((List.range x.operands.length).map (Use.mk n)).Nodup :=
    List.nodup_range.map fun _ _ he => (Use.mk.inj he).2
  refine (List.perm_ext_iff_of_nodup (h.nodup_records.filter _) hslots).mpr fun u => ?_
  simp only [List.mem_filter, decide_eq_true_eq, List.mem_map, List.mem_range]
  constructor
  · rintro ⟨hu, rfl⟩
    obtain ⟨v, hu⟩ := mem_records.mp hu
    obtain ⟨y, hy, -, hslot⟩ := h.exists_of_mem_uses hu
    obtain rfl := Option.some.inj (hn.symm.trans hy)
    exact ⟨u.slot, (List.getElem?_eq_some_iff.mp hslot).1, rfl⟩
  · rintro ⟨slot, hslot, rfl⟩
    exact ⟨h.mem_records_of_operand hn hd hslot, rfl⟩

/-! ## Verification -/

/-- What goes wrong in a graph in which verification found nothing is that another node reads the
result. -/
theorem WellFormed.of_verify_retire_eq_error (h : g.WellFormed) (hok : g.verify = .ok ())
    (hn : g.nodes[n.index]? = some x) (he : (g.retire n).verify = .error e) :
    ∃ u ∈ g.usesOf x.result, u.node ≠ n ∧ e = .deadOperand u.node u.slot x.result := by
  obtain ⟨m, slot, v, rfl, hfolded, hu⟩ := (h.retire n).of_verify_eq_error he
  obtain ⟨hu, hne⟩ := h.mem_usesOf_retire.mp hu
  -- What was folded away before is not read, so the value is the result of `n`.
  rcases (h.folded_retire hn).mp hfolded with hfolded | rfl
  · rw [h.verify_eq_ok_iff.mp hok v hfolded] at hu
    exact absurd hu List.not_mem_nil
  · exact ⟨⟨m, slot⟩, hu, hne, rfl⟩

theorem WellFormed.verify_retire_eq_ok_iff (h : g.WellFormed) (hok : g.verify = .ok ())
    (hn : g.nodes[n.index]? = some x) :
    (g.retire n).verify = .ok () ↔ ∀ u ∈ g.usesOf x.result, u.node = n := by
  constructor
  · intro hverify u hu
    have hunread := (h.retire n).verify_eq_ok_iff.mp hverify x.result
      ((h.folded_retire hn).mpr (.inr rfl))
    by_contra hne
    exact List.ne_nil_of_mem (h.mem_usesOf_retire.mpr ⟨hu, hne⟩) hunread
  · intro hself
    cases hverify : (g.retire n).verify with
    | ok _ => rfl
    | error e =>
      obtain ⟨u, hu, hne, -⟩ := h.of_verify_retire_eq_error hok hn hverify
      exact absurd (hself u hu) hne

/-- Only `n` is recorded to read `v` exactly if no other live node reads it. -/
theorem WellFormed.forall_uses_node_eq_iff (h : g.WellFormed) :
    (∀ u ∈ g.usesOf v, u.node = n) ↔ ∀ (m : NodeId) (y : Node), m ≠ n →
      g.nodes[m.index]? = some y → y.dead = false → v ∉ y.operands := by
  constructor
  · intro hself m y hne hm hd hv
    obtain ⟨slot, hslot⟩ := List.mem_iff_getElem?.mp hv
    exact hne (hself _ (h.mem_uses hm hd hslot))
  · intro hothers u hu
    obtain ⟨y, hy, hd, hslot⟩ := h.exists_of_mem_uses hu
    by_contra hne
    exact hothers u.node y hne hy hd (List.mem_of_getElem? hslot)

/-- Retiring a live node marks it dead and removes its records from the use lists, one for each of
its operand slots, and changes nothing else; so the use lists still hold exactly the slots of live
nodes that read the value, each once. Retiring it again changes nothing. A graph in which
verification found nothing stays such exactly if no other live node reads the result. -/
theorem Reachable.retire_removes_reads (h : g.Reachable) (hn : g.nodes[n.index]? = some x)
    (hd : x.dead = false) :
    ∃ g', (Edit.retire n).run g = .ok () g' ∧ g.Retired n g' ∧
      ((g.records.filter fun u => u.node = n).Perm
          ((List.range x.operands.length).map (Use.mk n)) ∧
        g'.records = g.records.filter fun u => u.node ≠ n) ∧
      (∀ v, (g'.usesOf v).Nodup ∧ ∀ u, u ∈ g'.usesOf v ↔ g'.reads u v = true) ∧
      (Edit.retire n).run g' = .ok () g' ∧
      (g.verify = .ok () → (g'.verify = .ok () ↔ ∀ (m : NodeId) (y : Node), m ≠ n →
        g.nodes[m.index]? = some y → y.dead = false → x.result ∉ y.operands)) := by
  have hwf := h.wellFormed
  have hretired := hwf.retired_retire n
  have hwf' := hwf.retire n
  have hdead : (g.retire n).nodes[n.index]? = some { x with dead := true } := by
    rw [hretired.node, hn, Option.map_some, if_pos rfl]
  refine ⟨g.retire n, Edit.run_retire_of_live hwf hn hd, hretired,
    ⟨hwf.filter_records_perm hn hd, hretired.records_eq⟩,
    fun v => ⟨hwf'.uses_nodup v, fun u => hwf'.mem_uses_iff⟩,
    Edit.run_retire_of_dead hwf' hdead rfl, fun hok => ?_⟩
  rw [hwf.verify_retire_eq_ok_iff hok hn, hwf.forall_uses_node_eq_iff]

/-- A tuple that reads its own result twice, and an iteration that came to read it in between. The
iteration can be retired; if the tuple is, the iteration reads the result of a dead node. -/
theorem retire_removes_reads_of_self_reader :
    let g := (ofTable {}).after [.addFunc "f" [⟨0⟩, ⟨0⟩], .build ⟨0⟩ {} (.tuple [⟨0⟩, ⟨1⟩]),
      .build ⟨0⟩ {} (.iter ⟨0⟩), .replace ⟨1⟩ ⟨0⟩, .replace ⟨0⟩ ⟨2⟩]
    (g.usesOf ⟨2⟩ = [⟨⟨0⟩, 0⟩, ⟨⟨1⟩, 0⟩, ⟨⟨0⟩, 1⟩] ∧ g.verify = .ok ()) ∧
    (∃ g', (Edit.retire ⟨0⟩).run g = .ok () g' ∧ g.Retired ⟨0⟩ g' ∧
      g'.usesOf ⟨2⟩ = [⟨⟨1⟩, 0⟩] ∧ (Edit.retire ⟨0⟩).run g' = .ok () g' ∧ g'.verify ≠ .ok ()) ∧
    ∃ g', (Edit.retire ⟨1⟩).run g = .ok () g' ∧ g.Retired ⟨1⟩ g' ∧
      g'.usesOf ⟨2⟩ = [⟨⟨0⟩, 0⟩, ⟨⟨0⟩, 1⟩] ∧ (Edit.retire ⟨1⟩).run g' = .ok () g' ∧
      g'.verify = .ok () := by
  intro g
  have h : g.Reachable := ⟨_, _, rfl⟩
  have htuple : g.nodes[0]? = some ⟨.tuple, [⟨2⟩, ⟨2⟩], ⟨2⟩, ⟨0⟩, false⟩ := rfl
  have hiter : g.nodes[1]? = some ⟨.iter, [⟨2⟩], ⟨3⟩, ⟨0⟩, false⟩ := rfl
  have huses : g.usesOf ⟨2⟩ = [⟨⟨0⟩, 0⟩, ⟨⟨1⟩, 0⟩, ⟨⟨0⟩, 1⟩] := rfl
  have hunread : g.usesOf ⟨3⟩ = [] := rfl
  have hok : g.verify = .ok () := rfl
  clear_value g
  refine ⟨⟨huses, hok⟩, ?_, ?_⟩
  · obtain ⟨g', hrun, hretired, -, -, hagain, hverify⟩ :=
      h.retire_removes_reads (n := ⟨0⟩) htuple rfl
    have huses' : g'.usesOf ⟨2⟩ = [⟨⟨1⟩, 0⟩] := by
      rw [hretired.usesOf_eq, huses]
      rfl
    refine ⟨g', hrun, hretired, huses', hagain, fun hok' => ?_⟩
    exact (hverify hok).mp hok' ⟨1⟩ _ (by simp) hiter rfl List.mem_cons_self
  · obtain ⟨g', hrun, hretired, -, -, hagain, hverify⟩ :=
      h.retire_removes_reads (n := ⟨1⟩) hiter rfl
    have huses' : g'.usesOf ⟨2⟩ = [⟨⟨0⟩, 0⟩, ⟨⟨0⟩, 1⟩] := by
      rw [hretired.usesOf_eq, huses]
      rfl
    refine ⟨g', hrun, hretired, huses', hagain, (hverify hok).mpr fun m y _ hm hd hread => ?_⟩
    obtain ⟨slot, hslot⟩ := List.mem_iff_getElem?.mp hread
    exact List.ne_nil_of_mem (h.wellFormed.mem_uses hm hd hslot) hunread

end DeferredIR.Graph
