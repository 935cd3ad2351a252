import DeferredIR.Proofs.Graph.Live
import DeferredIR.Proofs.Run
import Mathlib.Algebra.GroupWithZero.Nat

/-!
# Use lists

After every script the use lists are the inverse of the operands: a value is recorded to be read by
exactly the slots of live nodes that read it, and by each of them once. So a use list is as long as
there are such slots. As a slot reads one value, no slot is recorded twice in the whole graph.
-/

namespace DeferredIR.Graph

variable {g : Graph} {n : NodeId} {node : Node} {v : ValueId} {u : Use}

/-- The records of all uses, value by value. -/
def records (g : Graph) : List Use := g.values.toList.flatMap Value.uses

theorem mem_records : u ∈ g.records ↔ ∃ v, u ∈ g.usesOf v := by
  rw [records, List.mem_flatMap]
  constructor
  · rintro ⟨value, hm, hu⟩
    obtain ⟨i, hi⟩ := List.mem_iff_getElem?.mp hm
    rw [Array.getElem?_toList] at hi
    exact ⟨⟨i⟩, by rwa [usesOf_of_value hi]⟩
  · rintro ⟨v, hu⟩
    cases hv : g.values[v.index]? with
    | none => simp [usesOf, hv] at hu
    | some value =>
      rw [usesOf_of_value hv] at hu
      exact ⟨value, Array.mem_toList_iff.mpr (Array.mem_of_getElem? hv), hu⟩

/-- Two values have no record in common, for a slot reads one value. -/
theorem WellFormed.nodup_records (h : g.WellFormed) : g.records.Nodup := by
  have huses : ∀ i (hi : i < g.values.toList.length),
      g.usesOf ⟨i⟩ = g.values.toList[i].uses := by
    intro i hi
    exact usesOf_of_value (by simp)
  rw [records, List.nodup_flatMap]
  constructor
  · intro value hm
    obtain ⟨i, hi, rfl⟩ := List.mem_iff_getElem.mp hm
    rw [← huses i hi]
    exact h.uses_nodup _
  · rw [List.pairwise_iff_getElem]
    intro i j hi hj hij u hui huj
    rw [← huses i hi, h.mem_uses_iff] at hui
    rw [← huses j hj, h.mem_uses_iff] at huj
    have heq : i = j := congrArg ValueId.index (reads_inj hui huj)
    omega

theorem WellFormed.mem_records_of_operand (h : g.WellFormed) (hn : g.nodes[n.index]? = some node)
    (hd : node.dead = false) {slot : Nat} (hs : slot < node.operands.length) :
    ⟨n, slot⟩ ∈ g.records :=
  mem_records.mpr ⟨_, h.mem_uses hn hd (List.getElem?_eq_getElem hs)⟩

theorem WellFormed.live_of_mem_records (h : g.WellFormed) (hu : u ∈ g.records)
    (hn : g.nodes[u.node.index]? = some node) : node.dead = false := by
  obtain ⟨v, hu⟩ := mem_records.mp hu
  obtain ⟨x, hx, hd, -⟩ := h.exists_of_mem_uses hu
  obtain rfl : node = x := Option.some.inj (hn.symm.trans hx)
  exact hd

/-- The use list of a value has no duplicates and holds exactly the slots of live nodes that read
the value. So each operand slot of a live node has one record in the whole graph, and the slots of
a dead node have none. -/
theorem Reachable.use_lists_exact (h : g.Reachable) :
    (∀ (v : ValueId) (value : Value), g.values[v.index]? = some value → value.uses.Nodup ∧
      ∀ u : Use, u ∈ value.uses ↔ ∃ node, g.nodes[u.node.index]? = some node ∧
        node.dead = false ∧ node.operands[u.slot]? = some v) ∧
    (∀ (n : NodeId) (node : Node), g.nodes[n.index]? = some node → node.dead = false →
      ∀ slot < node.operands.length, g.records.count ⟨n, slot⟩ = 1) ∧
    ∀ (n : NodeId) (node : Node), g.nodes[n.index]? = some node → node.dead = true →
      ∀ slot, ⟨n, slot⟩ ∉ g.records := by
  have hwf := h.wellFormed
  refine ⟨fun v value hv => ?_, fun n node hn hd slot hs => ?_, fun n node hn hd slot hu => ?_⟩
  · rw [← usesOf_of_value hv]
    refine ⟨hwf.uses_nodup v, fun u => ?_⟩
    rw [hwf.mem_uses_iff, reads_iff]
  · exact List.count_eq_one_of_mem hwf.nodup_records (hwf.mem_records_of_operand hn hd hs)
  · have hlive := hwf.live_of_mem_records hu hn
    rw [hd] at hlive
    exact absurd hlive (by decide)

/-- A node that reads one value twice, and is then made to read its own result. -/
theorem use_lists_exact_of_self_reader :
    let g := (ofTable {}).after [.addFunc "f" [⟨0⟩], .build ⟨0⟩ {} (.binop ⟨0⟩ ⟨0⟩ "+"),
      .replace ⟨0⟩ ⟨1⟩]
    g.usesOf ⟨1⟩ = [⟨⟨0⟩, 0⟩, ⟨⟨0⟩, 1⟩] ∧ g.records.count ⟨⟨0⟩, 0⟩ = 1 ∧
      g.records.count ⟨⟨0⟩, 1⟩ = 1 := by
  intro g
  have h : g.Reachable := ⟨_, _, rfl⟩
  have hn : g.nodes[0]? = some ⟨.binop "+", [⟨1⟩, ⟨1⟩], ⟨1⟩, ⟨0⟩, false⟩ := rfl
  have hcount := h.use_lists_exact.2.1 ⟨0⟩ _ hn rfl
  exact ⟨by decide, hcount 0 (by decide), hcount 1 (by decide)⟩

/-! ## Counting reads -/

/-- How many operand slots of live nodes read `v`. -/
def readCount (g : Graph) (v : ValueId) : Nat :=
  (g.liveEntries.map fun p => p.2.operands.count v).sum

theorem length_usesBy (n : NodeId) (operands : List ValueId) (v : ValueId) :
    (usesBy n operands v).length = operands.count v := by
  have hsame : ∀ w : ValueId, decide (w.index = v.index) = (w == v) := by
    rintro ⟨i⟩
    obtain ⟨j⟩ := v
    rw [Bool.eq_iff_iff, decide_eq_true_iff, beq_iff_eq, ValueId.mk.injEq]
  have hslots : (operands.zipIdx.map Prod.fst).count v = operands.count v := by
    rw [List.zipIdx_map_fst]
  rw [usesBy, List.length_map, ← List.countP_eq_length_filter, ← hslots, List.count,
    List.countP_map]
  exact congrArg (List.countP · _) (funext fun p => hsame p.1)

/-- The use list of `v` consists of the slots that read it, live node by live node. -/
theorem WellFormed.usesOf_perm (h : g.WellFormed) (v : ValueId) :
    (g.usesOf v).Perm (g.liveEntries.flatMap fun p => usesBy p.1 p.2.operands v) := by
  have hsorted : g.liveEntries.Pairwise fun p q => p.1.index < q.1.index := by
    have hlive := g.pairwise_live
    rwa [live, List.pairwise_map] at hlive
  have hnodup : (g.liveEntries.flatMap fun p => usesBy p.1 p.2.operands v).Nodup := by
    refine List.nodup_flatMap.mpr ⟨fun p _ => nodup_usesBy _ _ _, hsorted.imp ?_⟩
    intro p q hlt u hp hq
    have hsame : p.1 = q.1 := (mem_usesBy.mp hp).1.symm.trans (mem_usesBy.mp hq).1
    exact Nat.ne_of_lt hlt (congrArg NodeId.index hsame)
  refine (List.perm_ext_iff_of_nodup (h.uses_nodup v) hnodup).mpr fun u => ?_
  simp only [h.mem_uses_iff, reads_iff, List.mem_flatMap, Prod.exists, mem_liveEntries, mem_usesBy]
  constructor
  · rintro ⟨node, hn, hd, hs⟩
    exact ⟨u.node, node, ⟨hn, hd⟩, rfl, hs⟩
  · rintro ⟨_, node, ⟨hn, hd⟩, rfl, hs⟩
    exact ⟨node, hn, hd, hs⟩

theorem WellFormed.length_usesOf (h : g.WellFormed) (v : ValueId) :
    (g.usesOf v).length = g.readCount v := by
  rw [(h.usesOf_perm v).length_eq, List.length_flatMap, readCount]
  simp only [length_usesBy]

end DeferredIR.Graph
