import DeferredIR.Proofs.Admission
import DeferredIR.Proofs.Ordered
import DeferredIR.Tampering

/-!
# Damage that verification finds

A graph keeps each of its links at both ends. An operand slot of a live node is recorded by the
value that it reads, a result and a formal argument name what defines them, and a node stands in the
function of all that it reads. So a field that is overwritten contradicts a field that is not, and
verification finds the damage there, mostly at a condition on another entry than the one that was
overwritten.

Three facts on reachable graphs make this complete. No use is recorded twice, so a record that is
removed is missing. A dead node has no records, so it cannot be marked live again if it reads
something. And nodes read older values, so a node whose function is overwritten does not carry the
only value that it reads along with it.
-/

namespace DeferredIR.Graph

variable {g : Graph} {n m : NodeId} {x : Node} {v r : ValueId} {f : FuncId} {i : Nat}
variable {value : Value} {uses : List Use} {operands : List ValueId} {o : Origin} {t : Tampering}

/-- The field that is overwritten is one end of a link, and the other end is not told. -/
inductive Damages (g : Graph) : Tampering → Prop where
  /-- What a live node reads: a slot overwritten, or a list made longer or shorter. -/
  | operands {n : NodeId} {x : Node} {operands : List ValueId}
      (node_eq : g.nodes[n.index]? = some x) (live : x.dead = false)
      (ne : operands ≠ x.operands) : Damages g (.operands n operands)
  | removedUse {v : ValueId} {value : Value} {i : Nat}
      (value_eq : g.values[v.index]? = some value) (lt : i < value.uses.length) :
      Damages g (.uses v (value.uses.eraseIdx i))
  | addedUse {v : ValueId} {value : Value} {i : Nat} {u : Use}
      (value_eq : g.values[v.index]? = some value) (le : i ≤ value.uses.length)
      (new : u ∉ value.uses) : Damages g (.uses v (value.uses.insertIdx i u))
  | result {n : NodeId} {x : Node} {r : ValueId} (node_eq : g.nodes[n.index]? = some x)
      (live : x.dead = false) (ne : r ≠ x.result) : Damages g (.result n r)
  | originOfResult {n : NodeId} {x : Node} {o : Origin} (node_eq : g.nodes[n.index]? = some x)
      (live : x.dead = false) (ne : o ≠ .result n) : Damages g (.origin x.result o)
  | originOfFormal {f : FuncId} {i : Nat} {v : ValueId} {o : Origin}
      (formal_eq : g.formalAt? f i = some v) (ne : o ≠ .formal f i) : Damages g (.origin v o)
  | killed {n : NodeId} {x : Node} (node_eq : g.nodes[n.index]? = some x)
      (live : x.dead = false) (linked : x.operands ≠ [] ∨ g.usesOf x.result ≠ []) :
      Damages g (.dead n true)
  | revived {n : NodeId} {x : Node} (node_eq : g.nodes[n.index]? = some x)
      (dead : x.dead = true) (reads : x.operands ≠ []) : Damages g (.dead n false)
  | owner {n : NodeId} {x : Node} {f : FuncId} (node_eq : g.nodes[n.index]? = some x)
      (live : x.dead = false) (linked : x.operands ≠ [] ∨ g.usesOf x.result ≠ [])
      (ne : f ≠ x.func) : Damages g (.owner n f)

/-! ## Single entries -/

theorem getElem?_nodes_modifyNode (g : Graph) (n : NodeId) (change : Node → Node) (m : NodeId) :
    (g.modifyNode n change).nodes[m.index]? =
      g.nodes[m.index]?.map fun x => if m = n then change x else x := by
  obtain ⟨i⟩ := m
  obtain ⟨j⟩ := n
  simp only [modifyNode, Array.getElem?_modify, NodeId.mk.injEq, eq_comm (a := i)]
  split <;> simp

theorem getElem?_nodes_modifyNode_self (hx : g.nodes[n.index]? = some x) (change : Node → Node) :
    (g.modifyNode n change).nodes[n.index]? = some (change x) := by
  rw [getElem?_nodes_modifyNode, hx, Option.map_some, if_pos rfl]

theorem getElem?_nodes_modifyNode_of_ne (hm : m ≠ n) (change : Node → Node) :
    (g.modifyNode n change).nodes[m.index]? = g.nodes[m.index]? := by
  rw [getElem?_nodes_modifyNode]
  simp only [if_neg hm, Option.map_id']

theorem origin?_modifyNode (g : Graph) (n : NodeId) (change : Node → Node) (v : ValueId) :
    (g.modifyNode n change).origin? v = g.origin? v := rfl

theorem getElem?_values_modifyValue_self (hv : g.values[v.index]? = some value)
    (change : Value → Value) :
    (g.modifyValue v change).values[v.index]? = some (change value) := by
  rw [modifyValue, Array.getElem?_modify, if_pos rfl, hv, Option.map_some]

theorem origin?_tamper_origin {o' : Origin} (ho : g.origin? v = some o') (o : Origin) :
    (g.tamper (.origin v o)).origin? v = some o := by
  obtain ⟨value, hv, -⟩ := exists_value_of_origin? ho
  exact origin?_of_value (getElem?_values_modifyValue_self hv _)

/-- Overwriting the function of a node moves its result along, and no other value. -/
theorem owner?_tamper_owner (h : g.Coherent) (hx : g.nodes[n.index]? = some x) (f : FuncId)
    (v : ValueId) :
    (g.tamper (.owner n f)).owner? v = if v = x.result then some f else g.owner? v := by
  split
  · subst v
    have ho : (g.tamper (.owner n f)).origin? x.result = some (.result n) := h.origin?_result hx
    exact owner?_of_result ho (getElem?_nodes_modifyNode_self hx _)
  · rename_i hne
    unfold owner? tamper
    rw [origin?_modifyNode]
    cases ho : g.origin? v with
    | none => rfl
    | some o =>
      cases o with
      | formal => rfl
      | result m =>
        have hmn : m ≠ n := by
          rintro rfl
          obtain ⟨y, hy, rfl⟩ := h.exists_node ho
          exact hne (congrArg Node.result (Option.some.inj (hy.symm.trans hx)))
        simp only [getElem?_nodes_modifyNode_of_ne hmn]

/-! ## Inconsistent graphs -/

theorem exists_verify_eq_error (h : ¬ g.Consistent) : ∃ e, g.verify = .error e := by
  rw [← verify_eq_ok_iff_consistent] at h
  cases hv : g.verify with
  | error e => exact ⟨e, rfl⟩
  | ok _ => exact absurd hv h

namespace WellFormed

/-- Where two lists of operands differ, a record is stale or missing. -/
theorem not_consistent_operands (h : g.WellFormed) (hx : g.nodes[n.index]? = some x)
    (hd : x.dead = false) (hne : operands ≠ x.operands) :
    ¬ (g.tamper (.operands n operands)).Consistent := by
  intro hc
  have hy := getElem?_nodes_modifyNode_self hx fun x => { x with operands }
  refine hne (List.ext_getElem? fun slot => ?_)
  cases hold : x.operands[slot]? with
  | some v =>
    obtain ⟨y, hy', -, hread⟩ := hc.read v ⟨n, slot⟩ (h.mem_uses hx hd hold)
    obtain rfl := Option.some.inj (hy.symm.trans hy')
    exact hread
  | none =>
    rw [Option.eq_none_iff_forall_not_mem]
    intro w hw
    obtain ⟨y, hy', -, hread⟩ := h.exists_of_mem_uses (hc.recorded n _ hy hd slot w hw)
    obtain rfl := Option.some.inj (hx.symm.trans hy')
    cases hold.symm.trans hread

/-- Which slots are recorded is known from the operands. -/
theorem not_consistent_uses (h : g.WellFormed) (hv : g.values[v.index]? = some value) {u : Use}
    (hu : ¬ (u ∈ uses ↔ u ∈ value.uses)) : ¬ (g.tamper (.uses v uses)).Consistent := by
  intro hc
  have huses : (g.tamper (.uses v uses)).usesOf v = uses :=
    usesOf_of_value (getElem?_values_modifyValue_self hv _)
  apply hu
  rw [← usesOf_of_value hv, h.mem_uses_iff, reads_iff]
  constructor
  · exact fun hm => hc.read v u (huses.symm ▸ hm)
  · rintro ⟨x, hx, hd, hread⟩
    exact huses ▸ hc.recorded u.node x hx hd u.slot v hread

theorem not_consistent_result (h : g.WellFormed) (hx : g.nodes[n.index]? = some x)
    (hd : x.dead = false) (hne : r ≠ x.result) : ¬ (g.tamper (.result n r)).Consistent := by
  intro hc
  have ho : g.origin? r = some (.result n) :=
    hc.result n _ (getElem?_nodes_modifyNode_self hx _) hd
  obtain ⟨y, hy, rfl⟩ := h.exists_node ho
  exact hne (congrArg Node.result (Option.some.inj (hy.symm.trans hx)))

theorem not_consistent_originOfResult (h : g.WellFormed) (hx : g.nodes[n.index]? = some x)
    (hd : x.dead = false) (hne : o ≠ .result n) :
    ¬ (g.tamper (.origin x.result o)).Consistent := by
  intro hc
  have ho := origin?_tamper_origin (h.origin?_result hx) o
  exact hne (Option.some.inj (ho.symm.trans (hc.result n x hx hd)))

theorem not_consistent_originOfFormal (h : g.WellFormed) (hv : g.formalAt? f i = some v)
    (hne : o ≠ .formal f i) : ¬ (g.tamper (.origin v o)).Consistent := by
  intro hc
  obtain ⟨func, hf, hi⟩ := Option.bind_eq_some_iff.mp hv
  have ho := origin?_tamper_origin (h.formal_iff.mpr hv) o
  exact hne (Option.some.inj (ho.symm.trans (hc.formal f func hf i v hi)))

/-- A node that is marked dead leaves its records behind, and its readers without a value. -/
theorem not_consistent_killed (h : g.WellFormed) (hx : g.nodes[n.index]? = some x)
    (hd : x.dead = false) (hlinked : x.operands ≠ [] ∨ g.usesOf x.result ≠ []) :
    ¬ (g.tamper (.dead n true)).Consistent := by
  intro hc
  have hy := getElem?_nodes_modifyNode_self hx fun x => { x with dead := true }
  rcases hlinked with hops | huses
  · obtain ⟨v, l, hops⟩ := List.exists_cons_of_ne_nil hops
    obtain ⟨y, hy', hlive, -⟩ := hc.read v ⟨n, 0⟩ (h.mem_uses hx hd (by rw [hops]; rfl))
    obtain rfl := Option.some.inj (hy.symm.trans hy')
    cases hlive
  · obtain ⟨u, l, huses⟩ := List.exists_cons_of_ne_nil huses
    obtain ⟨y, hy', hlive, hread⟩ := hc.read x.result u (huses ▸ List.mem_cons_self)
    have havailable := hc.available u.node y hy' hlive _ (List.mem_of_getElem? hread)
    exact havailable.not_folded ⟨n, _, h.origin?_result hx, hy, rfl⟩

/-- No value records a read by a dead node. -/
theorem not_consistent_revived (h : g.WellFormed) (hx : g.nodes[n.index]? = some x)
    (hd : x.dead = true) (hops : x.operands ≠ []) :
    ¬ (g.tamper (.dead n false)).Consistent := by
  intro hc
  have hy := getElem?_nodes_modifyNode_self hx fun x => { x with dead := false }
  obtain ⟨v, l, hops⟩ := List.exists_cons_of_ne_nil hops
  have hu := hc.recorded n _ hy rfl 0 v (by show x.operands[0]? = some v; rw [hops]; rfl)
  obtain ⟨y, hy', hlive, -⟩ := h.exists_of_mem_uses hu
  obtain rfl := Option.some.inj (hx.symm.trans hy')
  cases hd.symm.trans hlive

/-- A node that moves to another function reads from a foreign one, or is read from one, unless all
that it reads is its own result. -/
theorem not_consistent_owner (h : g.WellFormed) (ho : g.Ordered)
    (hx : g.nodes[n.index]? = some x) (hd : x.dead = false)
    (hlinked : x.operands ≠ [] ∨ g.usesOf x.result ≠ []) (hne : f ≠ x.func) :
    ¬ (g.tamper (.owner n f)).Consistent := by
  intro hc
  have howner := owner?_tamper_owner h.toCoherent hx f
  rcases hlinked with hops | huses
  · obtain ⟨v, hv⟩ := List.exists_mem_of_ne_nil _ hops
    have hself : v ≠ x.result := by
      rintro rfl
      exact Nat.lt_irrefl _ (ho n x hx _ hv)
    have havailable := hc.available n _ (getElem?_nodes_modifyNode_self hx _) hd v hv
    have hfunc := (howner v).symm.trans havailable.owner?
    rw [if_neg hself, h.operand_owner hx hv] at hfunc
    exact hne (Option.some.inj hfunc).symm
  · obtain ⟨u, hu⟩ := List.exists_mem_of_ne_nil _ huses
    obtain ⟨y, hy, hlive, hread⟩ := h.exists_of_mem_uses hu
    have hv := List.mem_of_getElem? hread
    have hun : u.node ≠ n := by
      intro he
      rw [he] at hy
      obtain rfl := Option.some.inj (hx.symm.trans hy)
      exact Nat.lt_irrefl _ (ho n x hx _ hv)
    have hy' := (getElem?_nodes_modifyNode_of_ne hun fun x => { x with func := f }).trans hy
    have hfunc := (howner _).symm.trans (hc.available u.node y hy' hlive _ hv).owner?
    rw [if_pos rfl, ← h.operand_owner hy hv, h.owner?_result hx] at hfunc
    exact hne (Option.some.inj hfunc)

end WellFormed

/-! ## Ordered runs -/

theorem OrderedReachable.not_consistent_tamper (h : g.OrderedReachable) (hd : g.Damages t) :
    ¬ (g.tamper t).Consistent := by
  have hwf := h.wellFormed
  cases hd with
  | operands hx hlive hne => exact hwf.not_consistent_operands hx hlive hne
  | @removedUse v value i hv hi =>
    have hnodup := hwf.uses_nodup v
    rw [usesOf_of_value hv] at hnodup
    refine hwf.not_consistent_uses (u := value.uses[i]) hv fun hiff => ?_
    obtain ⟨j, hj, hget⟩ := List.mem_eraseIdx_iff_getElem?.mp (hiff.mpr (List.getElem_mem hi))
    rw [← List.getElem?_eq_getElem hi] at hget
    exact hj ((List.getElem?_inj hi hnodup).mp hget.symm).symm
  | @addedUse v value i u hv hi hu =>
    have hmem : u ∈ value.uses.insertIdx i u := (List.mem_insertIdx hi).mpr (.inl rfl)
    exact hwf.not_consistent_uses hv fun hiff => hu (hiff.mp hmem)
  | result hx hlive hne => exact hwf.not_consistent_result hx hlive hne
  | originOfResult hx hlive hne => exact hwf.not_consistent_originOfResult hx hlive hne
  | originOfFormal hv hne => exact hwf.not_consistent_originOfFormal hv hne
  | killed hx hlive hlinked => exact hwf.not_consistent_killed hx hlive hlinked
  | revived hx hdead hreads => exact hwf.not_consistent_revived hx hdead hreads
  | owner hx hlive hlinked hne =>
    exact hwf.not_consistent_owner h.ordered hx hlive hlinked hne

/-- Verification finds nothing in a graph that ordered commands made, and finds an inconsistency
after any single change that damages a link between its entries. -/
theorem OrderedReachable.damage_found (h : g.OrderedReachable) :
    g.verify = .ok () ∧ ∀ t, g.Damages t → ∃ e, (g.tamper t).verify = .error e := by
  refine ⟨?_, fun t ht => exists_verify_eq_error (h.not_consistent_tamper ht)⟩
  exact h.wellFormed.verify_eq_ok_iff.mpr fun v hv => h.usesOf_of_folded hv

/-- A node that reads one value twice, and a cast that was folded before it: a record removed, a
slot that reads no value, the function of the node overwritten, the cast marked live. -/
theorem OrderedReachable.damage_found_at_repeated_operand :
    let g := (ofTable { names := ["int"] }).after
      [.addFunc "f" [⟨1⟩], .addFunc "g" [], .build ⟨0⟩ {} (.cast ⟨0⟩ ⟨1⟩),
        .build ⟨0⟩ {} (.binop ⟨1⟩ ⟨1⟩ "+"), .foldAll {}]
    g.verify = .ok () ∧ (∃ e, (g.tamper (.uses ⟨0⟩ [⟨⟨1⟩, 1⟩])).verify = .error e) ∧
      (∃ e, (g.tamper (.operands ⟨1⟩ [⟨0⟩, ⟨7⟩])).verify = .error e) ∧
      (∃ e, (g.tamper (.owner ⟨1⟩ ⟨1⟩)).verify = .error e) ∧
      ∃ e, (g.tamper (.dead ⟨0⟩ false)).verify = .error e := by
  intro g
  have h : g.OrderedReachable := (init _).after (by simp)
  have hvalue : g.values[0]? = some ⟨.formal ⟨0⟩ 0, ⟨1⟩, [⟨⟨1⟩, 0⟩, ⟨⟨1⟩, 1⟩]⟩ := by
    unfold g
    rfl
  have hcast : g.nodes[0]? = some ⟨.cast, [⟨0⟩], ⟨1⟩, ⟨0⟩, true⟩ := by unfold g; rfl
  have hbinop : g.nodes[1]? = some ⟨.binop "+", [⟨0⟩, ⟨0⟩], ⟨2⟩, ⟨0⟩, false⟩ := by unfold g; rfl
  clear_value g
  obtain ⟨hverify, hfound⟩ := h.damage_found
  refine ⟨hverify, ?_, ?_, ?_, ?_⟩
  · exact hfound _ (.removedUse (v := ⟨0⟩) (i := 0) hvalue (by decide))
  · exact hfound _ (.operands (n := ⟨1⟩) hbinop rfl (by simp))
  · exact hfound _ (.owner (n := ⟨1⟩) hbinop rfl (.inl (by simp)) (by simp))
  · exact hfound _ (.revived (n := ⟨0⟩) hcast rfl (by simp))

end DeferredIR.Graph
