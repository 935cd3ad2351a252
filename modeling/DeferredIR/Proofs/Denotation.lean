import DeferredIR.Proofs.Ordered
import Mathlib.Tactic.Choose

/-!
# Denotations

An interpretation says what formal arguments denote, and what a node denotes in terms of what its
operands denote. A value then denotes what comes out of the recursion along the operands, so that a
value which depends on itself denotes nothing. In an ordered graph every value denotes exactly one
element.
-/

namespace DeferredIR

open DeferredIR.Graph

universe u

variable {D : Type u} {g g' : Graph} {n : NodeId} {node : Node} {v w : ValueId} {d e : D}

/-- A meaning of formal arguments and nodes in `D`. A node is given by its function, its opcode, the
types of its operands, the type of its result, and what its operands denote. -/
structure Interpretation (D : Type u) where
  formal : FuncId → Nat → D
  node : FuncId → Opcode → List TypeId → TypeId → List D → D

namespace Interpretation

variable {I : Interpretation D}

/-- What the value `v` of `g` denotes. -/
inductive Denotes (I : Interpretation D) (g : Graph) : ValueId → D → Prop where
  | formal {v : ValueId} {f : FuncId} {i : Nat} (origin : g.origin? v = some (.formal f i)) :
      Denotes I g v (I.formal f i)
  | node {v : ValueId} {n : NodeId} {node : Node} {ds : List D}
      (origin : g.origin? v = some (.result n)) (node_eq : g.nodes[n.index]? = some node)
      (length : ds.length = node.operands.length)
      (operand : ∀ (slot : Nat) (w : ValueId) (d : D), node.operands[slot]? = some w →
        ds[slot]? = some d → Denotes I g w d) :
      Denotes I g v (I.node node.func node.opcode (node.operands.map g.typeOf) (g.typeOf v) ds)

/-- Of two lists of one length, each has an entry where the other has one. -/
theorem exists_getElem? {α β : Type*} {xs : List α} {ys : List β} {i : Nat} {x : α}
    (hl : ys.length = xs.length) (hx : xs[i]? = some x) : ∃ y, ys[i]? = some y := by
  obtain ⟨hlt, -⟩ := List.getElem?_eq_some_iff.mp hx
  exact ⟨_, List.getElem?_eq_getElem (hl ▸ hlt)⟩

namespace Denotes

theorem unique (h : I.Denotes g v d) (h' : I.Denotes g v e) : d = e := by
  induction h generalizing e with
  | formal ho =>
    cases h' with
    | formal ho' =>
      cases ho.symm.trans ho'
      rfl
    | node ho' _ _ _ => cases ho.symm.trans ho'
  | @node v n node ds ho hn hl _ ih =>
    cases h' with
    | formal ho' => cases ho.symm.trans ho'
    | @node _ m node' es ho' hm hl' hes =>
      cases ho.symm.trans ho'
      cases hn.symm.trans hm
      have hds : ds = es := by
        refine List.ext_getElem (hl.trans hl'.symm) fun slot hd he => ?_
        have hslot : slot < node.operands.length := hl ▸ hd
        refine ih slot node.operands[slot] ds[slot] (List.getElem?_eq_getElem hslot)
          (List.getElem?_eq_getElem hd) ?_
        exact hes slot _ _ (List.getElem?_eq_getElem hslot) (List.getElem?_eq_getElem he)
      rw [hds]

/-- What the result of a node denotes comes from what the operands of the node denote. -/
theorem exists_operands (h : I.Denotes g v d) (ho : g.origin? v = some (.result n))
    (hn : g.nodes[n.index]? = some node) :
    ∃ ds, ds.length = node.operands.length ∧
      (∀ (slot : Nat) (w : ValueId) (d : D), node.operands[slot]? = some w →
        ds[slot]? = some d → I.Denotes g w d) ∧
      d = I.node node.func node.opcode (node.operands.map g.typeOf) (g.typeOf v) ds := by
  cases h with
  | formal ho' => cases ho.symm.trans ho'
  | @node _ m x ds ho' hx hl hds =>
    cases ho.symm.trans ho'
    cases hn.symm.trans hx
    exact ⟨ds, hl, hds, rfl⟩

end Denotes

/-- In an ordered graph the recursion along the operands ends. -/
theorem exists_denotes (I : Interpretation D) (h : g.WellFormed) (ho : g.Ordered)
    (hv : v.index < g.values.size) : ∃ d, I.Denotes g v d := by
  induction hk : v.index using Nat.strongRecOn generalizing v with
  | ind k ih =>
    subst hk
    have hvalue := Array.getElem?_eq_getElem hv
    have horigin := origin?_of_value hvalue
    generalize g.values[v.index].origin = o at horigin
    cases o with
    | formal f i => exact ⟨_, .formal horigin⟩
    | result n =>
      obtain ⟨node, hn, rfl⟩ := h.exists_node horigin
      have hops : ∀ w ∈ node.operands, ∃ d, I.Denotes g w d := fun w hw =>
        ih w.index (ho n node hn w hw) (h.lt_of_mem_operands hn hw) rfl
      have : Nonempty D := ⟨I.formal ⟨0⟩ 0⟩
      choose! φ hφ using hops
      refine ⟨_, .node horigin hn (List.length_map φ) ?_⟩
      intro slot w d hw hd
      rw [List.getElem?_map, hw] at hd
      obtain rfl : φ w = d := Option.some.inj hd
      exact hφ w (List.mem_of_getElem? hw)

/-- The value `v` of `g` and the value `w` of `g'` denote one element each, and it is the same. -/
def Agrees (I : Interpretation D) (g : Graph) (v : ValueId) (g' : Graph) (w : ValueId) : Prop :=
  ∃ d, ∀ e, (I.Denotes g v e ↔ e = d) ∧ (I.Denotes g' w e ↔ e = d)

theorem agrees_of_denotes (hv : I.Denotes g v d) (hw : I.Denotes g' w d) : I.Agrees g v g' w := by
  refine ⟨d, fun e => ⟨⟨fun he => he.unique hv, ?_⟩, ⟨fun he => he.unique hw, ?_⟩⟩⟩
  · rintro rfl
    exact hv
  · rintro rfl
    exact hw

end Interpretation

end DeferredIR
