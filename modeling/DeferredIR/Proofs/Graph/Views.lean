import DeferredIR.Graph.Edit
import DeferredIR.Graph.Verify
import DeferredIR.Proofs.Checks
import Mathlib.Tactic.ByContra

/-!
# Views of a graph

What a graph says of a handle, as partial functions and predicates, and how the reads and checks
of the library answer in terms of them. No view looks at more than one arena entry at a time, so a
change of a graph is described by what it does to each view.
-/

namespace DeferredIR

open Check

@[simp] theorem fetch_eq_ok {α : Type} {entries : Array α} {i : Nat} {x : α} :
    fetch entries i = .ok x ↔ entries[i]? = some x := by
  unfold fetch
  cases entries[i]? <;> simp

namespace Graph

variable {g : Graph} {n : NodeId} {v w : ValueId} {f : FuncId}

/-- The result of `n`. -/
def resultOf? (g : Graph) (n : NodeId) : Option ValueId := g.nodes[n.index]?.map Node.result

/-- The formal argument of `f` at `index`. -/
def formalAt? (g : Graph) (f : FuncId) (index : Nat) : Option ValueId :=
  g.functions[f.index]?.bind fun x => x.formals[index]?

/-- The function to which `v` belongs. -/
def owner? (g : Graph) (v : ValueId) : Option FuncId :=
  match g.origin? v with
  | some (.formal f _) => some f
  | some (.result n) => g.nodes[n.index]?.map Node.func
  | none => none

/-- The type of `v`; a value that does not exist has the undefined one. -/
def typeOf (g : Graph) (v : ValueId) : TypeId :=
  (g.values[v.index]?.map Value.type).getD .undefined

/-- Whether `v` is the result of a node that has been folded away. -/
def Folded (g : Graph) (v : ValueId) : Prop :=
  ∃ n node, g.origin? v = some (.result n) ∧ g.nodes[n.index]? = some node ∧ node.dead = true

/-- `v` is a formal argument of `f` or the result of a live node of `f`. -/
def Available (g : Graph) (f : FuncId) (v : ValueId) : Prop :=
  (∃ i, g.origin? v = some (.formal f i)) ∨ ∃ n node, g.origin? v = some (.result n) ∧
    g.nodes[n.index]? = some node ∧ node.dead = false ∧ node.func = f

/-! ## Reads -/

theorem node_eq_ok {node : Node} : g.node n = .ok node ↔ g.nodes[n.index]? = some node :=
  fetch_eq_ok

theorem value_eq_ok {value : Value} : g.value v = .ok value ↔ g.values[v.index]? = some value :=
  fetch_eq_ok

theorem func_eq_ok {func : Func} : g.func f = .ok func ↔ g.functions[f.index]? = some func :=
  fetch_eq_ok

theorem operand_eq_ok {node : Node} {slot : Nat} :
    node.operand slot = .ok v ↔ node.operands[slot]? = some v := by
  unfold Node.operand
  cases node.operands[slot]? <;> simp

theorem origin?_of_value {value : Value} (h : g.values[v.index]? = some value) :
    g.origin? v = some value.origin := by
  simp [origin?, h]

theorem typeOf_of_value {value : Value} (h : g.values[v.index]? = some value) :
    g.typeOf v = value.type := by
  simp [typeOf, h]

theorem usesOf_of_value {value : Value} (h : g.values[v.index]? = some value) :
    g.usesOf v = value.uses := by
  simp [usesOf, h]

theorem exists_value_of_mem_usesOf {u : Use} (h : u ∈ g.usesOf v) :
    ∃ value, g.values[v.index]? = some value := by
  unfold usesOf at h
  cases hv : g.values[v.index]? with
  | none => simp [hv] at h
  | some value => exact ⟨value, rfl⟩

theorem exists_value_of_origin? {o : Origin} (h : g.origin? v = some o) :
    ∃ value, g.values[v.index]? = some value ∧ value.origin = o :=
  Option.map_eq_some_iff.mp h

theorem lt_of_origin? {o : Origin} (h : g.origin? v = some o) : v.index < g.values.size := by
  obtain ⟨value, hv, -⟩ := exists_value_of_origin? h
  exact (Array.getElem?_eq_some_iff.mp hv).1

theorem owner?_of_formal {index : Nat} (h : g.origin? v = some (.formal f index)) :
    g.owner? v = some f := by
  simp [owner?, h]

theorem owner?_of_result {node : Node} (h : g.origin? v = some (.result n))
    (hn : g.nodes[n.index]? = some node) : g.owner? v = some node.func := by
  simp [owner?, h, hn]

theorem exists_origin?_of_owner? (h : g.owner? v = some f) : ∃ o, g.origin? v = some o := by
  unfold owner? at h
  cases ho : g.origin? v with
  | none => simp [ho] at h
  | some o => exact ⟨o, rfl⟩

theorem lt_of_owner? (h : g.owner? v = some f) : v.index < g.values.size := by
  obtain ⟨o, ho⟩ := exists_origin?_of_owner? h
  exact lt_of_origin? ho

/-- What a function owns it may read, unless it has been folded away. -/
theorem available_of_owner? (h : g.owner? v = some f) (hlive : ¬ g.Folded v) :
    g.Available f v := by
  obtain ⟨o, ho⟩ := exists_origin?_of_owner? h
  cases o with
  | formal f' i =>
    rw [owner?_of_formal ho] at h
    exact .inl ⟨i, Option.some.inj h ▸ ho⟩
  | result n =>
    simp only [owner?, ho, Option.map_eq_some_iff] at h
    obtain ⟨node, hn, hfunc⟩ := h
    refine .inr ⟨n, node, ho, hn, ?_, hfunc⟩
    by_contra hdead
    exact hlive ⟨n, node, ho, hn, by simpa using hdead⟩

theorem Available.owner? (ha : g.Available f v) : g.owner? v = some f := by
  rcases ha with ⟨i, ho⟩ | ⟨n, x, ho, hx, -, rfl⟩
  · exact owner?_of_formal ho
  · exact owner?_of_result ho hx

theorem Available.not_folded (ha : g.Available f v) : ¬ g.Folded v := by
  rintro ⟨m, y, hm, hy, hdead⟩
  rcases ha with ⟨i, ho⟩ | ⟨n, x, ho, hx, hlive, -⟩
  · cases ho.symm.trans hm
  · obtain rfl := Origin.result.inj (Option.some.inj (ho.symm.trans hm))
    obtain rfl := Option.some.inj (hx.symm.trans hy)
    cases hlive.symm.trans hdead

theorem owner_eq_ok : g.owner v = .ok f ↔ g.owner? v = some f := by
  unfold owner owner? origin?
  simp only [bind_eq_ok, value_eq_ok]
  constructor
  · rintro ⟨value, hv, ho⟩
    cases h : value.origin <;> simp_all [node_eq_ok]
  · intro h
    cases hv : g.values[v.index]? with
    | none => simp [hv] at h
    | some value =>
      refine ⟨value, rfl, ?_⟩
      cases ho : value.origin <;> simp_all [node_eq_ok]

theorem definingNode?_eq_ok_some {node : Node} :
    g.definingNode? v = .ok (some node) ↔
      ∃ n, g.origin? v = some (.result n) ∧ g.nodes[n.index]? = some node := by
  unfold definingNode? origin?
  simp only [bind_eq_ok, value_eq_ok]
  constructor
  · rintro ⟨value, hv, ho⟩
    cases h : value.origin <;> simp_all [node_eq_ok]
  · rintro ⟨n, ho, hn⟩
    obtain ⟨value, hv, hv'⟩ := Option.map_eq_some_iff.mp ho
    exact ⟨value, hv, by simp [hv', node_eq_ok, hn]⟩

theorem formal?_eq_ok_some {index : Nat} :
    g.formal? f index = .ok (some v) ↔ g.formalAt? f index = some v := by
  unfold formal? formalAt?
  simp only [bind_eq_ok, func_eq_ok, pure_eq_ok, Option.bind_eq_some_iff]

theorem reads_iff {u : Use} :
    g.reads u v = true ↔ ∃ node, g.nodes[u.node.index]? = some node ∧ node.dead = false ∧
      node.operands[u.slot]? = some v := by
  unfold reads
  cases g.nodes[u.node.index]? <;> simp

/-- A slot reads one value. -/
theorem reads_inj {u : Use} (hv : g.reads u v = true) (hw : g.reads u w = true) : v = w := by
  obtain ⟨node, hn, -, h⟩ := reads_iff.mp hv
  obtain ⟨node', hn', -, h'⟩ := reads_iff.mp hw
  obtain rfl : node = node' := Option.some.inj (hn.symm.trans hn')
  exact Option.some.inj (h.symm.trans h')

/-! ## Checks -/

theorem not_folded_of_requireLive (h : g.requireLive v = .ok ()) : ¬ g.Folded v := by
  rintro ⟨n, node, ho, hn, hd⟩
  have hdef : g.definingNode? v = .ok (some node) := definingNode?_eq_ok_some.mpr ⟨n, ho, hn⟩
  unfold requireLive at h
  obtain ⟨a, ha, h⟩ := bind_eq_ok.mp h
  obtain rfl : some node = a := Except.ok.inj (hdef.symm.trans (liftM_eq_ok.mp ha))
  obtain ⟨opcode, operands, result, func, dead⟩ := node
  subst hd
  simp at h

/-- A value that may be read belongs to the function and has not been folded away. -/
theorem of_requireReadable (h : g.requireReadable f v = .ok ()) :
    g.owner? v = some f ∧ ¬ g.Folded v := by
  unfold requireReadable at h
  simp only [bind_eq_ok, liftM_eq_ok] at h
  obtain ⟨_, -, _, hl, owner, ho, h⟩ := h
  have heq : owner = f := by
    by_contra hne
    simp [hne] at h
  exact ⟨heq ▸ owner_eq_ok.mp ho, not_folded_of_requireLive hl⟩

theorem lt_of_requireFunc (h : g.requireFunc f = .ok ()) : f.index < g.functions.size := by
  unfold requireFunc at h
  by_contra hlt
  simp [hlt] at h

/-- What is known of a draft that is fit for `f`. -/
theorem of_requireDraft {d : Draft} (h : g.requireDraft f d = .ok ()) :
    f.index < g.functions.size ∧ (∀ v ∈ d.operands, g.owner? v = some f ∧ ¬ g.Folded v) ∧
      d.opcode.arity.accepts d.operands.length = true := by
  unfold requireDraft at h
  simp only [bind_eq_ok, mapError_eq_ok] at h
  obtain ⟨_, hf, _, -, _, hv, hk⟩ := h
  refine ⟨lt_of_requireFunc hf, fun v hm => of_requireReadable (forM_eq_ok.mp hv v hm), ?_⟩
  unfold Opcode.check at hk
  by_contra hne
  simp [hne] at hk

theorem lt_of_requireDraft {d : Draft} (h : g.requireDraft f d = .ok ()) :
    ∀ v ∈ d.operands, v.index < g.values.size := by
  obtain ⟨-, hv, -⟩ := of_requireDraft h
  exact fun v hm => lt_of_owner? (hv v hm).1

theorem contains_of_requireType {t : TypeId} (h : g.requireType t = .ok ()) :
    g.types.contains t = true := by
  unfold requireType at h
  by_contra hc
  simp [hc] at h

theorem contains_of_requireDraft {d : Draft} (h : g.requireDraft f d = .ok ()) :
    g.types.contains d.type = true := by
  unfold requireDraft at h
  simp only [bind_eq_ok] at h
  obtain ⟨_, -, _, ht, -⟩ := h
  exact contains_of_requireType ht

theorem lt_of_requireValue (h : g.requireValue v = .ok ()) : v.index < g.values.size := by
  unfold requireValue at h
  by_contra hlt
  simp [hlt] at h

/-- A value is typed once, with a known type of the table. -/
theorem of_requireAssignable {t : TypeId} (h : g.requireAssignable v t = .ok ()) :
    v.index < g.values.size ∧ g.typeOf v = .undefined ∧ t ≠ .undefined ∧
      g.types.contains t = true := by
  unfold requireAssignable at h
  obtain ⟨_, hv, h⟩ := bind_eq_ok.mp h
  obtain ⟨_, -, h⟩ := bind_eq_ok.mp h
  obtain ⟨_, ht, h⟩ := bind_eq_ok.mp h
  dsimp only at h
  split at h
  · simp at h
  · obtain ⟨value, hvalue, h⟩ := bind_eq_ok.mp h
    refine ⟨lt_of_requireValue hv, ?_, ‹_›, contains_of_requireType ht⟩
    rw [typeOf_of_value (value_eq_ok.mp (liftM_eq_ok.mp hvalue))]
    by_contra htyped
    simp [htyped] at h

/-- What is known of a value that may take the place of another. -/
theorem of_requireReplaceable {old new : ValueId} (h : g.requireReplaceable old new = .ok ()) :
    ∃ f, g.owner? old = some f ∧ g.owner? new = some f ∧ ¬ g.Folded new := by
  unfold requireReplaceable at h
  simp only [bind_eq_ok, liftM_eq_ok] at h
  obtain ⟨_, -, _, -, f, hf, hr⟩ := h
  exact ⟨f, owner_eq_ok.mp hf, of_requireReadable hr⟩

end Graph

end DeferredIR
