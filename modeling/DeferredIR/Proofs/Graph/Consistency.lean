import DeferredIR.Proofs.Checks.Order
import DeferredIR.Proofs.Graph.Live
import Mathlib.Data.List.Lex
import Mathlib.Order.Lattice

/-!
# What verification decides

Verification passes exactly the consistent graphs, and of an inconsistent one it reports the first
condition that is violated. Nothing is asked of the graph: its fields may name entries that do not
exist, and each may contradict the others.

The conditions are ordered as a reader would go through them: the live nodes from the oldest to the
newest, each with its operand count, its result and then its operands from left to right; the
recorded uses, value by value; the formal arguments, function by function.
-/

namespace DeferredIR

open Check

/-- What an operand has to be. -/
inductive Requirement where
  /-- A value. -/
  | known
  /-- A formal argument, or the result of a node. -/
  | defined
  /-- Not the result of a dead node. -/
  | live
  /-- A value of the function of the reader. -/
  | own
  /-- A value that records the read. -/
  | recorded
deriving DecidableEq

/-- A condition on a graph, by what it is about. -/
inductive Condition where
  | count (node : NodeId)
  | definition (node : NodeId)
  | operand (node : NodeId) (slot : Nat) (requirement : Requirement)
  | use (value : ValueId) (position : Nat)
  | formal (func : FuncId) (index : Nat)
deriving DecidableEq

namespace Requirement

/-- The place of a requirement among those on one operand. -/
def rank : Requirement → Nat
  | known => 0
  | defined => 1
  | live => 2
  | own => 3
  | recorded => 4

theorem rank_injective : Function.Injective rank := by
  intro r s h
  cases r <;> cases s <;> simp_all [rank]

/-- The requirements in their order. -/
def all : List Requirement := [known, defined, live, own, recorded]

theorem mem_all (r : Requirement) : r ∈ all := by cases r <;> decide

/-- How it is reported that the operand `v` in `slot` of `n` does not meet a requirement. -/
def report (n : NodeId) (slot : Nat) (v : ValueId) : Requirement → Inconsistency
  | known => .danglingOperand n slot v
  | defined => .brokenDefinition v
  | live => .deadOperand n slot v
  | own => .foreignOperand n slot v
  | recorded => .unrecordedUse n slot v

end Requirement

/-- What a condition is about: a node, the uses of a value or the formal arguments of a
function. -/
inductive Subject where
  | node (node : NodeId)
  | value (value : ValueId)
  | func (func : FuncId)
deriving DecidableEq

/-- The place of a subject, as a word: earlier places are smaller in the order of the
dictionary. -/
def Subject.place : Subject → List Nat
  | node n => [0, n.index]
  | value v => [1, v.index]
  | func f => [2, f.index]

namespace Condition

def subject : Condition → Subject
  | count n | definition n | operand n _ _ => .node n
  | use v _ => .value v
  | formal f _ => .func f

/-- The place of a condition among those about its subject. -/
def detail : Condition → List Nat
  | count _ => [0]
  | definition _ => [1]
  | operand _ slot r => [2, slot, r.rank]
  | use _ i | formal _ i => [i]

def place (c : Condition) : List Nat := c.subject.place ++ c.detail

theorem place_injective : Function.Injective place := by
  rintro (⟨⟨m⟩⟩ | ⟨⟨m⟩⟩ | ⟨⟨m⟩, s, r⟩ | ⟨⟨m⟩, i⟩ | ⟨⟨m⟩, i⟩)
    (⟨⟨n⟩⟩ | ⟨⟨n⟩⟩ | ⟨⟨n⟩, t, q⟩ | ⟨⟨n⟩, j⟩ | ⟨⟨n⟩, j⟩) h <;>
    simp_all [place, subject, detail, Subject.place, Requirement.rank_injective.eq_iff]

instance : PartialOrder Condition := .lift place place_injective

theorem lt_of_subject {c d : Condition} (h : c.subject.place < d.subject.place) : c < d := by
  show c.place < d.place
  unfold place
  cases hc : c.subject <;> cases hd : d.subject <;>
    simp_all [Subject.place, List.cons_lt_cons_iff]

theorem lt_of_detail {c d : Condition} (hs : c.subject = d.subject) (h : c.detail < d.detail) :
    c < d := by
  show c.place < d.place
  unfold place
  rw [hs]
  exact List.append_left_lt h

theorem operand_lt_operand {n : NodeId} {slot : Nat} {r s : Requirement} (h : r.rank < s.rank) :
    operand n slot r < operand n slot s :=
  lt_of_detail rfl (by simp [detail, List.cons_lt_cons_iff, h])

end Condition

namespace Graph

variable {g : Graph} {n m : NodeId} {x : Node} {v : ValueId} {f : FuncId} {slot i : Nat}
variable {c d : Condition} {e e' : Inconsistency}

/-- A graph whose live nodes, use lists and formal arguments agree. -/
structure Consistent (g : Graph) : Prop where
  accepts : ∀ (n : NodeId) (x : Node), g.nodes[n.index]? = some x → x.dead = false →
    x.opcode.arity.accepts x.operands.length = true
  result : ∀ (n : NodeId) (x : Node), g.nodes[n.index]? = some x → x.dead = false →
    g.origin? x.result = some (.result n)
  available : ∀ (n : NodeId) (x : Node), g.nodes[n.index]? = some x → x.dead = false →
    ∀ v ∈ x.operands, g.Available x.func v
  recorded : ∀ (n : NodeId) (x : Node), g.nodes[n.index]? = some x → x.dead = false →
    ∀ (slot : Nat) (v : ValueId), x.operands[slot]? = some v → ⟨n, slot⟩ ∈ g.usesOf v
  read : ∀ (v : ValueId) (u : Use), u ∈ g.usesOf v → ∃ x, g.nodes[u.node.index]? = some x ∧
    x.dead = false ∧ x.operands[u.slot]? = some v
  formal : ∀ (f : FuncId) (func : Func), g.functions[f.index]? = some func →
    ∀ (i : Nat) (v : ValueId), func.formals[i]? = some v → g.origin? v = some (.formal f i)

/-- The operand `v` in `slot` of the node `x` at `n` does not meet a requirement. -/
def OperandFails (g : Graph) (n : NodeId) (x : Node) (slot : Nat) (v : ValueId) :
    Requirement → Prop
  | .known => g.origin? v = none
  | .defined => ∃ m, g.origin? v = some (.result m) ∧ g.nodes[m.index]? = none
  | .live => g.Folded v
  | .own => g.owner? v ≠ some x.func
  | .recorded => ⟨n, slot⟩ ∉ g.usesOf v

/-- What is violated in a graph, and how it is reported. -/
inductive Violates (g : Graph) : Condition → Inconsistency → Prop where
  | count {n : NodeId} {x : Node} (live : g.liveNode? n = some x)
      (count : x.opcode.arity.accepts x.operands.length = false) :
      Violates g (.count n) (.malformedOperands n x.opcode.arity x.operands.length)
  | definition {n : NodeId} {x : Node} (live : g.liveNode? n = some x)
      (definition : g.origin? x.result ≠ some (.result n)) :
      Violates g (.definition n) (.brokenDefinition x.result)
  | operand {n : NodeId} {x : Node} {slot : Nat} {v : ValueId} {r : Requirement}
      (live : g.liveNode? n = some x) (operand : x.operands[slot]? = some v)
      (fails : g.OperandFails n x slot v r) :
      Violates g (.operand n slot r) (r.report n slot v)
  | use {v : ValueId} {i : Nat} {u : Use} (use : (g.usesOf v)[i]? = some u)
      (unread : ¬ ∃ x, g.liveNode? u.node = some x ∧ x.operands[u.slot]? = some v) :
      Violates g (.use v i) (.staleUse v u.node)
  | formal {f : FuncId} {i : Nat} {v : ValueId} (formal : g.formalAt? f i = some v)
      (definition : g.origin? v ≠ some (.formal f i)) :
      Violates g (.formal f i) (.brokenDefinition v)

/-- A condition is reported in one way. -/
theorem Violates.unique (h : g.Violates c e) (h' : g.Violates c e') : e = e' := by
  cases h with
  | count hx _ =>
    cases h' with
    | count hx' _ =>
      obtain rfl := Option.some.inj (hx.symm.trans hx')
      rfl
  | definition hx _ =>
    cases h' with
    | definition hx' _ =>
      obtain rfl := Option.some.inj (hx.symm.trans hx')
      rfl
  | operand hx hv _ =>
    cases h' with
    | operand hx' hv' _ =>
      obtain rfl := Option.some.inj (hx.symm.trans hx')
      obtain rfl := Option.some.inj (hv.symm.trans hv')
      rfl
  | use hu _ =>
    cases h' with
    | use hu' _ =>
      obtain rfl := Option.some.inj (hu.symm.trans hu')
      rfl
  | formal hv _ =>
    cases h' with
    | formal hv' _ =>
      obtain rfl := Option.some.inj (hv.symm.trans hv')
      rfl

/-! ## Consistent graphs violate nothing -/

theorem Available.not_operandFails (ha : g.Available x.func v)
    (hu : ⟨n, slot⟩ ∈ g.usesOf v) (r : Requirement) : ¬ g.OperandFails n x slot v r := by
  have howner := ha.owner?
  obtain ⟨o, ho⟩ := exists_origin?_of_owner? howner
  intro hr
  cases r with
  | known => cases ho.symm.trans hr
  | defined =>
    obtain ⟨m, hm, hnone⟩ := hr
    simp [Graph.owner?, hm, hnone] at howner
  | live => exact ha.not_folded hr
  | own => exact hr howner
  | recorded => exact hr hu

/-- Of the requirements on an operand, `own` leaves only definitions that exist, and `live` only
live ones among them. -/
theorem available_of_not_operandFails (h : ∀ r, ¬ g.OperandFails n x slot v r) :
    g.Available x.func v := by
  have howner : g.owner? v = some x.func := by
    by_contra hne
    exact h .own hne
  exact available_of_owner? howner (h .live)

theorem consistent_iff : g.Consistent ↔ ∀ c e, ¬ g.Violates c e := by
  constructor
  · intro h c e hc
    cases hc with
    | @count n x hx hcount =>
      obtain ⟨hn, hd⟩ := liveNode?_eq_some.mp hx
      rw [h.accepts n x hn hd] at hcount
      cases hcount
    | @definition n x hx hdef =>
      obtain ⟨hn, hd⟩ := liveNode?_eq_some.mp hx
      exact hdef (h.result n x hn hd)
    | @operand n x slot v r hx hv hr =>
      obtain ⟨hn, hd⟩ := liveNode?_eq_some.mp hx
      exact (h.available n x hn hd v (List.mem_of_getElem? hv)).not_operandFails
        (h.recorded n x hn hd slot v hv) r hr
    | @use v i u hu hunread =>
      obtain ⟨x, hn, hd, hv⟩ := h.read v u (List.mem_of_getElem? hu)
      exact hunread ⟨x, liveNode?_of_live hn hd, hv⟩
    | @formal f i v hv hdef =>
      obtain ⟨func, hf, hi⟩ := Option.bind_eq_some_iff.mp hv
      exact hdef (h.formal f func hf i v hi)
  · intro h
    refine ⟨fun n x hn hd => ?_, fun n x hn hd => ?_, fun n x hn hd v hv => ?_,
      fun n x hn hd slot v hv => ?_, fun v u hu => ?_, fun f func hf i v hi => ?_⟩
    · by_contra hcount
      exact h _ _ (.count (liveNode?_of_live hn hd) (by simpa using hcount))
    · by_contra hdef
      exact h _ _ (.definition (liveNode?_of_live hn hd) hdef)
    · obtain ⟨slot, hslot⟩ := List.mem_iff_getElem?.mp hv
      exact available_of_not_operandFails fun r hr =>
        h _ _ (.operand (liveNode?_of_live hn hd) hslot hr)
    · by_contra hunrecorded
      exact h (.operand n slot .recorded) _ (.operand (liveNode?_of_live hn hd) hv hunrecorded)
    · by_contra hunread
      obtain ⟨i, hi⟩ := List.mem_iff_getElem?.mp hu
      refine h _ _ (.use hi ?_)
      rintro ⟨x, hx, hv⟩
      obtain ⟨hn, hd⟩ := liveNode?_eq_some.mp hx
      exact hunread ⟨x, hn, hd, hv⟩
    · by_contra hdef
      exact h _ _ (.formal (Option.bind_eq_some_iff.mpr ⟨func, hf, hi⟩) hdef)

/-! ## The checks -/

theorem pairwise_zipIdx {α : Type} (l : List α) : l.zipIdx.Pairwise fun p q => p.2 < q.2 := by
  have hsnd : (l.zipIdx.map Prod.snd).Pairwise (· < ·) := by
    rw [List.zipIdx_map_snd]
    exact List.pairwise_lt_range'
  exact List.pairwise_map.mp hsnd

theorem pairwise_numbered {ι α : Type} {handle : Nat → ι} {index : ι → Nat}
    (h : ∀ i, index (handle i) = i) (entries : Array α) :
    (numbered handle entries).Pairwise fun p q => index p.1 < index q.1 := by
  rw [numbered, List.pairwise_map]
  exact (pairwise_zipIdx _).imp fun hlt => by rwa [h, h]

open Classical in
/-- The requirements on an operand, one after the other. -/
theorem verifyOperand_eq (g : Graph) (n : NodeId) (x : Node) (slot : Nat) (v : ValueId) :
    g.verifyOperand n x slot v = Requirement.all.forM fun r =>
      refuseIf (g.OperandFails n x slot v r) (r.report n slot v) := by
  simp only [Requirement.all, List.forM_eq_forM, List.forM_cons, List.forM_nil, refuseIf_bind]
  unfold verifyOperand
  cases hv : g.values[v.index]? with
  | none =>
    simp only [OperandFails, origin?, hv]
    rfl
  | some value =>
    have ho := origin?_of_value hv
    have hu := usesOf_of_value hv
    cases hdef : value.origin with
    | formal f i =>
      simp [OperandFails, Requirement.report, Folded, owner?, ho, hu, hdef]
      rfl
    | result m =>
      cases hm : g.nodes[m.index]? with
      | none =>
        simp [OperandFails, Requirement.report, ho, hm, hdef, -getElem?_eq_none_iff]
      | some y =>
        cases hd : y.dead <;>
          simp [OperandFails, Requirement.report, Folded, owner?, ho, hu, hm, hd, hdef,
            -getElem?_eq_none_iff]
        rfl

theorem reportsFirst_verifyOperand (g : Graph) (n : NodeId) (x : Node) (slot : Nat)
    (v : ValueId) : ReportsFirst (g.verifyOperand n x slot v) fun (c : Condition) e =>
      ∃ r ∈ Requirement.all, g.OperandFails n x slot v r ∧ c = .operand n slot r ∧
        e = r.report n slot v := by
  classical
  rw [verifyOperand_eq]
  refine ReportsFirst.forM (fun r _ => .refuseIf _ (Condition.operand n slot r) _) ?_
  have hordered : Requirement.all.Pairwise fun r s => r.rank < s.rank := by decide
  refine hordered.imp fun hlt => ?_
  rintro _ _ _ _ ⟨-, rfl, -⟩ ⟨-, rfl, -⟩
  exact Condition.operand_lt_operand hlt

theorem reportsFirst_verifyOperands (g : Graph) (n : NodeId) (x : Node) :
    ReportsFirst (x.operands.zipIdx.forM fun p => g.verifyOperand n x p.2 p.1)
      fun (c : Condition) e => ∃ p ∈ x.operands.zipIdx, ∃ r ∈ Requirement.all,
        g.OperandFails n x p.2 p.1 r ∧ c = .operand n p.2 r ∧ e = r.report n p.2 p.1 := by
  refine ReportsFirst.forM (fun p _ => g.reportsFirst_verifyOperand n x p.2 p.1) ?_
  refine (pairwise_zipIdx _).imp fun hlt => ?_
  rintro _ _ _ _ ⟨r, -, -, rfl, -⟩ ⟨s, -, -, rfl, -⟩
  exact Condition.lt_of_detail rfl (by simp [Condition.detail, List.cons_lt_cons_iff, hlt])

theorem verifyNode_eq (g : Graph) (n : NodeId) (x : Node) :
    g.verifyNode n x = (do
      refuseIf (¬ x.opcode.arity.accepts x.operands.length = true)
        (.malformedOperands n x.opcode.arity x.operands.length)
      refuseIf (g.origin? x.result ≠ some (.result n)) (.brokenDefinition x.result)
      x.operands.zipIdx.forM fun p => g.verifyOperand n x p.2 p.1) := by
  rw [refuseIf_bind, refuseIf_bind]
  unfold verifyNode
  split <;> split <;> simp_all

/-- What can be violated at a live node. -/
theorem violates_node_iff (hx : g.liveNode? n = some x) :
    c.subject = .node n ∧ g.Violates c e ↔
      (¬ x.opcode.arity.accepts x.operands.length = true ∧ c = .count n ∧
        e = .malformedOperands n x.opcode.arity x.operands.length) ∨
      (g.origin? x.result ≠ some (.result n) ∧ c = .definition n ∧
        e = .brokenDefinition x.result) ∨
      ∃ p ∈ x.operands.zipIdx, ∃ r ∈ Requirement.all, g.OperandFails n x p.2 p.1 r ∧
        c = .operand n p.2 r ∧ e = r.report n p.2 p.1 := by
  constructor
  · rintro ⟨hs, hc⟩
    cases hc with
    | count hy h =>
      obtain rfl := Subject.node.inj hs
      obtain rfl := Option.some.inj (hx.symm.trans hy)
      exact .inl ⟨by simpa using h, rfl, rfl⟩
    | definition hy h =>
      obtain rfl := Subject.node.inj hs
      obtain rfl := Option.some.inj (hx.symm.trans hy)
      exact .inr (.inl ⟨h, rfl, rfl⟩)
    | @operand _ _ slot v r hy hv h =>
      obtain rfl := Subject.node.inj hs
      obtain rfl := Option.some.inj (hx.symm.trans hy)
      have hmem : (v, slot) ∈ x.operands.zipIdx := List.mem_zipIdx_iff_getElem?.mpr hv
      exact .inr (.inr ⟨(v, slot), hmem, r, r.mem_all, h, rfl, rfl⟩)
    | use | formal => cases hs
  · rintro (⟨h, rfl, rfl⟩ | ⟨h, rfl, rfl⟩ | ⟨⟨v, slot⟩, hv, r, -, h, rfl, rfl⟩)
    · exact ⟨rfl, .count hx (by simpa using h)⟩
    · exact ⟨rfl, .definition hx h⟩
    · exact ⟨rfl, .operand hx (List.mem_zipIdx_iff_getElem?.mp hv) h⟩

theorem reportsFirst_verifyNode (hx : g.liveNode? n = some x) :
    ReportsFirst (g.verifyNode n x) fun (c : Condition) e => c.subject = .node n ∧
      g.Violates c e := by
  rw [verifyNode_eq]
  refine ((ReportsFirst.refuseIf _ (.count n) _).bind
    ((ReportsFirst.refuseIf _ (.definition n) _).bind
      (g.reportsFirst_verifyOperands n x) ?_) ?_).congr fun c e => (violates_node_iff hx).symm
  · rintro _ _ _ _ ⟨-, rfl, -⟩ ⟨p, -, r, -, -, rfl, -⟩
    exact Condition.lt_of_detail rfl (by simp [Condition.detail, List.cons_lt_cons_iff])
  · rintro _ _ _ _ ⟨-, rfl, -⟩ (⟨-, rfl, -⟩ | ⟨p, -, r, -, -, rfl, -⟩)
    all_goals exact Condition.lt_of_detail rfl (by simp [Condition.detail, List.cons_lt_cons_iff])

theorem reportsFirst_verifyUses {value : Value} (hv : g.values[v.index]? = some value) :
    ReportsFirst (g.verifyUses v value) fun (c : Condition) e => c.subject = .value v ∧
      g.Violates c e := by
  classical
  have heq : g.verifyUses v value = value.uses.zipIdx.forM fun p =>
      refuseIf (¬ ∃ x, g.liveNode? p.1.node = some x ∧ x.operands[p.1.slot]? = some v)
        (.staleUse v p.1.node) := by
    unfold verifyUses
    rw [forM_zipIdx]
    congr 1
    funext p
    rw [refuseIf]
    simp only [← reads_iff_liveNode?]
    cases g.reads p.1 v <;> rfl
  rw [heq]
  refine (ReportsFirst.forM (fun p _ => .refuseIf _ (Condition.use v p.2) _) ?_).congr fun c e => ?_
  · refine (pairwise_zipIdx _).imp fun hlt => ?_
    rintro _ _ _ _ ⟨-, rfl, -⟩ ⟨-, rfl, -⟩
    exact Condition.lt_of_detail rfl (by simp [Condition.detail, List.cons_lt_cons_iff, hlt])
  · constructor
    · rintro ⟨⟨u, i⟩, hu, h, rfl, rfl⟩
      refine ⟨rfl, .use ?_ h⟩
      rw [usesOf_of_value hv]
      exact List.mem_zipIdx_iff_getElem?.mp hu
    · rintro ⟨hs, hc⟩
      cases hc with
      | @use _ i u hu h =>
        obtain rfl := Subject.value.inj hs
        rw [usesOf_of_value hv] at hu
        exact ⟨(u, i), List.mem_zipIdx_iff_getElem?.mpr hu, h, rfl, rfl⟩
      | count | definition | operand | formal => cases hs

theorem reportsFirst_verifyFormals {func : Func} (hf : g.functions[f.index]? = some func) :
    ReportsFirst (g.verifyFormals f func) fun (c : Condition) e => c.subject = .func f ∧
      g.Violates c e := by
  refine ReportsFirst.congr
    (ReportsFirst.forM (fun p _ => .refuseIf _ (Condition.formal f p.2) _) ?_) fun c e => ?_
  · refine (pairwise_zipIdx _).imp fun hlt => ?_
    rintro _ _ _ _ ⟨-, rfl, -⟩ ⟨-, rfl, -⟩
    exact Condition.lt_of_detail rfl (by simp [Condition.detail, List.cons_lt_cons_iff, hlt])
  · constructor
    · rintro ⟨⟨v, i⟩, hv, h, rfl, rfl⟩
      refine ⟨rfl, .formal ?_ h⟩
      simpa [formalAt?, hf] using List.mem_zipIdx_iff_getElem?.mp hv
    · rintro ⟨hs, hc⟩
      cases hc with
      | @formal _ i v hv h =>
        obtain rfl := Subject.func.inj hs
        simp only [formalAt?, hf, Option.bind_some] at hv
        exact ⟨(v, i), List.mem_zipIdx_iff_getElem?.mpr hv, h, rfl, rfl⟩
      | count | definition | operand | use => cases hs

/-- Entries are checked in the order of what is said about them. -/
theorem reportsFirst_entries (g : Graph) {ι α : Type} (subject : ι → Subject)
    {entries : List (ι × α)} {check : ι × α → Except Inconsistency Unit}
    (hcheck : ∀ p ∈ entries, ReportsFirst (check p) fun (c : Condition) e =>
      c.subject = subject p.1 ∧ g.Violates c e)
    (hentries : entries.Pairwise fun p q => (subject p.1).place < (subject q.1).place) :
    ReportsFirst (entries.forM check) fun (c : Condition) e =>
      ∃ p ∈ entries, c.subject = subject p.1 ∧ g.Violates c e := by
  refine ReportsFirst.forM hcheck (hentries.imp fun hlt => ?_)
  rintro c _ d _ ⟨hc, -⟩ ⟨hd, -⟩
  exact Condition.lt_of_subject (hc ▸ hd ▸ hlt)

theorem reportsFirst_verify (g : Graph) : ReportsFirst g.verify g.Violates := by
  have hlive : g.liveEntries.Pairwise fun p q => p.1.index < q.1.index :=
    (pairwise_numbered (fun _ => rfl) g.nodes).filter _
  have hvalues : g.valueEntries.Pairwise fun p q => p.1.index < q.1.index :=
    pairwise_numbered (fun _ => rfl) g.values
  have hfuncs : g.funcEntries.Pairwise fun p q => p.1.index < q.1.index :=
    pairwise_numbered (fun _ => rfl) g.functions
  have hnodes := g.reportsFirst_entries Subject.node
    (fun p hp => reportsFirst_verifyNode (liveNode?_eq_some.mpr (mem_liveEntries.mp hp)))
    (hlive.imp fun hlt => by simp [Subject.place, List.cons_lt_cons_iff, hlt])
  have huses := g.reportsFirst_entries Subject.value
    (fun p hp => reportsFirst_verifyUses (mem_valueEntries.mp hp))
    (hvalues.imp fun hlt => by simp [Subject.place, List.cons_lt_cons_iff, hlt])
  have hformals := g.reportsFirst_entries Subject.func
    (fun p hp => reportsFirst_verifyFormals (mem_funcEntries.mp hp))
    (hfuncs.imp fun hlt => by simp [Subject.place, List.cons_lt_cons_iff, hlt])
  refine (hnodes.bind (huses.bind hformals ?_) ?_).congr fun c e => ?_
  · rintro c _ d _ ⟨p, -, hc, -⟩ ⟨q, -, hd, -⟩
    exact Condition.lt_of_subject (by simp [hc, hd, Subject.place, List.cons_lt_cons_iff])
  · rintro c _ d _ ⟨p, -, hc, -⟩ (⟨q, -, hd, -⟩ | ⟨q, -, hd, -⟩)
    all_goals exact Condition.lt_of_subject (by simp [hc, hd, Subject.place, List.cons_lt_cons_iff])
  · constructor
    · rintro (⟨-, -, -, h⟩ | ⟨-, -, -, h⟩ | ⟨-, -, -, h⟩)
      all_goals exact h
    · intro h
      cases id h with
      | @count n x hx _ | @definition n x hx _ | @operand n x _ _ _ hx _ _ =>
        exact .inl ⟨(n, x), mem_liveEntries.mpr (liveNode?_eq_some.mp hx), rfl, h⟩
      | @use v i u hu _ =>
        obtain ⟨value, hv⟩ := exists_value_of_mem_usesOf (List.mem_of_getElem? hu)
        exact .inr (.inl ⟨(v, value), mem_valueEntries.mpr hv, rfl, h⟩)
      | @formal f i v hv _ =>
        obtain ⟨func, hf, -⟩ := Option.bind_eq_some_iff.mp hv
        exact .inr (.inr ⟨(f, func), mem_funcEntries.mpr hf, rfl, h⟩)

/-- Verification answers on every graph, without a fault. It passes exactly the consistent ones, and
what it reports of any other graph is its first violated condition. -/
theorem verify_decides (g : Graph) : (g.verify = .ok () ↔ g.Consistent) ∧
    ∀ e, g.verify = .error e ↔ ∃ c, g.Violates c e ∧ ∀ d e', g.Violates d e' → c ≤ d := by
  have hfirst := g.reportsFirst_verify
  refine ⟨?_, fun e => hfirst.eq_error_iff (fun _ _ _ => Violates.unique) e⟩
  rw [consistent_iff]
  exact hfirst.eq_ok_iff

/-- A node that reads nothing, though it needs an operand, and whose result does not exist. -/
example :
    let x : Node := { opcode := .cast, operands := [], result := ⟨7⟩, func := ⟨0⟩ }
    ({ nodes := #[x] } : Graph).verify = .error (.malformedOperands ⟨0⟩ (.exactly 1) 0) := rfl

end Graph

end DeferredIR
