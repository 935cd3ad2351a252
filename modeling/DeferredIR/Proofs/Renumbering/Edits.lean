import DeferredIR.Fold.Rounds
import DeferredIR.Proofs.Fold.OneRound
import DeferredIR.Proofs.Graph.Changes
import DeferredIR.Proofs.Renumbering.Reads

/-!
# Edits of graphs over different type tables

An edit that is made to two graphs which differ in handles only ends in the same way on both, and
leaves two such graphs: it reads the same, and what it writes depends on a handle at most by storing
it.
-/

namespace DeferredIR

open TypeTable (SameType)
open Graph.Renumbered (requireType)

namespace Graph.Renumbered

variable {g g' : Graph} {v : ValueId} {n : NodeId} {f : FuncId} {t t' : TypeId}

/-! ## Writes -/

theorem usesOf (h : g.Renumbered g') (v : ValueId) : g'.usesOf v = g.usesOf v := by
  have hv := h.values v.index
  rw [Graph.usesOf, Graph.usesOf]
  generalize g.values[v.index]? = x? at hv
  generalize g'.values[v.index]? = x?' at hv
  cases hv with
  | none => rfl
  | some hx => exact hx.uses

theorem operandsOf (h : g.Renumbered g') (n : NodeId) : g'.operandsOf n = g.operandsOf n := by
  rw [Graph.operandsOf, Graph.operandsOf, h.nodes]

theorem nextFunc (h : g.Renumbered g') : g'.nextFunc = g.nextFunc := by
  rw [Graph.nextFunc, Graph.nextFunc, h.functions]

theorem nextNode (h : g.Renumbered g') : g'.nextNode = g.nextNode := by
  rw [Graph.nextNode, Graph.nextNode, h.nodes]

theorem nextValue (h : g.Renumbered g') : g'.nextValue = g.nextValue := by
  rw [Graph.nextValue, Graph.nextValue, h.size]

/-- What is put in the place of two values has their types, or types that agree. -/
theorem rel_map {T T' : TypeTable} {x? x?' : Option Value} {F F' : Value → Value}
    (hv : Option.Rel (Value.Renumbered T T') x? x?')
    (hF : ∀ x x', x.Renumbered T T' x' → (F x).Renumbered T T' (F' x')) :
    Option.Rel (Value.Renumbered T T') (x?.map F) (x?'.map F') := by
  cases hv with
  | none => exact .none
  | some hx => exact .some (hF _ _ hx)

theorem withTypes (h : g.Renumbered g') {T T' : TypeTable} (hT : g.types.names <+: T.names)
    (hT' : g'.types.names <+: T'.names) :
    Renumbered { g with types := T } { g' with types := T' } where
  functions := h.functions
  nodes := h.nodes
  values i := by
    have hv := h.values i
    generalize g.values[i]? = x? at hv
    generalize g'.values[i]? = x?' at hv
    cases hv with
    | none => exact .none
    | some hx => exact .some ⟨hx.origin, hx.uses, hx.type.mono hT hT'⟩

theorem redirect (h : g.Renumbered g') (old new : ValueId) :
    (g.redirect old new).Renumbered (g'.redirect old new) where
  functions := h.functions
  nodes := by rw [Graph.redirect, Graph.redirect, h.usesOf, h.nodes]
  values i := by
    rw [getElem?_values_redirect, getElem?_values_redirect, h.usesOf]
    exact rel_map (h.values i) fun x x' hx => ⟨hx.origin, by simp only [hx.uses], hx.type⟩

theorem retire (h : g.Renumbered g') (n : NodeId) : (g.retire n).Renumbered (g'.retire n) where
  functions := h.functions
  nodes := by rw [Graph.retire, Graph.retire, h.nodes]
  values i := by
    have hentry (k : Graph) := getElem?_values_retire k n ⟨i⟩
    rw [hentry g, hentry g', h.operandsOf]
    refine rel_map (h.values i) fun x x' hx => ?_
    split
    · exact ⟨hx.origin, by simp only [hx.uses], hx.type⟩
    · exact hx

theorem assignType (h : g.Renumbered g') (v : ValueId) (ht : SameType g.types g'.types t t') :
    (g.assignType v t).Renumbered (g'.assignType v t') where
  functions := h.functions
  nodes := h.nodes
  values i := by
    simp only [Graph.assignType, modifyValue, Array.getElem?_modify]
    split
    · exact rel_map (h.values i) fun x x' hx => ⟨hx.origin, hx.uses, ht⟩
    · exact h.values i

theorem append (h : g.Renumbered g') (f : FuncId) {d d' : Draft}
    (hd : d.Renumbered g.types g'.types d') :
    (g.append f d).Renumbered (g'.append f d') where
  functions := by rw [Graph.append, Graph.append, h.functions, h.nextNode]
  nodes := by rw [Graph.append, Graph.append, h.nodes, h.nextValue, hd.opcode, hd.operands]
  values i := by
    have hentry (k : Graph) (d : Draft) := getElem?_values_append k f d ⟨i⟩
    rw [hentry g, hentry g', h.nextValue, h.nextNode, hd.operands]
    refine rel_map ?_ fun x x' hx => ⟨hx.origin, by simp only [hx.uses], hx.type⟩
    split
    · exact .some ⟨rfl, rfl, hd.type⟩
    · exact h.values i

theorem appendFunc (h : g.Renumbered g') (name : String) {types types' : List TypeId}
    (ht : List.Forall₂ (SameType g.types g'.types) types types') :
    (g.appendFunc name types).Renumbered (g'.appendFunc name types') where
  functions := by
    rw [Graph.appendFunc, Graph.appendFunc, h.functions, h.size, ht.length_eq]
  nodes := h.nodes
  values i := by
    rw [getElem?_values_appendFunc, getElem?_values_appendFunc, h.size, h.nextFunc]
    split
    · exact h.values i
    · by_cases hi : i - g.values.size < types.length
      · have hi' : i - g.values.size < types'.length := ht.length_eq ▸ hi
        rw [List.getElem?_eq_getElem hi, List.getElem?_eq_getElem hi']
        exact .some ⟨rfl, rfl, ht.get hi hi'⟩
      · have hi' : ¬ i - g.values.size < types'.length := ht.length_eq ▸ hi
        rw [List.getElem?_eq_none (Nat.le_of_not_lt hi),
          List.getElem?_eq_none (Nat.le_of_not_lt hi')]
        exact .none

end Graph.Renumbered

namespace Edit

variable {g g' : Graph} {α β : Type}

/-! ## Runs -/

/-- The runs end with one answer or one error, on graphs that differ in handles only. -/
inductive SameEnd : EStateM.Result Error Graph α → EStateM.Result Error Graph α → Prop where
  | ok (a : α) {g g' : Graph} (graphs : g.Renumbered g') : SameEnd (.ok a g) (.ok a g')
  | error (e : Error) {g g' : Graph} (graphs : g.Renumbered g') : SameEnd (.error e g) (.error e g')

/-- On graphs that differ in handles only, the edit ends in the same way. -/
structure Uniform (x : Edit α) : Prop where
  sameEnd : ∀ {g g' : Graph}, g.Renumbered g' → SameEnd (x.run g) (x.run g')

theorem SameEnd.bind {x x' : Edit α} {φ φ' : α → Edit β} (hx : SameEnd (x.run g) (x'.run g'))
    (hφ : ∀ a {h h' : Graph}, h.Renumbered h' → SameEnd ((φ a).run h) ((φ' a).run h')) :
    SameEnd ((x >>= φ).run g) ((x' >>= φ').run g') := by
  rw [EStateM.run_bind, EStateM.run_bind]
  generalize x.run g = r at hx
  generalize x'.run g' = r' at hx
  cases hx with
  | ok a h => exact hφ a h
  | error e h => exact .error e h

namespace Uniform

theorem bind {x : Edit α} {φ : α → Edit β} (hx : x.Uniform) (hφ : ∀ a, (φ a).Uniform) :
    (x >>= φ).Uniform where
  sameEnd h := (hx.sameEnd h).bind fun a _ _ => (hφ a).sameEnd

theorem pure (a : α) : (pure a : Edit α).Uniform where
  sameEnd h := .ok a h

theorem read {m : Type → Type} [MonadLiftT m (Except Error)] {φ : Graph → m α}
    (hφ : ∀ {g g' : Graph}, g.Renumbered g' → φ g' = φ g) : (Edit.read φ).Uniform where
  sameEnd {g g'} h := by
    rw [run_read, run_read, hφ h]
    cases (liftM (φ g) : Except Error α) with
    | ok a => exact .ok a h
    | error e => exact .error e h

theorem discard {x : Edit α} (hx : x.Uniform) : (discard x).Uniform := hx.bind fun _ => .pure _

end Uniform

/-! ## Edits -/

theorem uniform_redirect (old new : ValueId) : (redirect old new).Uniform where
  sameEnd {g g'} h := by
    rw [run_redirect, run_redirect, h.readers]
    split
    · exact .ok 0 h
    · cases g.readers old new with
      | ok uses => exact .ok _ (h.redirect old new)
      | error e => exact .error _ h

theorem uniform_replace (old new : ValueId) : (replace old new).Uniform where
  sameEnd {g g'} h := by
    rw [run_replace, run_replace, h.requireReplaceable]
    cases g.requireReplaceable old new with
    | ok _ => exact (uniform_redirect old new).sameEnd h
    | error e => exact .error e h

theorem uniform_retire (n : NodeId) : (retire n).Uniform where
  sameEnd {g g'} h := by
    rw [run_retire, run_retire, h.readable]
    cases g.readable n with
    | error e => exact .error _ h
    | ok node =>
      dsimp only
      split
      · exact .ok () h
      · exact .ok () (h.retire n)

theorem uniform_foldNode (options : FoldOptions) (n : NodeId) : (foldNode options n).Uniform := by
  refine .bind (.read fun h => h.replacement? options n) fun v? => ?_
  cases v? with
  | none => exact .pure _
  | some v =>
    refine .bind (.read fun h => h.node n) fun node => ?_
    refine .bind (uniform_redirect node.result v).discard fun _ => ?_
    exact .bind (uniform_retire n) fun _ => .pure _

theorem uniform_foldNodes (options : FoldOptions) (nodes : List NodeId) (report : FoldReport) :
    (foldNodes options nodes report).Uniform := by
  induction nodes generalizing report with
  | nil => exact .pure _
  | cons n nodes ih =>
    refine .bind (uniform_foldNode options n) fun opcode? => ?_
    cases opcode? with
    | none => exact ih report
    | some opcode => exact ih (report.addFold opcode)

theorem uniform_foldRounds (options : FoldOptions) (bound : Nat) (report : FoldReport) :
    (foldRounds options bound report).Uniform := by
  induction bound generalizing report with
  | zero => exact .pure _
  | succ bound ih =>
    refine ⟨fun {g g'} h => ?_⟩
    have hround := (uniform_foldNodes options g.live report.addRound).sameEnd h
    rw [run_foldRounds_succ, run_foldRounds_succ, h.live]
    generalize (foldNodes options g.live report.addRound).run g = r at hround
    generalize (foldNodes options g.live report.addRound).run g' = r' at hround
    cases hround with
    | error e h => exact .error e h
    | ok after h =>
      dsimp only
      split
      · exact .ok after h
      · exact (ih after).sameEnd h

/-! ## Edits that are given types -/

theorem sameEnd_addFunc (h : g.Renumbered g') (name : String) {types types' : List TypeId}
    (ht : List.Forall₂ (SameType g.types g'.types) types types') :
    SameEnd ((addFunc name types).run g) ((addFunc name types').run g') := by
  have hknown : types'.forM g'.requireType = types.forM g.requireType := by
    clear h
    induction ht with
    | nil => rfl
    | cons ht _ ih => rw [List.forM, List.forM, requireType ht, ih]
  rw [run_addFunc, run_addFunc, hknown, h.nextFunc]
  cases types.forM g.requireType with
  | ok _ => exact .ok _ (h.appendFunc name ht)
  | error e => exact .error e h

theorem sameEnd_assignType (h : g.Renumbered g') (v : ValueId) {t t' : TypeId}
    (ht : SameType g.types g'.types t t') :
    SameEnd ((assignType v t).run g) ((assignType v t').run g') := by
  rw [run_assignType, run_assignType, h.requireAssignable v ht]
  cases g.requireAssignable v t with
  | ok _ => exact .ok () (h.assignType v ht)
  | error e => exact .error e h

end Edit

end DeferredIR
