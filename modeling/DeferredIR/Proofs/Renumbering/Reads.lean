import DeferredIR.Export
import DeferredIR.Graph.Edit
import DeferredIR.Graph.Verify
import DeferredIR.Listing
import DeferredIR.Fold.Replacement
import DeferredIR.Proofs.Checks
import DeferredIR.Proofs.TypeTable

/-!
# Graphs over different type tables

A type has different handles in different tables. Two graphs that differ in nothing else are alike
for all that can be asked of them: handles are only ever compared with each other and with the
undefined one, or read as names, and two tables that number their names differently agree on that.
-/

namespace DeferredIR

/-! ## Handles of one type -/

namespace TypeTable

variable {T T' U U' : TypeTable} {t t' s s' : TypeId}

/-- The two handles, each of its own table, stand for one type. -/
def SameType (T T' : TypeTable) (t t' : TypeId) : Prop :=
  ∃ k, T.name? t = some k ∧ T'.name? t' = some k

namespace SameType

theorem undefined (T T' : TypeTable) : SameType T T' .undefined .undefined := ⟨.undefined, rfl, rfl⟩

theorem mono (h : SameType T T' t t') (hT : T.names <+: U.names) (hT' : T'.names <+: U'.names) :
    SameType U U' t t' := by
  obtain ⟨k, hk, hk'⟩ := h
  exact ⟨k, name?_of_prefix hT hk, name?_of_prefix hT' hk'⟩

theorem eq_iff (ht : SameType T T' t t') (hs : SameType T T' s s') : t = s ↔ t' = s' := by
  obtain ⟨k, hk, hk'⟩ := ht
  obtain ⟨l, hl, hl'⟩ := hs
  constructor
  · rintro rfl
    obtain rfl := Option.some.inj (hk.symm.trans hl)
    exact name?_inj hk' hl'
  · rintro rfl
    obtain rfl := Option.some.inj (hk'.symm.trans hl')
    exact name?_inj hk hl

theorem eq_undefined_iff (h : SameType T T' t t') : t = .undefined ↔ t' = .undefined :=
  h.eq_iff (.undefined T T')

theorem text_eq (h : SameType T T' t t') : T'.text t' = T.text t := by
  obtain ⟨k, hk, hk'⟩ := h
  rw [text, text, name_eq_ok.mpr hk, name_eq_ok.mpr hk']

theorem contains (h : SameType T T' t t') : T.contains t = true ∧ T'.contains t' = true := by
  obtain ⟨k, hk, hk'⟩ := h
  exact ⟨contains_of_name? hk, contains_of_name? hk'⟩

end SameType

end TypeTable

open TypeTable (SameType)

/-- The two values differ at most in the handles of their types. -/
structure Value.Renumbered (T T' : TypeTable) (x x' : Value) : Prop where
  origin : x'.origin = x.origin
  uses : x'.uses = x.uses
  type : SameType T T' x.type x'.type

/-- The two drafts differ at most in the handles of their types. -/
structure Draft.Renumbered (T T' : TypeTable) (d d' : Draft) : Prop where
  opcode : d'.opcode = d.opcode
  operands : d'.operands = d.operands
  type : SameType T T' d.type d'.type

namespace Graph

/-- The two graphs differ at most in their tables and in the handles of types. -/
structure Renumbered (g g' : Graph) : Prop where
  functions : g'.functions = g.functions
  nodes : g'.nodes = g.nodes
  values : ∀ i : Nat, Option.Rel (Value.Renumbered g.types g'.types) g.values[i]? g'.values[i]?

namespace Renumbered

variable {g g' : Graph} {v w : ValueId} {n : NodeId} {f : FuncId} {t t' : TypeId}

/-! ## Entries -/

theorem value (h : g.Renumbered g') (v : ValueId) :
    (∃ x x', g.value v = .ok x ∧ g'.value v = .ok x' ∧ x.Renumbered g.types g'.types x') ∨
      g.value v = .error .outOfRange ∧ g'.value v = .error .outOfRange := by
  have hv := h.values v.index
  rw [Graph.value, Graph.value, fetch, fetch]
  generalize g.values[v.index]? = x? at hv
  generalize g'.values[v.index]? = x?' at hv
  cases hv with
  | none => exact .inr ⟨rfl, rfl⟩
  | some hx => exact .inl ⟨_, _, rfl, rfl, hx⟩

theorem node (h : g.Renumbered g') (n : NodeId) : g'.node n = g.node n := by
  rw [Graph.node, Graph.node, h.nodes]

theorem func (h : g.Renumbered g') (f : FuncId) : g'.func f = g.func f := by
  rw [Graph.func, Graph.func, h.functions]

theorem size (h : g.Renumbered g') : g'.values.size = g.values.size := by
  have hnone (i : Nat) : g'.values.size ≤ i ↔ g.values.size ≤ i := by
    rw [← Array.getElem?_eq_none_iff, ← Array.getElem?_eq_none_iff]
    have hv := h.values i
    generalize g.values[i]? = x? at hv
    generalize g'.values[i]? = x?' at hv
    cases hv <;> simp
  exact Nat.le_antisymm ((hnone _).mpr (Nat.le_refl _)) ((hnone _).mp (Nat.le_refl _))

/-- What is done with a value is the same if it is the same for values that differ in their handles
only. -/
theorem bind_value {α : Type} (h : g.Renumbered g') (v : ValueId)
    {F F' : Value → Except Fault α}
    (hF : ∀ x x', x.Renumbered g.types g'.types x' → F' x' = F x) :
    (g'.value v >>= F') = (g.value v >>= F) := by
  obtain ⟨x, x', hx, hx', hs⟩ | ⟨hx, hx'⟩ := h.value v
  · rw [hx, hx']
    exact hF x x' hs
  · rw [hx, hx']
    rfl

theorem bind_liftM_value {α : Type} (h : g.Renumbered g') (v : ValueId)
    {F F' : Value → Except Error α}
    (hF : ∀ x x', x.Renumbered g.types g'.types x' → F' x' = F x) :
    ((liftM (g'.value v) : Except Error Value) >>= F') =
      ((liftM (g.value v) : Except Error Value) >>= F) := by
  obtain ⟨x, x', hx, hx', hs⟩ | ⟨hx, hx'⟩ := h.value v
  · rw [hx, hx']
    exact hF x x' hs
  · rw [hx, hx']
    rfl

theorem definingNode? (h : g.Renumbered g') (v : ValueId) :
    g'.definingNode? v = g.definingNode? v :=
  h.bind_value v fun x x' hs => by simp only [hs.origin, h.node]

theorem owner (h : g.Renumbered g') (v : ValueId) : g'.owner v = g.owner v :=
  h.bind_value v fun x x' hs => by simp only [hs.origin, h.node]

theorem typeText (h : g.Renumbered g') (v : ValueId) : g'.typeText v = g.typeText v :=
  h.bind_value v fun _ _ hs => hs.type.text_eq

/-! ## Checks -/

theorem requireValue (h : g.Renumbered g') (v : ValueId) :
    g'.requireValue v = g.requireValue v := by
  rw [Graph.requireValue, Graph.requireValue, h.size]

theorem requireLive (h : g.Renumbered g') (v : ValueId) : g'.requireLive v = g.requireLive v := by
  rw [Graph.requireLive, Graph.requireLive, h.definingNode?]

theorem requireReadable (h : g.Renumbered g') (f : FuncId) (v : ValueId) :
    g'.requireReadable f v = g.requireReadable f v := by
  rw [Graph.requireReadable, Graph.requireReadable, h.requireValue, h.requireLive, h.owner]

theorem requireFunc (h : g.Renumbered g') (f : FuncId) : g'.requireFunc f = g.requireFunc f := by
  rw [Graph.requireFunc, Graph.requireFunc, h.functions]

theorem requireType (ht : SameType g.types g'.types t t') :
    g'.requireType t' = g.requireType t := by
  rw [Graph.requireType, Graph.requireType, ht.contains.1, ht.contains.2]
  rfl

theorem requireDraft (h : g.Renumbered g') (f : FuncId) {d d' : Draft}
    (hd : d.Renumbered g.types g'.types d') : g'.requireDraft f d' = g.requireDraft f d := by
  rw [Graph.requireDraft, Graph.requireDraft, h.requireFunc, requireType hd.type, hd.opcode,
    hd.operands, funext (h.requireReadable f)]

theorem requireAssignable (h : g.Renumbered g') (v : ValueId)
    (ht : SameType g.types g'.types t t') :
    g'.requireAssignable v t' = g.requireAssignable v t := by
  have hlast : (do if (← g'.value v).type ≠ .undefined then throw (.edit (.alreadyTyped v)) :
      Except Error Unit) =
      (do if (← g.value v).type ≠ .undefined then throw (.edit (.alreadyTyped v))) :=
    h.bind_liftM_value v fun x x' hs => by simp only [ne_eq, hs.type.eq_undefined_iff]
  rw [Graph.requireAssignable, Graph.requireAssignable, h.requireValue, h.requireLive,
    requireType ht]
  simp only [hlast, ht.eq_undefined_iff]

theorem requireReplaceable (h : g.Renumbered g') (old new : ValueId) :
    g'.requireReplaceable old new = g.requireReplaceable old new := by
  rw [Graph.requireReplaceable, Graph.requireReplaceable, h.requireValue, h.requireValue, h.owner]
  simp only [h.requireReadable]

theorem readers (h : g.Renumbered g') (old new : ValueId) :
    g'.readers old new = g.readers old new := by
  refine h.bind_value old fun x x' hs => ?_
  have hnew : discard (g'.value new) = discard (g.value new) :=
    h.bind_value new fun _ _ _ => rfl
  simp only [hs.uses, h.node, hnew]

theorem readable (h : g.Renumbered g') (n : NodeId) : g'.readable n = g.readable n := by
  have hread (v : ValueId) : discard (g'.value v) = discard (g.value v) :=
    h.bind_value v fun _ _ _ => rfl
  simp only [Graph.readable, h.node, hread]

/-! ## Folds -/

theorem shareKnownType (h : g.Renumbered g') (v w : ValueId) :
    g'.shareKnownType v w = g.shareKnownType v w :=
  h.bind_value v fun x x' hx => h.bind_value w fun y y' hy => by
    simp only [ne_eq, hx.type.eq_iff hy.type, hx.type.eq_undefined_iff]

theorem tupleItem? (h : g.Renumbered g') (container result : ValueId) (index : Nat) :
    g'.tupleItem? container result index = g.tupleItem? container result index := by
  simp only [Graph.tupleItem?, h.definingNode?, h.shareKnownType]

theorem pairItem? (h : g.Renumbered g') (pair result : ValueId) (index : Nat) :
    g'.pairItem? pair result index = g.pairItem? pair result index := by
  simp only [Graph.pairItem?, h.definingNode?, h.tupleItem?]

theorem localReplacement? (h : g.Renumbered g') (options : FoldOptions) (n : NodeId) :
    g'.localReplacement? options n = g.localReplacement? options n := by
  simp only [Graph.localReplacement?, h.node, h.shareKnownType, h.tupleItem?, h.pairItem?]

theorem boundFormal (h : g.Renumbered g') (n : NodeId) (node : Node) (index : Nat) :
    g'.boundFormal n node index = g.boundFormal n node index := by
  have hformal? : g'.formal? node.func index = g.formal? node.func index := by
    rw [Graph.formal?, Graph.formal?, h.func]
  rw [Graph.boundFormal, Graph.boundFormal, hformal?]
  refine bind_congr fun formal? => ?_
  cases formal? with
  | none => simp only [h.func]
  | some formal =>
    exact h.bind_liftM_value formal fun x x' hx => h.bind_liftM_value node.result fun y y' hy => by
      simp only [hx.type.eq_iff hy.type, hx.type.text_eq, hy.type.text_eq]

theorem replacement? (h : g.Renumbered g') (options : FoldOptions) (n : NodeId) :
    g'.replacement? options n = g.replacement? options n := by
  simp only [Graph.replacement?, h.node, h.boundFormal, h.localReplacement?]

theorem live (h : g.Renumbered g') : g'.live = g.live := by
  rw [Graph.live, Graph.live, liveEntries, liveEntries, nodeEntries, nodeEntries, h.nodes]

/-! ## Texts -/

theorem listing (h : g.Renumbered g') (options : ListingOptions) :
    g'.listing options = g.listing options := by
  have hnode : g'.nodeLine = g.nodeLine := funext fun x => by
    simp only [nodeLine, h.typeText]
  have hformal : g'.formalSpans = g.formalSpans := funext fun v => by
    simp only [formalSpans, h.typeText]
  have hfunc : g'.funcLines = g.funcLines := funext fun showDead => funext fun f => by
    simp only [funcLines, shownNodes, hformal, hnode, funext h.node]
  rw [Graph.listing, Graph.listing, lines, lines, hfunc, h.functions]

theorem jsonText (h : g.Renumbered g') : g'.jsonText = g.jsonText := by
  have hvalue : g'.valueJson = g.valueJson := funext fun v => by
    simp only [valueJson, h.typeText]
  have hnode : g'.nodeJson = g.nodeJson := funext fun n => by
    simp only [nodeJson, h.node, hvalue]
  have hfunc : g'.funcJson = g.funcJson := funext fun f => by
    simp only [funcJson, hvalue, hnode]
  rw [Graph.jsonText, Graph.jsonText, toJson, toJson, hfunc, h.functions]

/-! ## Verification -/

theorem origin? (h : g.Renumbered g') (v : ValueId) : g'.origin? v = g.origin? v := by
  have hv := h.values v.index
  rw [Graph.origin?, Graph.origin?]
  generalize g.values[v.index]? = x? at hv
  generalize g'.values[v.index]? = x?' at hv
  cases hv with
  | none => rfl
  | some hx => exact congrArg some hx.origin

theorem verifyOperand (h : g.Renumbered g') (n : NodeId) (node : Node) (slot : Nat) (v : ValueId) :
    g'.verifyOperand n node slot v = g.verifyOperand n node slot v := by
  have hv := h.values v.index
  rw [Graph.verifyOperand, Graph.verifyOperand]
  generalize g.values[v.index]? = x? at hv
  generalize g'.values[v.index]? = x?' at hv
  cases hv with
  | none => rfl
  | some hx => simp only [hx.origin, hx.uses, h.nodes]

theorem verifyNode (h : g.Renumbered g') (n : NodeId) (node : Node) :
    g'.verifyNode n node = g.verifyNode n node := by
  simp only [Graph.verifyNode, h.origin?, h.verifyOperand]

theorem verifyFormals (h : g.Renumbered g') (f : FuncId) (func : Func) :
    g'.verifyFormals f func = g.verifyFormals f func := by
  simp only [Graph.verifyFormals, h.origin?]

/-- Of a value, verification reads the recorded uses. -/
theorem forM_verifyUses (h : g.Renumbered g') :
    g'.valueEntries.forM (fun p => g'.verifyUses p.1 p.2) =
      g.valueEntries.forM fun p => g.verifyUses p.1 p.2 := by
  have hreads (u : Use) (v : ValueId) : g'.reads u v = g.reads u v := by
    rw [Graph.reads, Graph.reads, h.nodes]
  have hentries : g'.valueEntries.map (fun p => (p.1, p.2.uses)) =
      g.valueEntries.map fun p => (p.1, p.2.uses) := by
    refine List.ext_getElem? fun i => ?_
    have hv := h.values i
    simp only [valueEntries, numbered, List.getElem?_map, List.getElem?_zipIdx,
      Array.getElem?_toList]
    generalize g.values[i]? = x? at hv
    generalize g'.values[i]? = x?' at hv
    cases hv with
    | none => rfl
    | some hx => simp [hx.uses]
  have huses (k : Graph) :
      ((k.valueEntries.map fun p => (p.1, p.2.uses)).forM fun q =>
        q.2.forM fun u => (do unless k.reads u q.1 do throw (.staleUse q.1 u.node))) =
      k.valueEntries.forM fun p => k.verifyUses p.1 p.2 :=
    List.forM_map
  rw [← huses, ← huses, hentries]
  simp only [hreads]

theorem verify (h : g.Renumbered g') : g'.verify = g.verify := by
  rw [Graph.verify, Graph.verify, h.forM_verifyUses]
  simp only [liveEntries, nodeEntries, funcEntries, h.nodes, h.functions, h.verifyNode,
    h.verifyFormals]

end Renumbered

end Graph

end DeferredIR
