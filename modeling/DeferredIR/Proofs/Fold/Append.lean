import DeferredIR.Proofs.Fold.Confluence

/-!
# Folds and new nodes

Folds that a graph takes it also takes after a node was added, and what they lead to is alike what
they led to before with a node added that reads, for each operand, the value that now stands for it.
-/

namespace DeferredIR.Graph

variable {g g' h k : Graph} {options : FoldOptions} {n m : NodeId} {x y : Node}
variable {v w : ValueId} {trace trace' : List (NodeId × ValueId)} {f : FuncId} {d : Draft}

/-! ## What stands for a value -/

/-- The value that stands for `w` after the folds of `trace`. -/
def rename (g : Graph) : List (NodeId × ValueId) → ValueId → ValueId
  | [], w => w
  | (n, v) :: trace, w =>
      g.rename trace (match g.resultOf? n with
        | some r => r.subst v w
        | none => w)

theorem rename_cons (hx : g.nodes[n.index]? = some x) (w : ValueId) :
    g.rename ((n, v) :: trace) w = g.rename trace (x.result.subst v w) := by
  rw [rename, resultOf?, hx]
  rfl

theorem rename_append (g : Graph) (trace trace' : List (NodeId × ValueId)) (w : ValueId) :
    g.rename (trace ++ trace') w = g.rename trace' (g.rename trace w) := by
  induction trace generalizing w with
  | nil => rfl
  | cons p trace ih => exact ih _

theorem rename_congr (hs : ∀ p ∈ trace, h.resultOf? p.1 = g.resultOf? p.1) (w : ValueId) :
    h.rename trace w = g.rename trace w := by
  induction trace generalizing w with
  | nil => rfl
  | cons p trace ih =>
    rw [rename, rename, hs p List.mem_cons_self, ih fun q hq => hs q (List.mem_cons_of_mem p hq)]

theorem rename_eq_self (hw : ∀ p ∈ trace, g.resultOf? p.1 ≠ some w) : g.rename trace w = w := by
  induction trace with
  | nil => rfl
  | cons p trace ih =>
    obtain ⟨hp, hrest⟩ := List.forall_mem_cons.mp hw
    have hhead : (match g.resultOf? p.1 with
        | some r => r.subst p.2 w
        | none => w) = w := by
      split
      · exact ValueId.subst_of_ne fun he => hp (he ▸ ‹_›)
      · rfl
    rw [rename, hhead, ih hrest]

theorem SameFrame.rename (s : SameFrame g h) (trace : List (NodeId × ValueId)) :
    h.rename trace = g.rename trace :=
  funext fun w => rename_congr (fun p _ => s.resultOf? p.1) w

theorem Restates.owner?_subst (hr : g.Restates options x v) (hg : g.WellFormed)
    (hx : g.nodes[n.index]? = some x) (w : ValueId) :
    g.owner? (x.result.subst v w) = g.owner? w := by
  unfold ValueId.subst
  split
  · rw [hr.owner? hg hx, ‹w = x.result›, hg.owner?_result hx]
  · rfl

namespace Folds

theorem exists_node (hf : Folds options g trace k) {p : NodeId × ValueId} (hp : p ∈ trace) :
    ∃ x, g.nodes[p.1.index]? = some x := by
  obtain ⟨before, h, y, hh, hy, -⟩ := hf.exists_of_mem hp
  obtain ⟨x, hx, -⟩ := hh.sameShape.exists_node hy
  exact ⟨x, hx⟩

/-- What stands for a value is owned by the function that owns the value. -/
theorem owner?_rename (hf : Folds options g trace k) (hg : g.WellFormed) (w : ValueId) :
    g.owner? (g.rename trace w) = g.owner? w := by
  induction hf generalizing w with
  | nil => rfl
  | @cons g k n x v trace hx hr _ ih =>
    obtain ⟨-, hs⟩ := restates_of_node_eq hx hr
    have hframe := sameFrame_fold g n x.result v
    have hrest := ih (hg.fold hx hs) (x.result.subst v w)
    rw [hframe.rename, hframe.owner?, hframe.owner?] at hrest
    rw [rename_cons hx, hrest, hs.owner?_subst hg hx]

/-- In an ordered graph, what stands for a value that was not folded away is not folded away. -/
theorem not_folded_rename (hf : Folds options g trace k) (hg : g.WellFormed) (ho : g.Ordered)
    (hu : g.Unread fun _ => False) (hw : ¬ g.Folded w) : ¬ k.Folded (g.rename trace w) := by
  induction hf generalizing w with
  | nil => exact hw
  | @cons g k n x v trace hx hr _ ih =>
    obtain ⟨hd, hs⟩ := restates_of_node_eq hx hr
    have hne : v ≠ x.result := by
      rintro rfl
      exact Nat.lt_irrefl _ (hs.index_lt hg ho hx)
    have hv : ¬ g.Folded v := hu.not_folded_of_restates hg hx hd hs not_false
    rw [rename_cons hx, ← (sameFrame_fold g n x.result v).rename]
    refine ih (hg.fold hx hs) (ho.fold hg hx hs) (hu.fold hg hx hd hs hne) ?_
    rw [hg.folded_fold hx hs]
    unfold ValueId.subst
    split <;> simp [*]

end Folds

/-! ## Fit drafts -/

/-- A node made of `d` in `f` keeps the graph well formed. -/
structure Fits (g : Graph) (f : FuncId) (d : Draft) : Prop where
  func_lt : f.index < g.functions.size
  operand_owner : ∀ v ∈ d.operands, g.owner? v = some f
  accepts : d.opcode.arity.accepts d.operands.length = true

theorem fits_of_requireDraft (hd : g.requireDraft f d = .ok ()) : g.Fits f d := by
  obtain ⟨hf, hv, hk⟩ := of_requireDraft hd
  exact ⟨hf, fun v hm => (hv v hm).1, hk⟩

theorem Fits.wellFormed_append (hd : g.Fits f d) (hg : g.WellFormed) :
    (g.append f d).WellFormed :=
  hg.append hd.func_lt hd.operand_owner hd.accepts

theorem Fits.map (hd : g.Fits f d) (s : SameFrame g h) {σ : ValueId → ValueId}
    (hσ : ∀ v, g.owner? (σ v) = g.owner? v) : h.Fits f (d.mapOperands σ) where
  func_lt := by
    rw [s.functions]
    exact hd.func_lt
  operand_owner v hv := by
    obtain ⟨w, hw, rfl⟩ := List.mem_map.mp hv
    rw [s.owner?, hσ]
    exact hd.operand_owner w hw
  accepts := by simpa [Draft.mapOperands] using hd.accepts

/-! ## Folds after a node was added -/

theorem Restates.append (hr : g.Restates options x v) (hg : g.WellFormed)
    (hx : g.nodes[n.index]? = some x) (f : FuncId) (d : Draft) :
    (g.append f d).Restates options x v := by
  refine hr.mono (fun {f' i w} hf => (formalAt?_append g f d f' i).trans hf) ?_ ?_ ?_
  · rw [typeOf_append, if_neg (ne_nextValue (lt_of_owner? (hr.owner? hg hx)))]
  · rw [typeOf_append, if_neg (ne_nextValue (hg.lt_result hx))]
  · rintro c t - ⟨m, ho, ht, hd, hk⟩
    refine ⟨m, ?_, getElem?_nodes_append_of_node f d ht, hd, hk⟩
    rw [origin?_append, if_neg (ne_nextValue (lt_of_origin? ho)), ho]

theorem WellFormed.replacement?_append (hg : g.WellFormed) (hd : g.Fits f d)
    (hx : g.nodes[n.index]? = some x) (hr : g.replacement? options n = .ok (some v)) :
    (g.append f d).replacement? options n = .ok (some v) := by
  obtain ⟨hlive, hs⟩ := restates_of_node_eq hx hr
  exact ((hd.wellFormed_append hg).replacement?_eq_some_iff
    (getElem?_nodes_append_of_node f d hx)).mpr ⟨hlive, hs.append hg hx f d⟩

/-- A fold and a new node, in either order. -/
theorem alike_append_fold (hg : g.WellFormed) (hd : g.Fits f d) (hx : g.nodes[n.index]? = some x)
    (v : ValueId) : Alike ((g.append f d).fold n x.result v)
      ((g.fold n x.result v).append f (d.mapOperands (x.result.subst v))) where
  toSameShape := (sameShape_fold ..).symm.trans
    ((sameShape_fold g n x.result v).append f rfl rfl (by simp [Draft.mapOperands]))
  live m := by
    have hframe := sameFrame_fold g n x.result v
    rw [(hd.wellFormed_append hg).liveNode?_fold, liveNode?_append, liveNode?_append,
      hg.liveNode?_fold, hframe.nextNode, hframe.nextValue]
    by_cases hm : m = g.nextNode
    · rw [if_pos hm, if_pos hm, if_neg (hm ▸ (ne_nextNode hx).symm)]
      rfl
    · rw [if_neg hm, if_neg hm]

/-- Folds that are made before a node is added can be made after it. -/
theorem Folds.exists_append (hf : Folds options g trace k) (hg : g.WellFormed)
    (hd : g.Fits f d) : ∃ k', Folds options (g.append f d) trace k' ∧
      Alike k' (k.append f (d.mapOperands (g.rename trace))) := by
  induction hf generalizing d with
  | nil g =>
    have hid : d.mapOperands (g.rename []) = d := by
      show { d with operands := d.operands.map fun w => w } = d
      rw [List.map_id']
    rw [hid]
    exact ⟨_, .nil _, .refl _⟩
  | @cons g k n x v trace hx hr _ ih =>
    obtain ⟨-, hs⟩ := restates_of_node_eq hx hr
    have hframe := sameFrame_fold g n x.result v
    have hwf := hg.fold hx hs
    have hd' := hd.map hframe (hs.owner?_subst hg hx)
    have hG := hd.wellFormed_append hg
    have hx' := getElem?_nodes_append_of_node f d hx
    have hr' := hg.replacement?_append hd hx hr
    obtain ⟨-, hs'⟩ := restates_of_node_eq hx' hr'
    obtain ⟨k', hf', a⟩ := ih hwf hd'
    obtain ⟨k'', hf'', a'⟩ := hf'.alike (hd'.wellFormed_append hwf) (hG.fold hx' hs')
      (alike_append_fold hg hd hx v).symm
    have hmap : (d.mapOperands (x.result.subst v)).mapOperands
        ((g.fold n x.result v).rename trace) = d.mapOperands (g.rename ((n, v) :: trace)) := by
      rw [Draft.mapOperands_mapOperands, hframe.rename]
      congr 1
      exact funext fun w => (rename_cons hx w).symm
    exact ⟨k'', .cons hx' hr' hf'', hmap ▸ a'.symm.trans a⟩

/-- Where nothing reads the result of a node, its fold only retires it. -/
theorem WellFormed.alike_fold_retire (hg : g.WellFormed) (n : NodeId) {old : ValueId}
    (hunread : g.usesOf old = []) (new : ValueId) : Alike (g.fold n old new) (g.retire n) where
  toSameShape := (sameShape_fold ..).symm.trans (sameShape_retire ..)
  live m := by
    rw [hg.liveNode?_fold, liveNode?_retire]
    split
    · rfl
    · cases hm : g.liveNode? m with
      | none => rfl
      | some y =>
        refine congrArg some (Node.mapOperands_eq_self fun v hv => ValueId.subst_of_ne ?_).symm
        rintro rfl
        obtain ⟨hy, hd⟩ := liveNode?_eq_some.mp hm
        obtain ⟨slot, hslot⟩ := List.mem_iff_getElem?.mp hv
        exact List.ne_nil_of_mem (hg.mem_uses hy hd hslot) hunread

theorem Alike.folded (a : Alike g h) (hv : g.Folded v) : h.Folded v := by
  obtain ⟨n, x, ho, hx, hd⟩ := hv
  obtain ⟨y, hy, -⟩ := a.symm.toSameFrame.exists_node hx
  rcases a.dead_or_eq hx hy with ⟨-, hyd⟩ | rfl
  · exact ⟨n, y, (a.origin v).trans ho, hy, hyd⟩
  · exact ⟨n, y, (a.origin v).trans ho, hy, hd⟩

/-! ## Graphs after folds -/

/-- The folds of `trace` lead from `g` to a graph that `h` is alike. -/
def LeadsTo (options : FoldOptions) (g : Graph) (trace : List (NodeId × ValueId)) (h : Graph) :
    Prop := ∃ k, Folds options g trace k ∧ Alike k h

namespace LeadsTo

theorem refl (options : FoldOptions) (g : Graph) : LeadsTo options g [] g :=
  ⟨g, .nil g, .refl g⟩

theorem sameShape (hl : LeadsTo options g trace h) : SameShape g h := by
  obtain ⟨k, hf, a⟩ := hl
  exact hf.sameShape.trans a.toSameShape

theorem append (hl : LeadsTo options g trace h) (hg : g.WellFormed) (hd : g.Fits f d) :
    LeadsTo options (g.append f d) trace (h.append f (d.mapOperands (g.rename trace))) := by
  obtain ⟨k, hf, a⟩ := hl
  obtain ⟨k', hf', a'⟩ := hf.exists_append hg hd
  exact ⟨k', hf', a'.trans (a.append f _)⟩

/-- A node whose result nothing reads may fold last. -/
theorem retire (hl : LeadsTo options g trace h) (hg : g.WellFormed) (hh : h.WellFormed)
    (hx : h.nodes[n.index]? = some x) (hr : h.replacement? options n = .ok (some v))
    (hunread : h.usesOf x.result = []) :
    LeadsTo options g (trace ++ [(n, v)]) (h.retire n) := by
  obtain ⟨k, hf, a⟩ := hl
  obtain ⟨hd, -⟩ := restates_of_node_eq hx hr
  have hk := hf.wellFormed hg
  have hx' := a.symm.node_of_live hx hd
  have hr' := (a.symm.replacement?_eq hh hk hx).trans hr
  exact ⟨k.fold n x.result v, hf.append (.single hx' hr'),
    (a.fold hk hh n x.result v).trans (hh.alike_fold_retire n hunread v)⟩

theorem owner?_rename (hl : LeadsTo options g trace h) (hg : g.WellFormed) (w : ValueId) :
    h.owner? (g.rename trace w) = g.owner? w := by
  rw [hl.sameShape.owner?]
  obtain ⟨k, hf, -⟩ := hl
  exact hf.owner?_rename hg w

theorem not_folded_rename (hl : LeadsTo options g trace h) (hg : g.OrderedReachable)
    (hw : ¬ g.Folded w) : ¬ h.Folded (g.rename trace w) := by
  obtain ⟨k, hf, a⟩ := hl
  obtain ⟨hwf, ho, hu⟩ := hg.invariant
  exact fun hfolded => hf.not_folded_rename hwf ho hu hw (a.symm.folded hfolded)

theorem rename_append (hl : LeadsTo options g trace h) (f : FuncId) (d : Draft) (w : ValueId) :
    (g.append f d).rename trace w = g.rename trace w := by
  obtain ⟨k, hf, -⟩ := hl
  refine rename_congr (fun p hp => ?_) w
  obtain ⟨x, hx⟩ := hf.exists_node hp
  rw [resultOf?, resultOf?, getElem?_nodes_append_of_node f d hx, hx]

/-- A fold of the new node after `trace` substitutes for the new value only. -/
theorem rename_append_snoc (hl : LeadsTo options g trace h) (f : FuncId) (d : Draft)
    (v w : ValueId) : (g.append f d).rename (trace ++ [(g.nextNode, v)]) w =
      g.nextValue.subst v (g.rename trace w) := by
  rw [Graph.rename_append, hl.rename_append, rename_cons (getElem?_nodes_append_nextNode g f d)]
  rfl

theorem rename_nextValue (hl : LeadsTo options g trace h) (hg : g.WellFormed) :
    g.rename trace g.nextValue = g.nextValue := by
  obtain ⟨k, hf, -⟩ := hl
  refine rename_eq_self fun p hp hresult => ?_
  obtain ⟨x, hx⟩ := hf.exists_node hp
  rw [resultOf?, hx, Option.map_some, Option.some.injEq] at hresult
  exact Nat.ne_of_lt (hg.lt_result hx) (congrArg ValueId.index hresult)

end LeadsTo

end DeferredIR.Graph
