import DeferredIR.Proofs.Fold.Rules
import DeferredIR.Proofs.Fold.Steps
import DeferredIR.Proofs.Ordered

/-!
# Folds commute

A fold substitutes in the live nodes and takes one of them away, so folds of graphs that are alike
lead to graphs that are alike. In an ordered graph two nodes that fold do so in either order: the
fold of one leaves the other able to fold, into the value that now stands for what it restated, and
both orders lead to graphs that are alike. What makes folding fail no fold changes.
-/

namespace DeferredIR

theorem ValueId.subst_comm {r r' v v' : ValueId} (hne : r ≠ r') (hv : v.index < r.index)
    (hv' : v'.index < r'.index) (w : ValueId) :
    r'.subst (r.subst v v') (r.subst v w) = r.subst (r'.subst v' v) (r'.subst v' w) := by
  unfold subst
  split <;> split <;> grind

theorem Node.mapOperands_mapOperands (σ τ : ValueId → ValueId) (x : Node) :
    (x.mapOperands σ).mapOperands τ = x.mapOperands (τ ∘ σ) := by
  simp [mapOperands]

theorem Draft.mapOperands_mapOperands (σ τ : ValueId → ValueId) (d : Draft) :
    (d.mapOperands σ).mapOperands τ = d.mapOperands (τ ∘ σ) := by
  simp [mapOperands]

namespace Graph

open Check

variable {g h : Graph} {options : FoldOptions} {n m : NodeId} {x y t : Node}
variable {v w c old new : ValueId} {index : Nat} {e : Error} {trace : List (NodeId × ValueId)}

/-! ## The live nodes after folds -/

theorem exists_node_fold (hx : ∃ x, g.nodes[m.index]? = some x) (n : NodeId) (old new : ValueId) :
    ∃ y, (g.fold n old new).nodes[m.index]? = some y := by
  obtain ⟨x, hx⟩ := hx
  obtain ⟨y, hy, -⟩ := (sameFrame_fold g n old new).symm.exists_node hx
  exact ⟨y, hy⟩

theorem WellFormed.liveNode?_fold (h : g.WellFormed) (n : NodeId) (old new : ValueId)
    (m : NodeId) :
    (g.fold n old new).liveNode? m =
      if m = n then none else (g.liveNode? m).map (Node.mapOperands (old.subst new)) := by
  unfold Graph.fold
  rw [liveNode?_retire]
  split
  · rfl
  · split
    · subst new
      have hid : Node.mapOperands (old.subst old) = id :=
        funext fun x => Node.mapOperands_eq_self fun v _ => ValueId.subst_self old v
      rw [hid, Option.map_id]
      rfl
    · exact h.liveNode?_redirect old new m

theorem WellFormed.mem_live_fold (h : g.WellFormed) :
    m ∈ (g.fold n old new).live ↔ m ∈ g.live ∧ m ≠ n := by
  rw [mem_live, mem_live, h.liveNode?_fold]
  by_cases hm : m = n
  · simp [hm]
  · cases g.liveNode? m <;> simp [hm]

/-- A fold takes one node from the live ones. -/
theorem WellFormed.perm_live_fold (h : g.WellFormed) (hn : n ∈ g.live) (old new : ValueId) :
    (n :: (g.fold n old new).live).Perm g.live := by
  have hnodup : (n :: (g.fold n old new).live).Nodup :=
    List.nodup_cons.mpr ⟨fun hm => (h.mem_live_fold.mp hm).2 rfl, nodup_live _⟩
  refine (List.perm_ext_iff_of_nodup hnodup g.nodup_live).mpr fun m => ?_
  rw [List.mem_cons, h.mem_live_fold]
  by_cases hm : m = n
  · simp [hm, hn]
  · simp [hm]

/-- Each node that was live folds once or stays live. -/
theorem Folds.perm_live (hf : Folds options g trace h) (hg : g.WellFormed) :
    (trace.map Prod.fst ++ h.live).Perm g.live := by
  induction hf with
  | nil => exact .refl _
  | @cons g h n x v trace hx hr _ ih =>
    obtain ⟨hd, hs⟩ := restates_of_node_eq hx hr
    calc n :: (trace.map Prod.fst ++ h.live)
      _ |>.Perm (n :: (g.fold n x.result v).live) := (ih (hg.fold hx hs)).cons n
      _ |>.Perm g.live := hg.perm_live_fold (mem_live_of_live hx hd) x.result v

/-- The nodes that are live after folds are those that were live before and did not fold. -/
theorem Folds.mem_live_iff (hf : Folds options g trace h) (hg : g.WellFormed) :
    m ∈ h.live ↔ m ∈ g.live ∧ m ∉ trace.map Prod.fst := by
  have hperm := hf.perm_live hg
  obtain ⟨-, -, hdisjoint⟩ := List.nodup_append'.mp (hperm.nodup_iff.mpr g.nodup_live)
  rw [← hperm.mem_iff, List.mem_append]
  constructor
  · exact fun hm => ⟨.inr hm, fun hm' => hdisjoint hm' hm⟩
  · rintro ⟨hm | hm, hne⟩
    · exact absurd hm hne
    · exact hm

theorem Folds.mem_live_of_mem (hf : Folds options g trace h) (hg : g.WellFormed)
    {p : NodeId × ValueId} (hp : p ∈ trace) : p.1 ∈ g.live :=
  (hf.perm_live hg).subset (List.mem_append_left _ (List.mem_map_of_mem hp))

theorem Alike.fold (a : Alike g h) (hg : g.WellFormed) (hh : h.WellFormed) (n : NodeId)
    (old new : ValueId) : Alike (g.fold n old new) (h.fold n old new) where
  toSameShape := (sameShape_fold g n old new).symm.trans
    (a.toSameShape.trans (sameShape_fold h n old new))
  live m := by rw [hg.liveNode?_fold, hh.liveNode?_fold, a.live]

/-! ## What a node restates elsewhere -/

theorem isTuple_iff : g.IsTuple v t ↔
    ∃ n, g.origin? v = some (.result n) ∧ g.liveNode? n = some t ∧ t.opcode = .tuple := by
  simp only [IsTuple, liveNode?_eq_some, and_assoc]

theorem Restates.opcode_ne_tuple (hr : g.Restates options x v) : x.opcode ≠ .tuple := by
  intro hk
  cases hr with
  | arg hk' _ _ => cases hk.symm.trans hk'
  | cast hk' _ _ => cases hk.symm.trans hk'
  | projection _ hk' _ _ _ _ =>
    rw [hk] at hk'
    cases hk'

/-- A renaming of values that keeps types, formal arguments and live tuples keeps what a node
restates. -/
theorem Restates.map {σ : ValueId → ValueId} (hr : g.Restates options x v)
    (hformal : ∀ {f i w}, g.formalAt? f i = some w → h.formalAt? f i = some w ∧ σ w = w)
    (htype : h.typeOf (σ v) = g.typeOf v) (hresult : h.typeOf x.result = g.typeOf x.result)
    (htuple : ∀ {c t}, c ∈ x.operands → g.IsTuple c t → h.IsTuple (σ c) (t.mapOperands σ)) :
    h.Restates options (x.mapOperands σ) (σ v) := by
  have hknown : g.SameKnownType v x.result → h.SameKnownType (σ v) x.result := by
    intro hs
    rw [SameKnownType, htype, hresult]
    exact hs
  have hslot : ∀ {y : Node} {i : Nat} {w : ValueId}, y.operands[i]? = some w →
      (y.mapOperands σ).operands[i]? = some (σ w) := by
    intro y i w hw
    simp [Node.mapOperands, hw]
  cases hr with
  | arg hk hf ht =>
    obtain ⟨hf', hσ⟩ := hformal hf
    exact .arg hk (hσ.symm ▸ hf') (htype.trans (ht.trans hresult.symm))
  | cast hk hv hs => exact .cast hk (hslot hv) (hknown hs)
  | @projection index c t hstructural hk hc ht hv hs =>
    refine .projection hstructural ?_ (hslot hc) (htuple (List.mem_of_getElem? hc) ht) (hslot hv)
      (hknown hs)
    simpa [Node.mapOperands] using hk

theorem SameShape.formal? (s : SameShape g h) (f : FuncId) (i : Nat) :
    h.formal? f i = g.formal? f i := by
  unfold Graph.formal? func
  rw [s.functions]

theorem SameShape.func (s : SameShape g h) (f : FuncId) : h.func f = g.func f := by
  unfold Graph.func
  rw [s.functions]

/-- A value is in both graphs, with one type, or in neither. -/
theorem SameShape.value (s : SameShape g h) (v : ValueId) :
    (∃ a b, g.value v = .ok a ∧ h.value v = .ok b ∧ b.type = a.type) ∨
      ∃ e, g.value v = .error e ∧ h.value v = .error e := by
  by_cases hv : v.index < g.values.size
  · have hx := Array.getElem?_eq_getElem hv
    have hy := Array.getElem?_eq_getElem (s.size_values ▸ hv)
    have ht := s.typeOf v
    rw [typeOf_of_value hx, typeOf_of_value hy] at ht
    exact .inl ⟨_, _, value_eq_ok.mpr hx, value_eq_ok.mpr hy, ht⟩
  · have hx := Array.getElem?_eq_none (Nat.le_of_not_lt hv)
    have hy := Array.getElem?_eq_none (s.size_values ▸ Nat.le_of_not_lt hv)
    exact .inr ⟨.outOfRange, by simp [Graph.value, fetch, hx], by simp [Graph.value, fetch, hy]⟩

/-- How an argument node is bound depends on the shape of the graph only. -/
theorem SameShape.boundFormal_eq (s : SameShape g h) (n : NodeId) (x : Node) (index : Nat) :
    h.boundFormal n x index = g.boundFormal n x index := by
  unfold boundFormal
  rw [s.formal?, s.types]
  congr 1
  funext formal?
  cases formal? with
  | none => rw [s.func]
  | some formal =>
    rcases s.value formal with ⟨a, b, ha, hb, ht⟩ | ⟨e, ha, hb⟩
    · simp only [ha, hb, liftM_ok, bind, Except.bind, ht]
      rcases s.value x.result with ⟨a', b', ha', hb', ht'⟩ | ⟨e, ha', hb'⟩
      · simp only [ha', hb', liftM_ok, ht']
      · simp only [ha', hb', liftM_error]
    · simp only [ha, hb, liftM_error, bind, Except.bind]

theorem Restates.mono (hr : g.Restates options x v)
    (hformal : ∀ {f i w}, g.formalAt? f i = some w → h.formalAt? f i = some w)
    (htype : h.typeOf v = g.typeOf v) (hresult : h.typeOf x.result = g.typeOf x.result)
    (htuple : ∀ {c t}, c ∈ x.operands → g.IsTuple c t → h.IsTuple c t) :
    h.Restates options x v := by
  have hid : ∀ y : Node, y.mapOperands id = y := fun y => Node.mapOperands_eq_self fun _ _ => rfl
  have hmap : h.Restates options (x.mapOperands id) (id v) :=
    hr.map (fun hf => ⟨hformal hf, rfl⟩) htype hresult fun {_ t} hc ht =>
      (hid t).symm ▸ htuple hc ht
  rwa [hid] at hmap

/-- What a node restates depends on the shape of the graph and on the tuples that it reads. -/
theorem Restates.of_sameShape (hr : g.Restates options x v) (s : SameShape g h)
    (htuple : ∀ {c t}, c ∈ x.operands → g.IsTuple c t → h.IsTuple c t) :
    h.Restates options x v :=
  hr.mono (fun {f i _} hf => (s.formalAt? f i).trans hf) (s.typeOf v) (s.typeOf x.result) htuple

/-- Two answers are equal if they find the same values and fail with the same errors. -/
theorem eq_of_forall_iff {ε α : Type} {a b : Except ε (Option α)}
    (hs : ∀ v, a = .ok (some v) ↔ b = .ok (some v)) (he : ∀ e, a = .error e ↔ b = .error e) :
    a = b := by
  cases a with
  | error e => exact ((he e).mp rfl).symm
  | ok v? =>
    cases v? with
    | some v => exact ((hs v).mp rfl).symm
    | none =>
      cases b with
      | error e => cases (he e).mpr rfl
      | ok w? =>
        cases w? with
        | none => rfl
        | some w => cases (hs w).mpr rfl

theorem WellFormed.replacement?_eq (hg : g.WellFormed) (hh : h.WellFormed) (s : SameShape g h)
    (hx : g.nodes[n.index]? = some x) (hy : h.nodes[n.index]? = some x)
    (htuple : ∀ {c t}, c ∈ x.operands → (g.IsTuple c t ↔ h.IsTuple c t)) :
    h.replacement? options n = g.replacement? options n := by
  apply eq_of_forall_iff
  · intro v
    rw [hh.replacement?_eq_some_iff hy, hg.replacement?_eq_some_iff hx]
    refine and_congr_right fun _ => ⟨fun hr => ?_, fun hr => ?_⟩
    · exact hr.of_sameShape s.symm fun hc => (htuple hc).mpr
    · exact hr.of_sameShape s fun hc => (htuple hc).mp
  · intro e
    rw [hh.replacement?_eq_error_iff hy, hg.replacement?_eq_error_iff hx]
    simp only [s.boundFormal_eq]

/-! ## Graphs that are alike -/

theorem Alike.isTuple_iff (a : Alike g h) : g.IsTuple c t ↔ h.IsTuple c t := by
  simp only [Graph.isTuple_iff, a.origin, a.live]

/-- Graphs that are alike fold alike. -/
theorem Alike.replacement?_eq (a : Alike g h) (hg : g.WellFormed) (hh : h.WellFormed)
    (hx : g.nodes[n.index]? = some x) : h.replacement? options n = g.replacement? options n := by
  obtain ⟨y, hy, -⟩ := a.symm.toSameFrame.exists_node hx
  rcases a.dead_or_eq hx hy with ⟨hxd, hyd⟩ | rfl
  · rw [replacement?_of_dead hx hxd, replacement?_of_dead hy hyd]
  · exact hg.replacement?_eq hh a.toSameShape hx hy fun _ => a.isTuple_iff

/-! ## Folds of two nodes -/

theorem Restates.typeOf_subst (hr : g.Restates options x v) (w : ValueId) :
    g.typeOf (x.result.subst v w) = g.typeOf w := by
  unfold ValueId.subst
  split
  · rw [hr.typeOf_eq, ‹w = x.result›]
  · rfl

/-- The fold of one node leaves every other node that folds able to. -/
theorem Restates.fold (hs : g.Restates options y w) (hg : g.WellFormed)
    (hx : g.nodes[n.index]? = some x) (hr : g.Restates options x v) :
    (g.fold n x.result v).Restates options (y.mapOperands (x.result.subst v))
      (x.result.subst v w) := by
  have horigin := hg.origin?_result hx
  refine hs.map ?_ ?_ (typeOf_fold g n x.result v y.result) ?_
  · intro f i u hf
    refine ⟨((sameFrame_fold g n x.result v).formalAt? f i).trans hf, ValueId.subst_of_ne ?_⟩
    rintro rfl
    cases horigin.symm.trans (hg.formal_iff.mpr hf)
  · rw [typeOf_fold, hr.typeOf_subst]
  · intro c t _ ht
    obtain ⟨m, ho, hlive, hk⟩ := isTuple_iff.mp ht
    have hm : m ≠ n := by
      rintro rfl
      obtain rfl := Option.some.inj (hx.symm.trans (liveNode?_eq_some.mp hlive).1)
      exact hr.opcode_ne_tuple hk
    have hc : c ≠ x.result := by
      rintro rfl
      exact hm (Origin.result.inj (Option.some.inj (ho.symm.trans horigin)))
    rw [ValueId.subst_of_ne hc]
    refine isTuple_iff.mpr ⟨m, ((sameFrame_fold g n x.result v).origin c).trans ho, ?_, hk⟩
    rw [hg.liveNode?_fold, if_neg hm, hlive]
    rfl

/-- In an ordered graph it does not matter which of two nodes folds first. -/
theorem alike_fold_fold (hg : g.WellFormed) (ho : g.Ordered) (hne : n ≠ m)
    (hx : g.nodes[n.index]? = some x) (hy : g.nodes[m.index]? = some y)
    (hr : g.Restates options x v) (hs : g.Restates options y w) :
    Alike ((g.fold n x.result v).fold m y.result (x.result.subst v w))
      ((g.fold m y.result w).fold n x.result (y.result.subst w v)) where
  toSameShape :=
    ((sameShape_fold ..).trans (sameShape_fold ..)).symm.trans
      ((sameShape_fold ..).trans (sameShape_fold ..))
  live k := by
    have hresult : x.result ≠ y.result := by
      intro he
      have horigin := hg.origin?_result hx
      rw [he, hg.origin?_result hy] at horigin
      exact hne (Origin.result.inj (Option.some.inj horigin)).symm
    have hcomm : x.result.subst (y.result.subst w v) ∘ y.result.subst w =
        y.result.subst (x.result.subst v w) ∘ x.result.subst v :=
      funext fun u => (ValueId.subst_comm hresult (hr.index_lt hg ho hx)
        (hs.index_lt hg ho hy) u).symm
    rw [(hg.fold hx hr).liveNode?_fold, (hg.fold hy hs).liveNode?_fold, hg.liveNode?_fold,
      hg.liveNode?_fold]
    by_cases hkn : k = n
    · simp [hkn]
    · by_cases hkm : k = m
      · simp [hkm]
      · simp only [if_neg hkn, if_neg hkm, Option.map_map]
        congr 1
        funext z
        simp only [Function.comp_apply, Node.mapOperands_mapOperands, hcomm]

/-! ## What makes folding fail -/

theorem WellFormed.replacement?_eq_error_iff_live (hg : g.WellFormed)
    (hx : g.nodes[n.index]? = some x) :
    g.replacement? options n = .error e ↔ ∃ y index name, g.liveNode? n = some y ∧
      y.opcode = .arg index name ∧ g.boundFormal n y index = .error e := by
  rw [hg.replacement?_eq_error_iff hx]
  constructor
  · rintro ⟨hd, index, name, hk, he⟩
    exact ⟨x, index, name, liveNode?_of_live hx hd, hk, he⟩
  · rintro ⟨y, index, name, hlive, hk, he⟩
    obtain ⟨hy, hd⟩ := liveNode?_eq_some.mp hlive
    obtain rfl := Option.some.inj (hx.symm.trans hy)
    exact ⟨hd, index, name, hk, he⟩

/-- A fold neither makes folding fail at a node nor stops it from failing. -/
theorem WellFormed.replacement?_fold_eq_error_iff (hg : g.WellFormed)
    (hx : g.nodes[n.index]? = some x) (hy : g.nodes[m.index]? = some y) (hd : y.dead = false)
    (hr : g.Restates options y v) :
    (g.fold m y.result v).replacement? options n = .error e ↔
      g.replacement? options n = .error e := by
  obtain ⟨z, hz⟩ := exists_node_fold ⟨x, hx⟩ m y.result v
  rw [(hg.fold hy hr).replacement?_eq_error_iff_live hz]
  by_cases hnm : n = m
  · subst hnm
    rw [(hg.replacement?_eq_some_iff hy).mpr ⟨hd, hr⟩, hg.liveNode?_fold]
    simp
  · rw [hg.replacement?_eq_error_iff_live hx, hg.liveNode?_fold, if_neg hnm]
    simp only [(sameShape_fold g m y.result v).boundFormal_eq, Option.map_eq_some_iff]
    constructor
    · rintro ⟨_, index, name, ⟨u, hu, rfl⟩, hk, he⟩
      exact ⟨u, index, name, hu, hk, he⟩
    · rintro ⟨u, index, name, hu, hk, he⟩
      exact ⟨_, index, name, ⟨u, hu, rfl⟩, hk, he⟩

end Graph

end DeferredIR
