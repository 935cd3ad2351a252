import DeferredIR.Proofs.Denotation

/-!
# Passes keep meanings

If an interpretation obeys the laws behind the fold rules, then what a node restates denotes what
the node denotes. A fold of an ordered graph therefore keeps what every value denotes and what is
denoted in every operand slot, and so does a pass, wherever it ends.
-/

namespace DeferredIR

open DeferredIR.Graph

universe u

variable {D : Type u} {g g' g'' : Graph} {n : NodeId} {node : Node} {v w : ValueId} {d e : D}
variable {options : FoldOptions} {I : Interpretation D}

namespace Interpretation

/-- The laws behind the fold rules. Those of projections are asked for only where they fold. -/
structure Lawful (I : Interpretation D) (g : Graph) (structural : Bool) : Prop where
  /-- An argument node within the bounds of its function is that formal argument. -/
  arg : ∀ {f i v}, g.formalAt? f i = some v → ∀ name t,
    I.node f (.arg i name) [] t [] = I.formal f i
  /-- A cast from a known type to itself is its operand. -/
  cast : ∀ f t d, t ≠ .undefined → I.node f .cast [t] t [d] = d
  /-- An item of a tuple is that item. -/
  item : structural = true → ∀ {f i} {ts : List TypeId} {ds : List D} {d},
    ts.length = ds.length → ds[i]? = some d → ∀ container position t p,
      I.node f (.item i) [container, position] t [I.node f .tuple ts container ds, p] = d
  pairFirst : structural = true → ∀ f s s' container t d d',
    I.node f .pairFirst [container] t [I.node f .tuple [s, s'] container [d, d']] = d
  pairSecond : structural = true → ∀ f s s' container t d d',
    I.node f .pairSecond [container] t [I.node f .tuple [s, s'] container [d, d']] = d'

namespace Lawful

theorem of_sameFrame {structural : Bool} (hI : I.Lawful g structural) (s : SameFrame g g') :
    I.Lawful g' structural where
  arg hv := hI.arg (s.formalAt? _ _ ▸ hv)
  cast := hI.cast
  item := hI.item
  pairFirst := hI.pairFirst
  pairSecond := hI.pairSecond

/-- The laws of projections as one: any of them takes its item of a tuple. -/
theorem projection {structural : Bool} (hI : I.Lawful g structural) (hs : structural = true)
    {f : FuncId} {k : Opcode} {index length : Nat} {ts ts' : List TypeId} {ds ds' : List D}
    {container : TypeId} (hk : k.Projects index length) (hds' : ds'.length = length)
    (hts' : ts'.length = length) (hd : ds'[index]? = some d) (hlt : k.arity.accepts ts.length)
    (hts : ts[0]? = some container) (hld : k.arity.accepts ds.length)
    (hds : ds[0]? = some (I.node f .tuple ts' container ds')) (t : TypeId) :
    I.node f k ts t ds = d := by
  cases hk with
  | item index length =>
    obtain ⟨c, p, rfl⟩ := List.length_eq_two.mp (Arity.accepts_exactly.mp hlt)
    obtain ⟨x, y, rfl⟩ := List.length_eq_two.mp (Arity.accepts_exactly.mp hld)
    obtain rfl : c = container := Option.some.inj hts
    obtain rfl : x = _ := Option.some.inj hds
    exact hI.item hs (hts'.trans hds'.symm) hd c p t y
  | pairFirst =>
    obtain ⟨c, rfl⟩ := List.length_eq_one_iff.mp (Arity.accepts_exactly.mp hlt)
    obtain ⟨x, rfl⟩ := List.length_eq_one_iff.mp (Arity.accepts_exactly.mp hld)
    obtain ⟨s, s', rfl⟩ := List.length_eq_two.mp hts'
    obtain ⟨y, z, rfl⟩ := List.length_eq_two.mp hds'
    obtain rfl : c = container := Option.some.inj hts
    obtain rfl : x = _ := Option.some.inj hds
    obtain rfl : y = d := Option.some.inj hd
    exact hI.pairFirst hs f s s' c t y z
  | pairSecond =>
    obtain ⟨c, rfl⟩ := List.length_eq_one_iff.mp (Arity.accepts_exactly.mp hlt)
    obtain ⟨x, rfl⟩ := List.length_eq_one_iff.mp (Arity.accepts_exactly.mp hld)
    obtain ⟨s, s', rfl⟩ := List.length_eq_two.mp hts'
    obtain ⟨y, z, rfl⟩ := List.length_eq_two.mp hds'
    obtain rfl : c = container := Option.some.inj hts
    obtain rfl : x = _ := Option.some.inj hds
    obtain rfl : z = d := Option.some.inj hd
    exact hI.pairSecond hs f s s' c t y z

end Lawful

end Interpretation

/-- What a node restates denotes what the node denotes. -/
theorem Graph.Restates.denotes (hr : g.Restates options node v) (h : g.WellFormed)
    (hI : I.Lawful g options.structural) (hn : g.nodes[n.index]? = some node)
    (hd : I.Denotes g node.result d) : I.Denotes g v d := by
  obtain ⟨ds, hl, hds, rfl⟩ := hd.exists_operands (h.origin?_result hn) hn
  have hacc := h.accepts hn
  cases hr with
  | arg hk hf _ =>
    rw [hk, Opcode.arity, Arity.accepts_exactly] at hacc
    obtain rfl : ds = [] := List.length_eq_zero_iff.mp (hl.trans hacc)
    rw [hk, List.length_eq_zero_iff.mp hacc, List.map_nil, hI.arg hf]
    exact .formal (h.formal_iff.mpr hf)
  | cast hk hv ht =>
    rw [hk, Opcode.arity, Arity.accepts_exactly] at hacc
    obtain ⟨d, rfl⟩ := List.length_eq_one_iff.mp (hl.trans hacc)
    obtain ⟨w, hops⟩ := List.length_eq_one_iff.mp hacc
    rw [hops] at hv
    obtain rfl : w = v := Option.some.inj hv
    rw [hk, hops, List.map_cons, List.map_nil, ← ht.1, hI.cast _ _ _ ht.2]
    exact hds 0 w d (by rw [hops]; rfl) rfl
  | @projection index container tuple hs hk hc ht hv _ =>
    obtain ⟨t, ho, htn, -, htk⟩ := ht
    obtain ⟨c, hcd⟩ := Interpretation.exists_getElem? hl hc
    obtain ⟨ds', hl', hds', hceq⟩ := (hds 0 container c hc hcd).exists_operands ho htn
    obtain ⟨x, hx⟩ := Interpretation.exists_getElem? hl' hv
    have hfunc : tuple.func = node.func := by
      have howner := h.operand_owner hn (List.mem_of_getElem? hc)
      rw [owner?_of_result ho htn] at howner
      exact Option.some.inj howner
    rw [htk, hfunc] at hceq
    have htype : (node.operands.map g.typeOf)[0]? = some (g.typeOf container) := by
      rw [List.getElem?_map, hc]
      rfl
    have hlaw : I.node node.func node.opcode (node.operands.map g.typeOf) (g.typeOf node.result)
        ds = x := by
      refine hI.projection hs hk hl' (List.length_map g.typeOf) hx ?_ htype ?_ (hceq ▸ hcd) _
      · rwa [List.length_map]
      · rwa [hl]
    rw [hlaw]
    exact hds' index v x hv hx

namespace Interpretation

/-! ## One fold -/

theorem denotes_fold (h : g.WellFormed) (ho : g.Ordered) (hI : I.Lawful g options.structural)
    (hn : g.nodes[n.index]? = some node) (hr : g.Restates options node v)
    (hw : I.Denotes g w d) : I.Denotes (g.fold n node.result v) w d := by
  -- by the age of `w`, as the operand `v` that a node may gain is no part of its derivation in `g`
  induction hk : w.index using Nat.strongRecOn generalizing w d with
  | ind k ih =>
    subst hk
    have hs := sameFrame_fold g n node.result v
    cases hw with
    | formal horigin => exact .formal ((hs.origin w).trans horigin)
    | @node _ m x ds horigin hm hl hds =>
      obtain ⟨y, hy, hframe⟩ := hs.symm.exists_node hm
      obtain ⟨_, hx, -, -, hslots⟩ := h.of_nodes_fold hy
      cases hm.symm.trans hx
      obtain ⟨_, hx, hresult⟩ := h.exists_node horigin
      cases hm.symm.trans hx
      obtain ⟨hopcode, -, hfunc, hlength⟩ := Node.frame_eq_iff.mp hframe
      have htypes : y.operands.map (g.fold n node.result v).typeOf = x.operands.map g.typeOf := by
        have htypeOf : (g.fold n node.result v).typeOf = g.typeOf := by
          funext w
          exact typeOf_fold g n node.result v w
        rw [htypeOf]
        apply List.ext_getElem?
        intro slot
        rw [List.getElem?_map, List.getElem?_map]
        rcases hslots slot with he | ⟨hold, hnew⟩
        · rw [he]
        · rw [hold, hnew, Option.map_some, Option.map_some, hr.typeOf_eq]
      rw [← hopcode, ← hfunc, ← htypes, ← typeOf_fold g n node.result v w]
      refine .node ((hs.origin w).trans horigin) hy (hl.trans hlength.symm) ?_
      intro slot w' d hw' hd
      rcases hslots slot with he | ⟨hold, hnew⟩
      · rw [he] at hw'
        have hlt := ho m x hm w' (List.mem_of_getElem? hw')
        exact ih w'.index (hresult ▸ hlt) (hds slot w' d hw' hd) rfl
      · obtain rfl : v = w' := Option.some.inj (hnew.symm.trans hw')
        have hlt := ho m x hm node.result (List.mem_of_getElem? hold)
        have hd' := hr.denotes h hI hn (hds slot node.result d hold hd)
        exact ih v.index (Nat.lt_trans (hr.index_lt h ho hn) (hresult ▸ hlt)) hd' rfl

/-- What a value of `g` denotes it denotes in `g'`, and it is still denoted in each operand slot
in which the value stood. -/
structure Simulates (I : Interpretation D) (g g' : Graph) : Prop where
  denotes : ∀ {v d}, I.Denotes g v d → I.Denotes g' v d
  node : ∀ {n : NodeId} {y : Node}, g'.nodes[n.index]? = some y → ∃ x, g.nodes[n.index]? = some x ∧
    x.frame = y.frame ∧ (y.dead = false → x.dead = false) ∧
      ∀ {slot : Nat} {v w : ValueId} {d : D}, x.operands[slot]? = some v →
        y.operands[slot]? = some w → I.Denotes g v d → I.Denotes g' w d

namespace Simulates

theorem refl (I : Interpretation D) (g : Graph) : I.Simulates g g where
  denotes hd := hd
  node hy := ⟨_, hy, rfl, id, fun hv hw hd => Option.some.inj (hv.symm.trans hw) ▸ hd⟩

theorem trans (hg : I.Simulates g g') (hg' : I.Simulates g' g'') : I.Simulates g g'' where
  denotes hd := hg'.denotes (hg.denotes hd)
  node := by
    intro n z hz
    obtain ⟨y, hy, hyz, hdead', hslots'⟩ := hg'.node hz
    obtain ⟨x, hx, hxy, hdead, hslots⟩ := hg.node hy
    refine ⟨x, hx, hxy.trans hyz, fun hd => hdead (hdead' hd), fun {slot v w d} hv hw hd => ?_⟩
    obtain ⟨u, hu⟩ := exists_getElem? (Node.frame_eq_iff.mp hxy).2.2.2.symm hv
    exact hslots' hu hw (hslots hv hu hd)

theorem of_fold (h : g.WellFormed) (ho : g.Ordered) (hI : I.Lawful g options.structural)
    (hn : g.nodes[n.index]? = some node) (hr : g.Restates options node v) :
    I.Simulates g (g.fold n node.result v) where
  denotes hd := denotes_fold h ho hI hn hr hd
  node := by
    intro m y hy
    obtain ⟨x, hx, hframe, hdead, hslots⟩ := h.of_nodes_fold hy
    refine ⟨x, hx, hframe, hdead, fun {slot w w' d} hw hw' hd => ?_⟩
    rcases hslots slot with he | ⟨hold, hnew⟩
    · rw [he, hw] at hw'
      exact denotes_fold h ho hI hn hr (Option.some.inj hw' ▸ hd)
    · obtain rfl : w = node.result := Option.some.inj (hw.symm.trans hold)
      obtain rfl : v = w' := Option.some.inj (hnew.symm.trans hw')
      exact denotes_fold h ho hI hn hr (hr.denotes h hI hn hd)

/-! ## Passes -/

theorem of_folds {trace : List (NodeId × ValueId)} (hf : Folds options g trace g')
    (h : g.WellFormed) (ho : g.Ordered) (hI : I.Lawful g options.structural) :
    I.Simulates g g' := by
  induction hf with
  | nil g => exact .refl I g
  | @cons g g' n node v trace hn hr _ ih =>
    obtain ⟨-, hs⟩ := restates_of_node_eq hn hr
    have hfold : I.Simulates g (g.fold n node.result v) := .of_fold h ho hI hn hs
    exact hfold.trans (ih (h.fold hn hs) (ho.fold h hn hs) (hI.of_sameFrame (sameFrame_fold ..)))

theorem agrees (hg : I.Simulates g g') (h : g.WellFormed) (ho : g.Ordered)
    (hv : v.index < g.values.size) : I.Agrees g v g' v := by
  obtain ⟨d, hd⟩ := I.exists_denotes h ho hv
  exact agrees_of_denotes hd (hg.denotes hd)

end Simulates

end Interpretation

/-- After a pass over an ordered graph, whether it failed or not, the live nodes are some of those
that were live before, and each of them denotes what it denoted before, as does each operand in its
slot. -/
theorem Graph.OrderedReachable.foldAll_keeps_meaning (h : g.OrderedReachable)
    (options : FoldOptions) {I : Interpretation D} (hI : I.Lawful g options.structural) :
    let g' := ((Command.foldAll options).run g).2
    ∀ (n : NodeId) (y : Node), g'.nodes[n.index]? = some y → y.dead = false →
      ∃ x, g.nodes[n.index]? = some x ∧ x.dead = false ∧ x.frame = y.frame ∧
        I.Agrees g x.result g' y.result ∧
        ∀ (slot : Nat) (v w : ValueId), x.operands[slot]? = some v → y.operands[slot]? = some w →
          I.Agrees g v g' w := by
  intro g' n y hy hd
  have hwf := h.wellFormed
  have hsim : I.Simulates g g' :=
    .of_folds (Command.folds_foldAll hwf options) hwf h.ordered hI
  obtain ⟨x, hx, hframe, hdead, hslots⟩ := hsim.node hy
  refine ⟨x, hx, hdead hd, hframe, ?_, fun slot v w hv hw => ?_⟩
  · rw [← (Node.frame_eq_iff.mp hframe).2.1]
    exact hsim.agrees hwf h.ordered (lt_of_owner? (hwf.owner?_result hx))
  · obtain ⟨d, hvd⟩ := I.exists_denotes hwf h.ordered
      (hwf.lt_of_mem_operands hx (List.mem_of_getElem? hv))
    exact Interpretation.agrees_of_denotes hvd (hslots hv hw hvd)

/-- An interpretation in JSON. Tuples are arrays, casts change nothing, and a node without a law is
described by its opcode and its operands. -/
def Interpretation.describe : Interpretation Json where
  formal f i := .obj [("func", .int f.index), ("formal", .int i)]
  node f k _ _ ds :=
    match k, ds with
    | .arg i _, _ => .obj [("func", .int f.index), ("formal", .int i)]
    | .cast, [d] => d
    | .tuple, ds => .arr ds
    | .item i, .arr items :: _ => items.getD i .null
    | .pairFirst, [.arr items] => items.getD 0 .null
    | .pairSecond, [.arr items] => items.getD 1 .null
    | k, ds => .obj (k.members ++ [("operands", .arr ds)])

theorem Interpretation.lawful_describe (g : Graph) (structural : Bool) :
    describe.Lawful g structural where
  arg _ _ _ := rfl
  cast _ _ _ _ := rfl
  item := by
    intro _ f i ts ds d _ hd container position t p
    show ds.getD i .null = d
    rw [List.getD_eq_getElem?_getD, hd, Option.getD_some]
  pairFirst _ _ _ _ _ _ _ _ := rfl
  pairSecond _ _ _ _ _ _ _ _ := rfl

/-- A node that reads a cast of an item of a tuple comes to read the item, with one meaning. -/
theorem Graph.foldAll_keeps_meaning_of_reader :
    let g := (ofTable { names := ["int"] }).after
      [.addFunc "f" [⟨1⟩], .build ⟨0⟩ {} (.tuple [⟨0⟩, ⟨0⟩]),
        .build ⟨0⟩ {} (.node { opcode := .item 1, operands := [⟨1⟩, ⟨0⟩], type := ⟨1⟩ }),
        .build ⟨0⟩ {} (.cast ⟨2⟩ ⟨1⟩), .build ⟨0⟩ {} (.iter ⟨3⟩)]
    let g' := ((Command.foldAll { structural := true }).run g).2
    Interpretation.describe.Agrees g ⟨4⟩ g' ⟨4⟩ ∧ Interpretation.describe.Agrees g ⟨3⟩ g' ⟨0⟩ := by
  intro g g'
  have h : g.OrderedReachable := (OrderedReachable.init _).after (by simp)
  have hg : (g.nodes[3]?.map fun x => (x.operands, x.result)) = some ([⟨3⟩], ⟨4⟩) := by decide
  have hg' : (g'.nodes[3]?.map fun y => (y.operands, y.result, y.dead)) =
      some ([⟨0⟩], ⟨4⟩, false) := by decide +kernel
  obtain ⟨x, hx, hxeq⟩ := Option.map_eq_some_iff.mp hg
  obtain ⟨y, hy, hyeq⟩ := Option.map_eq_some_iff.mp hg'
  simp only [Prod.mk.injEq] at hxeq hyeq
  obtain ⟨x', hx', -, -, hresult, hslots⟩ := h.foldAll_keeps_meaning { structural := true }
    (Interpretation.lawful_describe g true) ⟨3⟩ y hy hyeq.2.2
  obtain rfl := Option.some.inj (hx.symm.trans hx')
  rw [hxeq.2, hyeq.2.1] at hresult
  refine ⟨hresult, hslots 0 ⟨3⟩ ⟨0⟩ ?_ ?_⟩
  · rw [hxeq.1]
    rfl
  · rw [hyeq.1]
    rfl

end DeferredIR
