import DeferredIR.Proofs.Fold.Checked
import DeferredIR.Proofs.Fold.OnBuild

/-!
# What folding a node at once leaves behind

A node that folds as it is built is first added like any other, with a record in the use list of
each value that it reads, and then retired, which filters these lists. No older record names the
node, so the lists come back as they were, and all that is left of the node is a dead entry. What
is answered in its place is older than the node, so it was there before, and was live.
-/

namespace DeferredIR.Graph

variable {g h : Graph} {f : FuncId} {d : Draft} {v : ValueId}

/-- `g` with a node at the end of `f` that is dead: no value records a read of it, and nothing reads
its result. -/
def appendDead (g : Graph) (f : FuncId) (d : Draft) : Graph :=
  { g with
    functions := g.functions.modify f.index fun x => { x with body := x.body ++ [g.nextNode] }
    nodes := g.nodes.push
      { opcode := d.opcode, operands := d.operands, result := g.nextValue, func := f, dead := true }
    values := g.values.push { origin := .result g.nextNode, type := d.type, uses := [] } }

/-! ## Views -/

/-- The values of a graph are determined by where they are defined, their types and their uses. -/
theorem values_eq_of_views (horigin : ∀ v, g.origin? v = h.origin? v)
    (htype : ∀ v, g.typeOf v = h.typeOf v) (huses : ∀ v, g.usesOf v = h.usesOf v) :
    g.values = h.values := by
  refine Array.ext_getElem? fun i => ?_
  have ho := horigin ⟨i⟩
  have ht := htype ⟨i⟩
  have hu := huses ⟨i⟩
  simp only [origin?, typeOf, usesOf] at ho ht hu
  cases hx : g.values[i]? with
  | none =>
    rw [hx, Option.map_none] at ho
    exact (Option.map_eq_none_iff.mp ho.symm).symm
  | some x =>
    rw [hx] at ho ht hu
    obtain ⟨y, hy, horigin⟩ := Option.map_eq_some_iff.mp ho.symm
    rw [hy] at ht hu ⊢
    obtain ⟨origin, type, uses⟩ := x
    cases horigin
    cases ht
    cases hu
    rfl

section AppendDead

variable (g f d)

theorem getElem?_nodes_appendDead (m : NodeId) :
    (g.appendDead f d).nodes[m.index]? =
      if m = g.nextNode then
        some { opcode := d.opcode, operands := d.operands, result := g.nextValue, func := f,
               dead := true }
      else g.nodes[m.index]? := by
  obtain ⟨i⟩ := m
  simp only [appendDead, nextNode, Array.getElem?_push, NodeId.mk.injEq]

theorem origin?_appendDead (v : ValueId) :
    (g.appendDead f d).origin? v =
      if v = g.nextValue then some (.result g.nextNode) else g.origin? v := by
  obtain ⟨i⟩ := v
  simp only [origin?, appendDead, Array.getElem?_push, nextValue, ValueId.mk.injEq]
  split <;> rfl

theorem typeOf_appendDead (v : ValueId) :
    (g.appendDead f d).typeOf v = if v = g.nextValue then d.type else g.typeOf v := by
  obtain ⟨i⟩ := v
  simp only [typeOf, appendDead, Array.getElem?_push, nextValue, ValueId.mk.injEq]
  split <;> rfl

theorem usesOf_appendDead (v : ValueId) : (g.appendDead f d).usesOf v = g.usesOf v := by
  obtain ⟨i⟩ := v
  simp only [usesOf, appendDead, Array.getElem?_push]
  split
  · simp [*]
  · rfl

end AppendDead

/-! ## Retiring a new node -/

theorem operandsOf_append_nextNode (g : Graph) (f : FuncId) (d : Draft) :
    (g.append f d).operandsOf g.nextNode = d.operands := by
  rw [operandsOf, getElem?_nodes_append_nextNode]
  rfl

/-- Forgetting what a new node reads leaves the older records as they are. -/
theorem WellFormed.filter_usesOf_append (hg : g.WellFormed) (operands : List ValueId)
    (v : ValueId) : (g.usesOf v ++ usesBy g.nextNode operands v).filter
      (fun u => u.node ≠ g.nextNode) = g.usesOf v := by
  have hold : (g.usesOf v).filter (fun u => u.node ≠ g.nextNode) = g.usesOf v := by
    refine List.filter_eq_self.mpr fun u hu => decide_eq_true ?_
    obtain ⟨x, hx, -⟩ := hg.exists_of_mem_uses hu
    exact ne_nextNode hx
  have hnew : (usesBy g.nextNode operands v).filter (fun u => u.node ≠ g.nextNode) = [] :=
    List.filter_eq_nil_iff.mpr fun u hu => by simp [(mem_usesBy.mp hu).1]
  rw [List.filter_append, hold, hnew, List.append_nil]

theorem WellFormed.usesOf_retire_append (hg : g.WellFormed)
    (hops : ∀ w ∈ d.operands, w.index < g.values.size) (v : ValueId) :
    ((g.append f d).retire g.nextNode).usesOf v = g.usesOf v := by
  rw [usesOf_retire, operandsOf_append_nextNode, usesOf_append g f d hops]
  split
  · exact hg.filter_usesOf_append d.operands v
  · rw [usesBy_eq_nil ‹_›, List.append_nil]

/-- Retiring a new node undoes all that adding it changed, but for a dead entry. -/
theorem WellFormed.retire_append (hg : g.WellFormed)
    (hops : ∀ w ∈ d.operands, w.index < g.values.size) :
    (g.append f d).retire g.nextNode = g.appendDead f d := by
  have hnodes : ((g.append f d).retire g.nextNode).nodes = (g.appendDead f d).nodes := by
    refine Array.ext_getElem? fun i => ?_
    rw [getElem?_nodes_retire _ _ ⟨i⟩, getElem?_nodes_append _ _ _ ⟨i⟩,
      getElem?_nodes_appendDead _ _ _ ⟨i⟩]
    split
    · rfl
    · exact Option.map_id'
  have hvalues : ((g.append f d).retire g.nextNode).values = (g.appendDead f d).values := by
    refine values_eq_of_views (fun v => ?_) (fun v => ?_) fun v => ?_
    · rw [(sameFrame_retire _ _).origin, origin?_append, origin?_appendDead]
    · rw [typeOf_retire, typeOf_append, typeOf_appendDead]
    · rw [hg.usesOf_retire_append hops, usesOf_appendDead]
  exact congrArg₂ (Graph.mk g.types (g.appendDead f d).functions) hnodes hvalues

/-! ## Builds -/

/-- What may be read before a node is built may be read after it folded. -/
theorem Available.appendDead (ha : g.Available f v) (f' : FuncId) (d : Draft) :
    (g.appendDead f' d).Available f v := by
  unfold Available
  rw [origin?_appendDead, if_neg (ne_nextValue (lt_of_owner? ha.owner?))]
  refine ha.imp_right ?_
  rintro ⟨n, x, ho, hx, hlive⟩
  refine ⟨n, x, ho, ?_, hlive⟩
  rw [getElem?_nodes_appendDead, if_neg (ne_nextNode hx), hx]

/-- What a new node restates was there before, may be read where the node stands, and has the type
that was asked for, which is known; and the node is no argument node. -/
theorem OrderedReachable.of_localReplacement?_append (h : g.OrderedReachable)
    {options : FoldOptions} (hd : g.requireDraft f d = .ok ())
    (hr : (g.append f d).localReplacement? options g.nextNode = .ok (some v)) :
    v.index < g.values.size ∧ g.Available f v ∧ g.typeOf v = d.type ∧ d.type ≠ .undefined ∧
      ∀ index name, d.opcode ≠ .arg index name := by
  have hwf := h.wellFormed
  obtain ⟨hwf', x, hx, hlive, -⟩ := Edit.append_of_requireDraft hwf hd
  obtain ⟨y, hy, hs, hnoArg⟩ := restates_of_localReplacement? hr
  obtain rfl := Option.some.inj (hx.symm.trans hy)
  obtain rfl := Option.some.inj ((getElem?_nodes_append_nextNode g f d).symm.trans hx)
  have hlt := h.lt_nextValue hd hr
  have hne : v ≠ g.nextValue := ne_nextValue hlt
  obtain ⟨-, -, hu⟩ := h.invariant
  have hstep : Step (fun _ _ => True) g (g.append f d) := .append hd
  have hfolded : ¬ (g.append f d).Folded v :=
    (hu.step hwf hstep).not_folded_of_restates hwf' hx hlive hs not_false
  have htype : g.typeOf v = d.type := by
    simpa only [typeOf_append, if_neg hne, if_pos] using hs.typeOf_eq
  refine ⟨hlt, ?_, htype, fun hundefined => ?_, hnoArg⟩
  · exact (hwf.available_append_iff hne).mp (available_of_owner? (hs.owner? hwf' hx) hfolded)
  · obtain ⟨index, name, hopcode⟩ := hs.isArg_of_undefined (by
      rw [typeOf_append, if_neg hne, htype, hundefined])
    exact hnoArg index name hopcode

/-- A build that is accepted answers the result of the new node or another value. Another value was
there before, may be read in the function before and after, and has the type that was asked for,
which is known; and all that the build leaves behind is a dead node of which no use list knows. If
the result of the new node is answered, the build did what it does where nothing folds. It is
answered for every argument node. -/
theorem OrderedReachable.folded_at_once (h : g.OrderedReachable) (options : FoldOptions)
    (r : Request) {g' : Graph} (hrun : (Edit.build f options r).run g = .ok v g') :
    ∃ d, r.draft = .ok d ∧
      (v ≠ g.nextValue →
        (v.index < g.values.size ∧ g.Available f v ∧ g'.Available f v) ∧
          (g.typeOf v = d.type ∧ d.type ≠ .undefined) ∧ g' = g.appendDead f d) ∧
      (v = g.nextValue →
        (Edit.build f { options with onBuild := false } r).run g = .ok v g') ∧
      ((∃ index name, d.opcode = .arg index name) → v = g.nextValue) := by
  have hwf := h.wellFormed
  obtain ⟨d, hfor, ⟨rfl, rfl⟩ | ⟨hr, rfl⟩⟩ := Edit.of_run_build hwf hrun
  · exact ⟨d, draft_of_draftFor hfor, absurd rfl,
      fun _ => Edit.run_build_off hwf { options with onBuild := false } rfl hfor, fun _ => rfl⟩
  · have hd := requireDraft_of_draftFor hfor
    obtain ⟨hlt, havailable, htype, hknown, hnoArg⟩ := h.of_localReplacement?_append hd hr
    have hgraph : (g.append f d).retire g.nextNode = g.appendDead f d :=
      hwf.retire_append (lt_of_requireDraft hd)
    refine ⟨d, draft_of_draftFor hfor, fun _ => ?_, fun he => absurd he (ne_nextValue hlt), ?_⟩
    · exact ⟨⟨hlt, havailable, hgraph ▸ havailable.appendDead f d⟩, ⟨htype, hknown⟩, hgraph⟩
    · rintro ⟨index, name, hopcode⟩
      exact absurd hopcode (hnoArg index name)

/-- An item of a tuple that is also read as its position folds at once, and an argument node does
not. -/
theorem OrderedReachable.folded_at_once_of_item :
    let g := (ofTable { names := ["int"] }).after
      [.addFunc "f" [⟨1⟩], .build ⟨0⟩ {} (.iter ⟨0⟩), .build ⟨0⟩ {} (.tuple [⟨0⟩, ⟨1⟩])]
    let on : FoldOptions := { onBuild := true, structural := true }
    let off : FoldOptions := { onBuild := false, structural := true }
    let item : Draft := { opcode := .item 0, operands := [⟨2⟩, ⟨0⟩], type := ⟨1⟩ }
    ((Edit.build ⟨0⟩ on (.node item)).run g = .ok ⟨0⟩ (g.appendDead ⟨0⟩ item) ∧
      g.typeOf ⟨0⟩ = ⟨1⟩ ∧ g.usesOf ⟨0⟩ = [⟨⟨0⟩, 0⟩, ⟨⟨1⟩, 0⟩]) ∧
    ∃ g', (Edit.build ⟨0⟩ on (.arg 0 "x")).run g = .ok g.nextValue g' ∧
      (Edit.build ⟨0⟩ off (.arg 0 "x")).run g = .ok g.nextValue g' := by
  intro g on off item
  have h : g.OrderedReachable := (init _).after (by simp)
  have huses : g.usesOf ⟨0⟩ = [⟨⟨0⟩, 0⟩, ⟨⟨1⟩, 0⟩] := rfl
  have hnext : (⟨0⟩ : ValueId) ≠ g.nextValue := by decide
  obtain ⟨k, hitem⟩ : ∃ k, (Edit.build ⟨0⟩ on (.node item)).run g = .ok ⟨0⟩ k := ⟨_, rfl⟩
  obtain ⟨v, g', harg⟩ : ∃ v g', (Edit.build ⟨0⟩ on (.arg 0 "x")).run g = .ok v g' := ⟨_, _, rfl⟩
  clear_value g
  obtain ⟨d, hd, hfolded, -⟩ := h.folded_at_once on (.node item) hitem
  cases hd
  obtain ⟨-, ⟨htype, -⟩, rfl⟩ := hfolded hnext
  obtain ⟨d, hd, -, hkept, hnew⟩ := h.folded_at_once on (.arg 0 "x") harg
  cases hd
  obtain rfl := hnew ⟨0, "x", rfl⟩
  exact ⟨⟨hitem, htype, huses⟩, g', harg, hkept rfl⟩

end DeferredIR.Graph
