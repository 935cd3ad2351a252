import DeferredIR.Proofs.Fold.Effects

/-!
# Functions are isolated

To which function a value belongs is not stored: it is the function of the node or formal argument
that defines the value. Edits check it before they write, and fold rules do not look at it. But a
node, dead or not, reads values of its own function only, and what a node restates is a formal
argument of that function or is read by a node of it. So neither kind of change leads from one
function to another, and what is done to one function leaves all others exactly as they are.
-/

namespace DeferredIR

open DeferredIR.Graph

variable {g g' h : Graph} {n : NodeId} {x y : Node} {v w old new : ValueId} {f f' : FuncId}
variable {d : Draft} {options : FoldOptions} {trace : List (NodeId × ValueId)} {slot : Nat}

namespace Graph

/-- Both graphs have the same function `f`, with the same nodes and the same values. -/
structure SameWithin (f : FuncId) (g g' : Graph) : Prop where
  func : g'.functions[f.index]? = g.functions[f.index]?
  node : ∀ (n : NodeId) (x : Node), x.func = f →
    (g'.nodes[n.index]? = some x ↔ g.nodes[n.index]? = some x)
  owner : ∀ v, g'.owner? v = some f ↔ g.owner? v = some f
  value : ∀ v, g.owner? v = some f → g'.values[v.index]? = g.values[v.index]?

namespace SameWithin

theorem refl (f : FuncId) (g : Graph) : SameWithin f g g :=
  ⟨rfl, fun _ _ _ => Iff.rfl, fun _ => Iff.rfl, fun _ _ => rfl⟩

theorem trans (s : SameWithin f g g') (s' : SameWithin f g' h) : SameWithin f g h where
  func := s'.func.trans s.func
  node n x hx := (s'.node n x hx).trans (s.node n x hx)
  owner v := (s'.owner v).trans (s.owner v)
  value v hv := (s'.value v ((s.owner v).mpr hv)).trans (s.value v hv)

/-- A change within the frame of a graph that leaves the entries of `f` alone. -/
theorem of_sameFrame (s : SameFrame g g')
    (hnode : ∀ (n : NodeId) (x : Node), g.nodes[n.index]? = some x → x.func = f →
      g'.nodes[n.index]? = some x)
    (hvalue : ∀ v, g.owner? v = some f → g'.values[v.index]? = g.values[v.index]?) :
    SameWithin f g g' where
  func := by rw [s.functions]
  node n x hx := by
    refine ⟨fun hn => ?_, fun hn => hnode n x hn hx⟩
    obtain ⟨y, hy, hframe⟩ := s.exists_node hn
    have hfunc : y.func = f := (Node.frame_eq_iff.mp hframe).2.2.1.trans hx
    rw [hy, Option.some.inj ((hnode n y hy hfunc).symm.trans hn)]
  owner v := by rw [s.owner?]
  value := hvalue

end SameWithin

/-! ## Changes of one function -/

/-- A value of another function is not among those that belong to `f'`. -/
theorem ne_of_owner? (hv : g.owner? v = some f) (hw : g.owner? w = some f') (hne : f' ≠ f) :
    v ≠ w := by
  rintro rfl
  exact hne (Option.some.inj (hw.symm.trans hv))

theorem sameWithin_assignType (hv : g.owner? v = some f') (hne : f' ≠ f) (t : TypeId) :
    SameWithin f g (g.assignType v t) := by
  refine .of_sameFrame (sameFrame_assignType g v t) (fun n x hx _ => hx) fun w hw => ?_
  have hindex : v.index ≠ w.index := fun he => ne_of_owner? hw hv hne (congrArg ValueId.mk he.symm)
  rw [assignType, modifyValue, Array.getElem?_modify, if_neg hindex]

/-- Only nodes of the function of `old` read it. -/
theorem WellFormed.sameWithin_redirect (hg : g.WellFormed) (hold : g.owner? old = some f')
    (hnew : g.owner? new = some f') (hne : f' ≠ f) : SameWithin f g (g.redirect old new) := by
  refine .of_sameFrame (sameFrame_redirect g old new) (fun n x hx hfunc => ?_) fun w hw => ?_
  · have hunread : ∀ v ∈ x.operands, v ≠ old := fun v hv =>
      ne_of_owner? (hfunc ▸ hg.operand_owner hx hv) hold hne
    have hops : x.operands.map (fun w => if w = old then new else w) = x.operands := by
      rw [List.map_congr_left fun v hv => if_neg (hunread v hv), List.map_id']
    rw [hg.nodes_redirect, hx, Option.map_some, hops]
    split <;> rfl
  · rw [getElem?_values_redirect]
    have hwold : old ≠ ⟨w.index⟩ := (ne_of_owner? hw hold hne).symm
    have hwnew : new ≠ ⟨w.index⟩ := (ne_of_owner? hw hnew hne).symm
    simp only [if_neg hwold, if_neg hwnew, List.append_nil, Option.map_id']

/-- Only values of the function of `n` record what it reads. -/
theorem WellFormed.sameWithin_retire (hg : g.WellFormed) (hx : g.nodes[n.index]? = some x)
    (hne : x.func ≠ f) : SameWithin f g (g.retire n) := by
  refine .of_sameFrame (sameFrame_retire g n) (fun m y hy hfunc => ?_) fun w hw => ?_
  · have hmn : m ≠ n := by
      rintro rfl
      exact hne (Option.some.inj (hx.symm.trans hy) ▸ hfunc)
    rw [getElem?_nodes_retire, hy, Option.map_some, if_neg hmn]
  · have hunread : w ∉ g.operandsOf n := by
      rw [operandsOf, hx]
      exact fun hm => ne_of_owner? hw (hg.operand_owner hx hm) hne rfl
    simp only [getElem?_values_retire, if_neg hunread, Option.map_id']

theorem WellFormed.sameWithin_append (hg : g.WellFormed) (hd : g.requireDraft f' d = .ok ())
    (hne : f' ≠ f) : SameWithin f g (g.append f' d) where
  func := by
    have hindex : f'.index ≠ f.index := fun he => hne (congrArg FuncId.mk he)
    rw [Graph.append, Array.getElem?_modify, if_neg hindex]
  node n x hx := by
    rw [getElem?_nodes_append]
    split
    · subst n
      have hnone : g.nodes[g.nextNode.index]? = none := by simp [nextNode]
      rw [hnone, Option.some.injEq]
      constructor
      · rintro rfl
        exact absurd hx hne
      · rintro ⟨⟩
    · exact Iff.rfl
  owner v := by
    by_cases hv : v.index < g.values.size
    · rw [owner?_append_of_lt g f' d hg.toCoherent hv]
    · have hnone : g.owner? v ≠ some f := fun ho => hv (lt_of_owner? ho)
      refine iff_of_false (fun ho => ?_) hnone
      by_cases hnext : v = g.nextValue
      · obtain ⟨hwf, -⟩ := Edit.append_of_requireDraft hg hd
        have hresult := hwf.owner?_result (getElem?_nodes_append_nextNode g f' d)
        exact hne (Option.some.inj (hresult.symm.trans (hnext ▸ ho)))
      · obtain ⟨o, hov⟩ := exists_origin?_of_owner? ho
        rw [origin?_append, if_neg hnext] at hov
        exact hv (lt_of_origin? hov)
  value v hv := by
    obtain ⟨-, hops, -⟩ := of_requireDraft hd
    have hunread : v ∉ d.operands := fun hm => ne_of_owner? hv (hops v hm).1 hne rfl
    rw [getElem?_values_append, if_neg (ne_nextValue (lt_of_owner? hv)), usesBy_eq_nil hunread]
    simp only [List.append_nil, Option.map_id']

end Graph

/-! ## Commands on one function -/

/-- The command is an edit of the function `f`. -/
def Command.ActsOn (f : FuncId) : Command → Graph → Prop
  | build func _ _, _ => func = f
  | assignType value _, g => g.owner? value = some f
  | replace old _, g => g.owner? old = some f
  | _, _ => False

namespace Edit

theorem sameWithin_build (hg : g.WellFormed) (hne : f' ≠ f) (options : FoldOptions)
    (request : Request) : SameWithin f g ((build f' options request).after g) := by
  have hb := built_run_build hg f' options request
  rw [after]
  generalize (build f' options request).run g = r at hb
  cases hb with
  | noFunc | noDraft | unfit => exact .refl f g
  | kept hd => exact hg.sameWithin_append hd hne
  | folded hd _ =>
    obtain ⟨hwf, -⟩ := append_of_requireDraft hg hd
    exact (hg.sameWithin_append hd hne).trans
      (hwf.sameWithin_retire (getElem?_nodes_append_nextNode ..) hne)

theorem sameWithin_assignType (hv : g.owner? v = some f') (hne : f' ≠ f) (t : TypeId) :
    SameWithin f g ((assignType v t).after g) := by
  rw [after, run_assignType]
  cases g.requireAssignable v t with
  | error e => exact .refl f g
  | ok _ => exact Graph.sameWithin_assignType hv hne t

theorem sameWithin_replace (hg : g.WellFormed) (hold : g.owner? old = some f') (hne : f' ≠ f)
    (new : ValueId) : SameWithin f g ((replace old new).after g) := by
  cases hr : g.requireReplaceable old new with
  | error e =>
    rw [after, run_replace, hr]
    exact .refl f g
  | ok _ =>
    obtain ⟨owner, ho, hnew, -⟩ := of_requireReplaceable hr
    obtain rfl := Option.some.inj (hold.symm.trans ho)
    obtain ⟨count, hrun⟩ := run_replace_of_ok hg hr
    rw [after_of_ok hrun]
    split
    · exact .refl f g
    · exact hg.sameWithin_redirect hold hnew hne

end Edit

theorem Command.ActsOn.sameWithin_run {c : Command} (hc : c.ActsOn f' g) (hg : g.WellFormed)
    (hne : f' ≠ f) : SameWithin f g (c.run g).2 := by
  rw [Command.run_snd]
  cases c with
  | build func options request =>
    obtain rfl : func = f' := hc
    rw [Command.edit, Edit.after_map]
    exact Edit.sameWithin_build hg hne options request
  | assignType value type =>
    rw [Command.edit_assignType, Edit.after_map]
    exact Edit.sameWithin_assignType hc hne type
  | replace old new =>
    rw [Command.edit, Edit.after_map]
    exact Edit.sameWithin_replace hg hc hne new
  | internType | addFunc | foldAll => exact hc.elim

namespace Graph

/-! ## Folds -/

/-- Each fold of a sequence puts a value of one function in the place of another of it. -/
theorem Folds.exists_owner (hf : Folds options g trace g') (hg : g.WellFormed) :
    ∀ p ∈ trace, ∃ r f, g.resultOf? p.1 = some r ∧ g.owner? r = some f ∧
      g.owner? p.2 = some f := by
  intro p hp
  obtain ⟨before, k, x, hk, hx, hr⟩ := hf.exists_of_mem hp
  obtain ⟨-, hs⟩ := restates_of_node_eq hx hr
  have hwf := hk.wellFormed hg
  have s := hk.sameShape.toSameFrame
  rw [← s.owner?]
  exact ⟨x.result, x.func, by rw [← s.resultOf?, resultOf?, hx]; rfl,
    (s.owner? _).symm.trans (hwf.owner?_result hx), hs.owner? hwf hx⟩

/-- What a node reads after folds is of its function. -/
theorem Folds.operand_owner (hf : Folds options g trace g') (hg : g.WellFormed)
    (hx : g.nodes[n.index]? = some x) (hy : g'.nodes[n.index]? = some y)
    (hv : y.operands[slot]? = some v) : g.owner? v = some x.func := by
  obtain ⟨x', hx', hslots⟩ := hf.exists_standsFor hg hy
  obtain rfl := Option.some.inj (hx.symm.trans hx')
  obtain ⟨w, hw, hstands⟩ := hslots slot v hv
  exact hstands.owner.trans (hg.operand_owner hx (List.mem_of_getElem? hw))

/-- Every node, live or dead, reads values of its own function only, and so is recorded by values of
its function only. Building in one function, typing one of its values or replacing one of its values
leaves every other function as it is, with its formal arguments, its nodes and its values. A fold
pass, whether it fails or not, replaces values of a function by values of that function. -/
theorem Reachable.functions_isolated (h : g.Reachable) :
    (∀ (n : NodeId) (x : Node), g.nodes[n.index]? = some x → ∀ v ∈ x.operands,
      g.owner? v = some x.func) ∧
    (∀ (v : ValueId) (value : Value), g.values[v.index]? = some value → ∀ u ∈ value.uses,
      ∃ x, g.nodes[u.node.index]? = some x ∧ g.owner? v = some x.func) ∧
    (∀ (f f' : FuncId) (c : Command), f' ≠ f → c.ActsOn f' g → SameWithin f g (c.run g).2) ∧
    ∀ options : FoldOptions,
      (∀ p ∈ (Command.foldAll options).trace g, ∃ r f, g.resultOf? p.1 = some r ∧
        g.owner? r = some f ∧ g.owner? p.2 = some f) ∧
      ∀ (n : NodeId) (x y : Node), g.nodes[n.index]? = some x →
        ((Command.foldAll options).run g).2.nodes[n.index]? = some y →
          ∀ (slot : Nat) (v : ValueId), y.operands[slot]? = some v →
            g.owner? v = some x.func := by
  have hwf := h.wellFormed
  refine ⟨fun n x hx v hv => hwf.operand_owner hx hv, fun v value hv u hu => ?_,
    fun f f' c hne hc => hc.sameWithin_run hwf hne, fun options => ?_⟩
  · rw [← usesOf_of_value hv] at hu
    obtain ⟨x, hx, -, hread⟩ := hwf.exists_of_mem_uses hu
    exact ⟨x, hx, hwf.operand_owner hx (List.mem_of_getElem? hread)⟩
  · have hfolds := Command.folds_foldAll hwf options
    exact ⟨hfolds.exists_owner hwf,
      fun n x y hx hy slot v hv => hfolds.operand_owner hwf hx hy hv⟩

/-- Two functions whose nodes alternate. In the first, one node is folded as it is built and another
comes to read its own result; nothing of that is seen in the second. -/
theorem functions_isolated_of_alternating_nodes :
    let g := (ofTable { names := ["int"] }).after
      [.addFunc "f" [⟨1⟩], .addFunc "g" [⟨1⟩], .build ⟨1⟩ {} (.cast ⟨1⟩ ⟨1⟩),
        .build ⟨0⟩ {} (.iter ⟨0⟩), .build ⟨1⟩ {} (.iter ⟨2⟩)]
    let cast : Command := .build ⟨0⟩ { onBuild := true } (.cast ⟨0⟩ ⟨1⟩)
    let cycle : Command := .replace ⟨0⟩ ⟨3⟩
    ((cast.run g).1 = .ok (.value ⟨0⟩) ∧ SameWithin ⟨1⟩ g (cast.run g).2) ∧
      ((cycle.run g).1 = .ok (.count 1) ∧ SameWithin ⟨1⟩ g (cycle.run g).2) ∧
      (((Command.foldAll {}).run g).2.nodes[2]?.map Node.operands = some [⟨1⟩] ∧
        g.owner? ⟨1⟩ = some ⟨1⟩) := by
  intro g cast cycle
  have h : g.Reachable := ⟨_, _, rfl⟩
  have hcast : (cast.run g).1 = .ok (.value ⟨0⟩) := by unfold cast g; rfl
  have hcycle : (cycle.run g).1 = .ok (.count 1) := by unfold cycle g; rfl
  have howner : g.owner? ⟨0⟩ = some ⟨0⟩ := by unfold g; rfl
  have hx : g.nodes[2]? = some ⟨.iter, [⟨2⟩], ⟨4⟩, ⟨1⟩, false⟩ := by unfold g; rfl
  have hy : ((Command.foldAll {}).run g).2.nodes[2]? =
      some ⟨.iter, [⟨1⟩], ⟨4⟩, ⟨1⟩, false⟩ := by
    unfold g
    rfl
  clear_value g
  obtain ⟨-, -, hsame, hpass⟩ := h.functions_isolated
  obtain ⟨-, hslots⟩ := hpass {}
  exact ⟨⟨hcast, hsame ⟨1⟩ ⟨0⟩ cast (by decide) rfl⟩,
    ⟨hcycle, hsame ⟨1⟩ ⟨0⟩ cycle (by decide) howner⟩,
    by rw [hy]; rfl, hslots ⟨2⟩ _ _ hx hy 0 ⟨1⟩ rfl⟩

end Graph

end DeferredIR
