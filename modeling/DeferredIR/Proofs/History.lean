import DeferredIR.Proofs.Graph.Live
import DeferredIR.Proofs.Run
import DeferredIR.Proofs.TypeTable

/-!
# What a graph never loses

Commands add to a graph and take nothing away. Whatever a handle names it names in all later graphs:
a function keeps its name and formal arguments, a node its opcode, result, function and number of
operands, a value its definition, a type its name. Nodes are added to functions at the end. A node
that is dead reads for ever what it read when it died, for no use of a dead node is recorded and
only recorded uses are redirected. A type that is known stays.
-/

namespace DeferredIR

open DeferredIR.Graph

variable {g g' h : Graph} {n : NodeId} {x : Node} {v old new : ValueId} {f : FuncId} {t : TypeId}
variable {c : Command} {script : List Command} {i j : Nat}

namespace Graph

/-- All that `g` names is named in `g'`, where it differs at most in what it was allowed to become:
longer, dead, typed, or a reader of other values. -/
structure Extends (g g' : Graph) : Prop where
  names : g.types.names <+: g'.types.names
  func : ∀ (f : FuncId) (x : Func), g.functions[f.index]? = some x →
    ∃ y, g'.functions[f.index]? = some y ∧ y.name = x.name ∧ y.formals = x.formals ∧
      x.body <+: y.body
  /-- A dead node stays as it is. -/
  node : ∀ (n : NodeId) (x : Node), g.nodes[n.index]? = some x →
    ∃ y, g'.nodes[n.index]? = some y ∧ y.frame = x.frame ∧ (x.dead = true → y = x)
  value : ∀ (v : ValueId) (x : Value), g.values[v.index]? = some x →
    ∃ y, g'.values[v.index]? = some y ∧ y.origin = x.origin ∧
      (x.type ≠ .undefined → y.type = x.type)

namespace Extends

theorem refl (g : Graph) : Extends g g where
  names := List.prefix_refl _
  func _ x hx := ⟨x, hx, rfl, rfl, List.prefix_refl _⟩
  node _ x hx := ⟨x, hx, rfl, fun _ => rfl⟩
  value _ x hx := ⟨x, hx, rfl, fun _ => rfl⟩

theorem trans (e : Extends g g') (e' : Extends g' h) : Extends g h where
  names := e.names.trans e'.names
  func f x hx := by
    obtain ⟨y, hy, hname, hformals, hbody⟩ := e.func f x hx
    obtain ⟨z, hz, hname', hformals', hbody'⟩ := e'.func f y hy
    exact ⟨z, hz, hname'.trans hname, hformals'.trans hformals, hbody.trans hbody'⟩
  node n x hx := by
    obtain ⟨y, hy, hframe, hdead⟩ := e.node n x hx
    obtain ⟨z, hz, hframe', hdead'⟩ := e'.node n y hy
    refine ⟨z, hz, hframe'.trans hframe, fun hd => ?_⟩
    obtain rfl := hdead hd
    exact hdead' hd
  value v x hx := by
    obtain ⟨y, hy, horigin, htype⟩ := e.value v x hx
    obtain ⟨z, hz, horigin', htype'⟩ := e'.value v y hy
    refine ⟨z, hz, horigin'.trans horigin, fun hne => ?_⟩
    have hy := htype hne
    exact (htype' (hy ▸ hne)).trans hy

theorem typeOf_eq (e : Extends g g') (hv : g.typeOf v ≠ .undefined) :
    g'.typeOf v = g.typeOf v := by
  cases hx : g.values[v.index]? with
  | none => simp [typeOf, hx] at hv
  | some x =>
    obtain ⟨y, hy, -, htype⟩ := e.value v x hx
    rw [typeOf_of_value hx] at hv ⊢
    rw [typeOf_of_value hy, htype hv]

theorem resultOf? (e : Extends g g') (hv : g.resultOf? n = some v) : g'.resultOf? n = some v := by
  obtain ⟨x, hx, rfl⟩ := Option.map_eq_some_iff.mp hv
  obtain ⟨y, hy, hframe, -⟩ := e.node n x hx
  rw [Graph.resultOf?, hy, Option.map_some, (Node.frame_eq_iff.mp hframe).2.1]

/-- What has been folded away stays so. -/
theorem folded (e : Extends g g') (hv : g.Folded v) : g'.Folded v := by
  obtain ⟨n, x, ho, hx, hd⟩ := hv
  obtain ⟨a, ha, hao⟩ := exists_value_of_origin? ho
  obtain ⟨b, hb, horigin, -⟩ := e.value v a ha
  obtain ⟨y, hy, -, hdead⟩ := e.node n x hx
  obtain rfl := hdead hd
  exact ⟨n, y, by rw [origin?_of_value hb, horigin, hao], hy, hd⟩

/-- A change within the frame of a graph that leaves dead nodes and known types alone. -/
theorem of_sameFrame (s : SameFrame g g') (hnames : g'.types = g.types)
    (hdead : ∀ (n : NodeId) (x : Node), g.nodes[n.index]? = some x → x.dead = true →
      g'.nodes[n.index]? = some x)
    (htype : ∀ v, g.typeOf v ≠ .undefined → g'.typeOf v = g.typeOf v) : Extends g g' where
  names := hnames ▸ List.prefix_refl _
  func f x hx := ⟨x, by rw [s.functions, hx], rfl, rfl, List.prefix_refl _⟩
  node n x hx := by
    obtain ⟨y, hy, hframe⟩ := s.symm.exists_node hx
    exact ⟨y, hy, hframe, fun hd => Option.some.inj (hy.symm.trans (hdead n x hx hd))⟩
  value v x hx := by
    obtain ⟨y, hy, horigin⟩ := exists_value_of_origin? ((s.origin v).trans (origin?_of_value hx))
    refine ⟨y, hy, horigin, fun hne => ?_⟩
    rw [← typeOf_of_value hx] at hne ⊢
    rw [← typeOf_of_value hy, htype v hne]

end Extends

/-! ## Changes -/

theorem extends_append (g : Graph) (f : FuncId) (d : Draft) : Extends g (g.append f d) where
  names := List.prefix_refl _
  func f' x hx := by
    simp only [append, Array.getElem?_modify]
    split
    · exact ⟨{ x with body := x.body ++ [g.nextNode] }, by rw [hx]; rfl, rfl, rfl,
        List.prefix_append _ _⟩
    · exact ⟨x, hx, rfl, rfl, List.prefix_refl _⟩
  node n x hx := by
    exact ⟨x, getElem?_nodes_append_of_node f d hx, rfl, fun _ => rfl⟩
  value v x hx := by
    have hne : v ≠ g.nextValue := by
      rintro rfl
      simp [nextValue] at hx
    exact ⟨{ x with uses := x.uses ++ usesBy g.nextNode d.operands v },
      by rw [getElem?_values_append, if_neg hne, hx]; rfl, rfl, fun _ => rfl⟩

theorem extends_appendFunc (g : Graph) (name : String) (types : List TypeId) :
    Extends g (g.appendFunc name types) where
  names := List.prefix_refl _
  func f x hx := by
    have hne : f.index ≠ g.functions.size :=
      Nat.ne_of_lt (Array.getElem?_eq_some_iff.mp hx).1
    exact ⟨x, by simp only [appendFunc, Array.getElem?_push, if_neg hne, hx], rfl, rfl,
      List.prefix_refl _⟩
  node _ x hx := ⟨x, hx, rfl, fun _ => rfl⟩
  value v x hx := by
    have hlt := (Array.getElem?_eq_some_iff.mp hx).1
    exact ⟨x, by rw [getElem?_values_appendFunc, if_pos hlt, hx], rfl, fun _ => rfl⟩

theorem extends_withTypes {name : String} {types : TypeTable}
    (hi : g.types.intern name = .ok (t, types)) : Extends g { g with types } where
  names := TypeTable.prefix_of_intern hi
  func _ x hx := ⟨x, hx, rfl, rfl, List.prefix_refl _⟩
  node _ x hx := ⟨x, hx, rfl, fun _ => rfl⟩
  value _ x hx := ⟨x, hx, rfl, fun _ => rfl⟩

theorem extends_assignType (ht : g.requireAssignable v t = .ok ()) :
    Extends g (g.assignType v t) := by
  obtain ⟨hv, huntyped, -⟩ := of_requireAssignable ht
  refine .of_sameFrame (sameFrame_assignType g v t) rfl (fun _ _ hx _ => hx) fun w hw => ?_
  rw [typeOf_assignType g v t hv, if_neg]
  rintro rfl
  exact hw huntyped

/-- Only recorded uses are redirected, and dead nodes have none. -/
theorem WellFormed.extends_redirect (hg : g.WellFormed) (old new : ValueId) :
    Extends g (g.redirect old new) := by
  refine .of_sameFrame (sameFrame_redirect g old new) rfl (fun n x hx hd => ?_) fun v _ =>
    typeOf_redirect g old new v
  rw [hg.nodes_redirect, hx]
  simp [hd]

theorem extends_retire (g : Graph) (n : NodeId) : Extends g (g.retire n) := by
  refine .of_sameFrame (sameFrame_retire g n) rfl (fun m x hx hd => ?_) fun v _ =>
    typeOf_retire g n v
  rw [getElem?_nodes_retire, hx, Option.map_some]
  obtain ⟨opcode, operands, result, func, dead⟩ := x
  dsimp only at hd
  subst hd
  split <;> rfl

theorem WellFormed.extends_fold (hg : g.WellFormed) (n : NodeId) (old new : ValueId) :
    Extends g (g.fold n old new) := by
  unfold Graph.fold
  split
  · exact extends_retire g n
  · exact (hg.extends_redirect old new).trans (extends_retire _ n)

theorem Folds.extends {options : FoldOptions} {trace : List (NodeId × ValueId)}
    (hf : Folds options g trace g') (hg : g.WellFormed) : Extends g g' :=
  (hf.preserves (P := Extends g) (fun hwf e _ _ _ => e.trans (hwf.extends_fold ..)) hg
    (.refl g)).2

theorem WellFormed.extends_step {R : ValueId → ValueId → Prop} (hg : g.WellFormed)
    (hs : Step R g g') : Extends g g' := by
  cases hs with
  | intern hi => exact extends_withTypes hi
  | appendFunc _ => exact extends_appendFunc g _ _
  | append _ => exact extends_append g _ _
  | assignType ht => exact extends_assignType ht
  | redirect _ _ _ => exact hg.extends_redirect _ _
  | retire _ _ _ => exact extends_retire g _

theorem WellFormed.extends_run (hg : g.WellFormed) (c : Command) : Extends g (c.run g).2 :=
  (c.run_preserves (P := Extends g) (R := fun _ _ => True)
    (fun hwf e hs => e.trans (hwf.extends_step hs))
    (fun hwf e _ _ _ => e.trans (hwf.extends_fold _ _ _)) (fun _ _ => trivial) hg (.refl g)).2

theorem WellFormed.extends_after (hg : g.WellFormed) (script : List Command) :
    Extends g (g.after script) :=
  hg.after_preserves (fun c hwf e => e.trans (hwf.extends_run c)) (.refl g) script

end Graph

/-! ## Types are written once -/

namespace Edit

theorem typeOf_build (hg : g.WellFormed) (hv : v.index < g.values.size) (f : FuncId)
    (options : FoldOptions) (request : Request) :
    ((build f options request).after g).typeOf v = g.typeOf v := by
  have happend : ∀ d, (g.append f d).typeOf v = g.typeOf v := by
    intro d
    rw [typeOf_append, if_neg]
    rintro rfl
    exact Nat.lt_irrefl _ hv
  have hb := built_run_build hg f options request
  rw [after]
  generalize (build f options request).run g = r at hb
  cases hb with
  | noFunc | noDraft | unfit => rfl
  | kept _ => exact happend _
  | folded _ _ => exact (typeOf_retire _ _ v).trans (happend _)

theorem typeOf_replace (hg : g.WellFormed) (old new v : ValueId) :
    ((replace old new).after g).typeOf v = g.typeOf v := by
  cases hr : g.requireReplaceable old new with
  | error e => rw [after, run_replace, hr]
  | ok _ =>
    obtain ⟨count, hrun⟩ := run_replace_of_ok hg hr
    rw [after_of_ok hrun]
    split
    · rfl
    · exact typeOf_redirect g old new v

end Edit

namespace Command

theorem run_assignType_of_ok (ht : g.requireAssignable v t = .ok ()) :
    (assignType v t).run g = (.ok .done, g.assignType v t) := by
  have hrun : (Edit.assignType v t).run g = .ok () (g.assignType v t) := by
    rw [Edit.run_assignType, ht]
  rw [run, edit_assignType, Edit.run_map_of_ok hrun]

/-- No command but an accepted assignment changes the type of a value. -/
theorem typeOf_run (hg : g.WellFormed) (hv : v.index < g.values.size) (c : Command) :
    (c.run g).2.typeOf v = g.typeOf v ∨
      ∃ t, c = .assignType v t ∧ g.requireAssignable v t = .ok () := by
  cases c with
  | internType name =>
    left
    rw [run_snd, edit, Edit.after_map, Edit.after, Edit.run_internType]
    cases g.types.intern name <;> rfl
  | addFunc name types =>
    left
    rw [run_snd, edit, Edit.after_map, Edit.after, Edit.run_addFunc]
    cases types.forM g.requireType with
    | error e => rfl
    | ok _ => exact (typeOf_appendFunc g name types v).trans (if_pos hv)
  | build f options request =>
    left
    rw [run_snd, edit, Edit.after_map]
    exact Edit.typeOf_build hg hv f options request
  | assignType w t =>
    cases ht : g.requireAssignable w t with
    | error e =>
      left
      rw [run_snd, edit_assignType, Edit.after_map, Edit.after, Edit.run_assignType, ht]
    | ok _ =>
      by_cases hw : v = w
      · subst hw
        exact .inr ⟨t, rfl, ht⟩
      · left
        rw [run_assignType_of_ok ht, typeOf_assignType g w t (of_requireAssignable ht).1,
          if_neg hw]
  | replace old new =>
    left
    rw [run_snd, edit, Edit.after_map]
    exact Edit.typeOf_replace hg old new v
  | foldAll options =>
    left
    exact ((folds_foldAll hg options).preserves (P := fun g' => g'.typeOf v = g.typeOf v)
      (fun _ he _ _ _ => (typeOf_fold _ _ _ _ v).trans he) hg rfl).2

end Command

namespace Graph

/-- The graph before command `i` of a script. -/
def before (g : Graph) (script : List Command) (i : Nat) : Graph := g.after (script.take i)

/-- Command `i` of the script changes the type of `v`, a value that exists before it. -/
def Retypes (g : Graph) (script : List Command) (i : Nat) (v : ValueId) : Prop :=
  v.index < (g.before script i).values.size ∧
    (g.before script (i + 1)).typeOf v ≠ (g.before script i).typeOf v

theorem before_succ (hc : script[i]? = some c) :
    g.before script (i + 1) = (c.run (g.before script i)).2 := by
  rw [before, before, List.take_add_one, hc, after, after, List.foldl_append]
  rfl

theorem before_succ_of_none (hc : script[i]? = none) :
    g.before script (i + 1) = g.before script i := by
  have hi := List.getElem?_eq_none_iff.mp hc
  rw [before, before, List.take_of_length_le hi, List.take_of_length_le (Nat.le_succ_of_le hi)]

theorem WellFormed.before (hg : g.WellFormed) (script : List Command) (i : Nat) :
    (g.before script i).WellFormed :=
  hg.after (script.take i)

theorem WellFormed.extends_before (hg : g.WellFormed) (script : List Command) (hij : i ≤ j) :
    Extends (g.before script i) (g.before script j) := by
  induction hij with
  | refl => exact .refl _
  | @step j _ ih =>
    cases hc : script[j]? with
    | none => rwa [before_succ_of_none hc]
    | some c =>
      rw [before_succ hc]
      exact ih.trans ((hg.before script j).extends_run c)

/-- Only an accepted assignment changes a type. -/
theorem Retypes.exists_assignType (hr : g.Retypes script i v) (hg : g.WellFormed) :
    ∃ t, script[i]? = some (.assignType v t) ∧
      (g.before script i).requireAssignable v t = .ok () ∧
      (Command.assignType v t).run (g.before script i) =
        (.ok .done, g.before script (i + 1)) ∧
      (g.before script (i + 1)).typeOf v = t := by
  obtain ⟨hv, hne⟩ := hr
  cases hc : script[i]? with
  | none => exact absurd (by rw [before_succ_of_none hc]) hne
  | some c =>
    rw [before_succ hc] at hne ⊢
    obtain ⟨t, rfl, ht⟩ := (Command.typeOf_run (hg.before script i) hv c).resolve_left hne
    refine ⟨t, rfl, ht, ?_⟩
    rw [Command.run_assignType_of_ok ht]
    exact ⟨rfl, (typeOf_assignType _ v t hv v).trans (if_pos rfl)⟩

/-- Once a value is typed, no later command changes its type. -/
theorem Retypes.le (hi : g.Retypes script i v) (hj : g.Retypes script j v) (hg : g.WellFormed) :
    j ≤ i := by
  by_contra hlt
  obtain ⟨t, -, ht, -, htype⟩ := hi.exists_assignType hg
  obtain ⟨t', -, ht', -⟩ := hj.exists_assignType hg
  obtain ⟨-, -, hknown, -⟩ := of_requireAssignable ht
  obtain ⟨-, huntyped, -⟩ := of_requireAssignable ht'
  have hlater := hg.extends_before script (Nat.lt_of_not_le hlt)
  have hkept := hlater.typeOf_eq (v := v) (by rw [htype]; exact hknown)
  exact hknown (htype.symm.trans (hkept.symm.trans huntyped))

/-- All that a graph names stays as it is, but for what it may become: functions get longer, live
nodes may read other values or die, untyped values may be typed. Over a script, the type of a value
changes at most once, from the undefined to a named one, and only by an accepted assignment of that
type to that value. -/
theorem Reachable.history_append_only (h : g.Reachable) (script : List Command) :
    Extends g (g.after script) ∧
    (∀ (t : TypeId) (k : TypeName), g.types.name? t = some k →
      (g.after script).types.name? t = some k) ∧
    (∀ (i : Nat) (v : ValueId), g.Retypes script i v →
      (g.before script i).typeOf v = .undefined ∧
      ∃ t name, script[i]? = some (.assignType v t) ∧
        ((Command.assignType v t).run (g.before script i)).1 = .ok .done ∧
        (g.before script (i + 1)).typeOf v = t ∧
        (g.before script (i + 1)).types.name? t = some (.named name)) ∧
    ∀ (i j : Nat) (v : ValueId), g.Retypes script i v → g.Retypes script j v → i = j := by
  have hg := h.wellFormed
  have hext := hg.extends_after script
  refine ⟨hext, fun t k hk => TypeTable.name?_of_prefix hext.names hk, fun i v hr => ?_,
    fun i j v hi hj => ?_⟩
  · obtain ⟨t, hc, ht, hrun, htype⟩ := hr.exists_assignType hg
    obtain ⟨-, huntyped, hknown, hcontains⟩ := of_requireAssignable ht
    obtain ⟨name, hname⟩ := TypeTable.exists_named_of_contains hcontains hknown
    refine ⟨huntyped, t, name, hc, by rw [hrun], htype, ?_⟩
    exact TypeTable.name?_of_prefix (hg.extends_before script (Nat.le_succ i)).names hname
  · exact Nat.le_antisymm (hj.le hi hg) (hi.le hj hg)

/-- A cast that was folded away stays as it is, whatever its operand is replaced by, and a second
assignment of a type is refused. -/
theorem history_append_only_of_folded_cast :
    let g := (ofTable { names := ["int"] }).after
      [.addFunc "f" [⟨1⟩, ⟨0⟩], .build ⟨0⟩ {} (.cast ⟨0⟩ ⟨1⟩), .foldAll {}]
    let script : List Command :=
      [.replace ⟨0⟩ ⟨1⟩, .assignType ⟨1⟩ ⟨1⟩, .internType "str", .assignType ⟨1⟩ ⟨2⟩, .foldAll {}]
    (∃ y, (g.after script).nodes[0]? = some y ∧ y.operands = [⟨0⟩] ∧ y.dead = true) ∧
      g.Retypes script 1 ⟨1⟩ ∧ ∀ j, g.Retypes script j ⟨1⟩ → j = 1 := by
  intro g script
  have h : g.Reachable := ⟨_, _, rfl⟩
  obtain ⟨hext, -, -, honce⟩ := h.history_append_only script
  have hn : g.nodes[0]? = some ⟨.cast, [⟨0⟩], ⟨2⟩, ⟨0⟩, true⟩ := rfl
  obtain ⟨y, hy, -, hdead⟩ := hext.node ⟨0⟩ _ hn
  obtain rfl := hdead rfl
  have hr : g.Retypes script 1 ⟨1⟩ := by
    unfold Retypes
    decide
  exact ⟨⟨_, hy, rfl, rfl⟩, hr, fun j hj => honce j 1 ⟨1⟩ hj hr⟩

end Graph

end DeferredIR
