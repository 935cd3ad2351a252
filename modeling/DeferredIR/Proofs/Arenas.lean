import DeferredIR.Proofs.Fold.Rules
import DeferredIR.Proofs.Graph.Live
import DeferredIR.Proofs.Run
import Mathlib.Algebra.GroupWithZero.Nat
import Mathlib.Data.List.Nodup
import Mathlib.Data.Set.Function

/-!
# Arenas

Four references tie the arenas of a graph together: from a value to what defines it, from a node to
its result and to its function, from a function to its nodes. They are written at different times,
and they agree in every graph that commands can make, for live and dead nodes alike. No entry is
ever taken away, so positions count in the order of creation: newer nodes have newer results and
stand later in the list of their function.
-/

namespace DeferredIR.Graph

variable {g g' : Graph} {n : NodeId} {x : Node} {v : ValueId} {f : FuncId} {d : Draft}

/-! ## Nodes in the order of their results -/

/-- Newer nodes have newer results. -/
def CreatedInOrder (g : Graph) : Prop :=
  ∀ (m n : NodeId) (v w : ValueId), g.resultOf? m = some v → g.resultOf? n = some w →
    m.index < n.index → v.index < w.index

theorem CreatedInOrder.of_sameFrame (hc : g.CreatedInOrder) (s : SameFrame g g') :
    g'.CreatedInOrder := by
  intro m n v w hv hw
  rw [s.resultOf?] at hv hw
  exact hc m n v w hv hw

theorem CreatedInOrder.append (hc : g.CreatedInOrder) (h : g.WellFormed) (f : FuncId) (d : Draft) :
    (g.append f d).CreatedInOrder := by
  intro m n v w hv hw hlt
  simp only [resultOf?, getElem?_nodes_append] at hv hw
  have hold : ∀ {k : NodeId} {u : ValueId}, g.nodes[k.index]?.map Node.result = some u →
      k.index < g.nodes.size ∧ u.index < g.values.size := by
    intro k u hu
    obtain ⟨x, hx, rfl⟩ := Option.map_eq_some_iff.mp hu
    exact ⟨(Array.getElem?_eq_some_iff.mp hx).1, h.lt_result hx⟩
  by_cases hm : m = g.nextNode
  · rw [hm, nextNode] at hlt
    by_cases hn : n = g.nextNode
    · rw [hn, nextNode] at hlt
      exact absurd hlt (Nat.lt_irrefl _)
    · rw [if_neg hn] at hw
      exact absurd (hold hw).1 (Nat.not_lt.mpr (Nat.le_of_lt hlt))
  · rw [if_neg hm] at hv
    by_cases hn : n = g.nextNode
    · rw [if_pos hn] at hw
      obtain rfl := Option.some.inj hw
      exact (hold hv).2
    · rw [if_neg hn] at hw
      exact hc m n v w hv hw hlt

theorem CreatedInOrder.step {R : ValueId → ValueId → Prop} (hc : g.CreatedInOrder)
    (h : g.WellFormed) (hs : Step R g g') : g'.CreatedInOrder := by
  cases hs with
  | intern _ => exact hc
  | appendFunc _ => exact hc
  | append _ => exact hc.append h _ _
  | assignType _ => exact hc.of_sameFrame (sameFrame_assignType ..)
  | redirect _ _ _ => exact hc.of_sameFrame (sameFrame_redirect ..)
  | retire _ _ _ => exact hc.of_sameFrame (sameFrame_retire ..)

theorem Reachable.createdInOrder (h : g.Reachable) : g.CreatedInOrder := by
  refine h.induction (fun table => ?_) (fun hwf hc hs => hc.step hwf hs)
    fun _ hc _ _ _ => hc.of_sameFrame (sameFrame_fold ..)
  intro m n v w hv
  simp [resultOf?, ofTable] at hv

/-! ## The nodes of a function -/

/-- The nodes that `f` lists; a function that does not exist lists none. -/
def bodyOf (g : Graph) (f : FuncId) : List NodeId :=
  (g.functions[f.index]?.map Func.body).getD []

theorem bodyOf_of_func {func : Func} (hf : g.functions[f.index]? = some func) :
    g.bodyOf f = func.body := by
  simp [bodyOf, hf]

theorem bodyOf_append (g : Graph) (hf : f.index < g.functions.size) (d : Draft) (f' : FuncId) :
    (g.append f d).bodyOf f' = g.bodyOf f' ++ if f' = f then [g.nextNode] else [] := by
  obtain ⟨i⟩ := f
  obtain ⟨j⟩ := f'
  simp only [bodyOf, append, Array.getElem?_modify, FuncId.mk.injEq, eq_comm (a := j)]
  split
  · subst j
    simp [Array.getElem?_eq_getElem hf]
  · simp

theorem bodyOf_appendFunc (g : Graph) (name : String) (types : List TypeId) (f : FuncId) :
    (g.appendFunc name types).bodyOf f = g.bodyOf f := by
  simp only [bodyOf, appendFunc, Array.getElem?_push]
  split
  · simp [*]
  · rfl

/-- Each function lists its own nodes, from the oldest to the newest. -/
structure ListsNodes (g : Graph) : Prop where
  mem_bodyOf_iff : ∀ {f : FuncId} {n : NodeId},
    n ∈ g.bodyOf f ↔ g.nodes[n.index]?.map Node.func = some f
  pairwise_bodyOf : ∀ f, (g.bodyOf f).Pairwise fun m n => m.index < n.index

namespace ListsNodes

theorem of_sameFrame (hl : g.ListsNodes) (s : SameFrame g g') : g'.ListsNodes where
  mem_bodyOf_iff := by
    intro f n
    rw [bodyOf, s.functions]
    have hfunc : g'.nodes[n.index]?.map Node.func = g.nodes[n.index]?.map Node.func :=
      s.map_node (fun p => p.2.2.1) n
    rw [hfunc]
    exact hl.mem_bodyOf_iff
  pairwise_bodyOf f := by
    rw [bodyOf, s.functions]
    exact hl.pairwise_bodyOf f

theorem lt_of_mem (hl : g.ListsNodes) (hn : n ∈ g.bodyOf f) : n.index < g.nodes.size := by
  obtain ⟨x, hx, -⟩ := Option.map_eq_some_iff.mp (hl.mem_bodyOf_iff.mp hn)
  exact (Array.getElem?_eq_some_iff.mp hx).1

theorem append (hl : g.ListsNodes) (hf : f.index < g.functions.size) (d : Draft) :
    (g.append f d).ListsNodes where
  mem_bodyOf_iff := by
    intro f' n
    rw [bodyOf_append g hf, getElem?_nodes_append, List.mem_append, hl.mem_bodyOf_iff]
    by_cases hn : n = g.nextNode
    · subst hn
      have hnew : g.nodes[g.nextNode.index]? = none := by simp [nextNode]
      by_cases hf' : f' = f
      · simp [hf']
      · simp [hnew, hf', Ne.symm hf']
    · rw [if_neg hn]
      split <;> simp [hn]
  pairwise_bodyOf f' := by
    rw [bodyOf_append g hf, List.pairwise_append]
    refine ⟨hl.pairwise_bodyOf f', by split <;> simp, fun m hm n hn => ?_⟩
    split at hn
    · obtain rfl := List.mem_singleton.mp hn
      exact hl.lt_of_mem hm
    · exact absurd hn List.not_mem_nil

theorem appendFunc (hl : g.ListsNodes) (name : String) (types : List TypeId) :
    (g.appendFunc name types).ListsNodes where
  mem_bodyOf_iff := by
    intro f n
    rw [bodyOf_appendFunc]
    exact hl.mem_bodyOf_iff
  pairwise_bodyOf f := by
    rw [bodyOf_appendFunc]
    exact hl.pairwise_bodyOf f

theorem step {R : ValueId → ValueId → Prop} (hl : g.ListsNodes) (hs : Step R g g') :
    g'.ListsNodes := by
  cases hs with
  | intern _ => exact ⟨hl.mem_bodyOf_iff, hl.pairwise_bodyOf⟩
  | appendFunc _ => exact hl.appendFunc _ _
  | append hd =>
    obtain ⟨hf, -⟩ := of_requireDraft hd
    exact hl.append hf _
  | assignType _ => exact hl.of_sameFrame (sameFrame_assignType ..)
  | redirect _ _ _ => exact hl.of_sameFrame (sameFrame_redirect ..)
  | retire _ _ _ => exact hl.of_sameFrame (sameFrame_retire ..)

end ListsNodes

theorem Reachable.listsNodes (h : g.Reachable) : g.ListsNodes := by
  refine h.induction (fun table => ?_) (fun _ hl hs => hl.step hs)
    fun _ hl _ _ _ => hl.of_sameFrame (sameFrame_fold ..)
  constructor <;> simp [bodyOf, ofTable]

/-! ## The number of values -/

/-- The number of formal arguments of all functions. -/
def formalCount (g : Graph) : Nat := (g.functions.toList.map fun func => func.formals.length).sum

theorem formalCount_append (g : Graph) (f : FuncId) (d : Draft) :
    (g.append f d).formalCount = g.formalCount := by
  have hmap : (g.append f d).functions.toList.map (fun func => func.formals.length) =
      g.functions.toList.map fun func => func.formals.length := by
    apply List.ext_getElem?
    intro i
    simp only [append, List.getElem?_map, Array.getElem?_toList, Array.getElem?_modify]
    split
    · simp [Function.comp_def]
    · rfl
  rw [formalCount, hmap, formalCount]

theorem formalCount_appendFunc (g : Graph) (name : String) (types : List TypeId) :
    (g.appendFunc name types).formalCount = g.formalCount + types.length := by
  simp [formalCount, appendFunc]

theorem size_recordUses (n : NodeId) (operands : List ValueId) (values : Array Value) :
    (recordUses n operands values).size = values.size := by
  unfold recordUses
  induction operands.zipIdx generalizing values with
  | nil => rfl
  | cons p slots ih => rw [List.foldl_cons, ih, Array.size_modify]

/-- Every value is the result of a node or a formal argument. -/
def CountsValues (g : Graph) : Prop := g.values.size = g.nodes.size + g.formalCount

theorem CountsValues.of_sameFrame (hc : g.CountsValues) (s : SameFrame g g') :
    g'.CountsValues := by
  rw [CountsValues, s.size_values, s.size_nodes, formalCount, s.functions]
  exact hc

theorem CountsValues.step {R : ValueId → ValueId → Prop} (hc : g.CountsValues)
    (hs : Step R g g') : g'.CountsValues := by
  cases hs with
  | intern _ => exact hc
  | @appendFunc name types _ =>
    rw [CountsValues] at hc ⊢
    rw [formalCount_appendFunc]
    simp only [appendFunc, Array.size_append, List.size_toArray, List.length_mapIdx]
    omega
  | @append f d _ =>
    rw [CountsValues] at hc ⊢
    rw [formalCount_append]
    simp only [append, size_recordUses, Array.size_push]
    omega
  | assignType _ => exact hc.of_sameFrame (sameFrame_assignType ..)
  | redirect _ _ _ => exact hc.of_sameFrame (sameFrame_redirect ..)
  | retire _ _ _ => exact hc.of_sameFrame (sameFrame_retire ..)

theorem Reachable.countsValues (h : g.Reachable) : g.CountsValues :=
  h.induction (fun _ => rfl) (fun _ hc hs => hc.step hs)
    fun _ hc _ _ _ => hc.of_sameFrame (sameFrame_fold ..)

/-! ## The arenas agree -/

/-- What may define a value: a node, dead or not, or a formal argument. -/
inductive Defines (g : Graph) : Origin → Prop where
  | result {n : NodeId} {x : Node} (node_eq : g.nodes[n.index]? = some x) :
      Defines g (.result n)
  | formal {f : FuncId} {i : Nat} {v : ValueId} (formal_eq : g.formalAt? f i = some v) :
      Defines g (.formal f i)

/-- Nothing defines two values, and everything that may define one does. -/
theorem Coherent.bijOn_origin? (h : g.Coherent) :
    Set.BijOn g.origin? {v | v.index < g.values.size} (some '' {o | g.Defines o}) := by
  refine ⟨fun v hv => ?_, fun v hv w _ hvw => ?_, ?_⟩
  · have ho := origin?_of_value (Array.getElem?_eq_getElem hv)
    refine ⟨_, ?_, ho.symm⟩
    generalize g.values[v.index].origin = o at ho
    cases o with
    | result n =>
      obtain ⟨x, hx, -⟩ := h.exists_node ho
      exact .result hx
    | formal f i => exact .formal (h.formal_iff.mp ho)
  · have ho := origin?_of_value (Array.getElem?_eq_getElem hv)
    have ho' := hvw.symm.trans ho
    generalize g.values[v.index].origin = o at ho ho'
    cases o with
    | result n => exact Option.some.inj ((h.result_iff.mp ho).symm.trans (h.result_iff.mp ho'))
    | formal f i => exact Option.some.inj ((h.formal_iff.mp ho).symm.trans (h.formal_iff.mp ho'))
  · rintro _ ⟨o, ho, rfl⟩
    cases ho with
    | @result n x hx =>
      have hr := h.origin?_result hx
      exact ⟨x.result, lt_of_origin? hr, hr⟩
    | @formal f i v hv =>
      have hf := h.formal_iff.mpr hv
      exact ⟨v, lt_of_origin? hf, hf⟩

theorem formalAt?_eq_some_iff {i : Nat} :
    g.formalAt? f i = some v ↔ ∃ func, g.functions[f.index]? = some func ∧
      func.formals[i]? = some v :=
  Option.bind_eq_some_iff

theorem ListsNodes.pairwise_body (hl : g.ListsNodes) {func : Func}
    (hf : g.functions[f.index]? = some func) :
    func.body.Pairwise fun m n => m.index < n.index :=
  bodyOf_of_func hf ▸ hl.pairwise_bodyOf f

theorem ListsNodes.mem_body_iff (hl : g.ListsNodes) {func : Func}
    (hf : g.functions[f.index]? = some func) :
    n ∈ func.body ↔ ∃ x, g.nodes[n.index]? = some x ∧ x.func = f := by
  rw [← bodyOf_of_func hf, hl.mem_bodyOf_iff, Option.map_eq_some_iff]

theorem ListsNodes.count_body (hl : g.ListsNodes) {func : Func}
    (hx : g.nodes[n.index]? = some x) (hf : g.functions[x.func.index]? = some func) :
    func.body.count n = 1 :=
  List.count_eq_one_of_mem (nodup_of_pairwise (hl.pairwise_body hf))
    ((hl.mem_body_iff hf).mpr ⟨x, hx, rfl⟩)

theorem exists_funcId_of_mem {func : Func} (hf : func ∈ g.functions.toList) :
    ∃ f : FuncId, g.functions[f.index]? = some func := by
  obtain ⟨i, hi⟩ := List.mem_iff_getElem?.mp hf
  exact ⟨⟨i⟩, by simpa using hi⟩

theorem ListsNodes.exists_node_of_mem (hl : g.ListsNodes) {func : Func}
    (hf : func ∈ g.functions.toList) (hn : n ∈ func.body) : ∃ x, g.nodes[n.index]? = some x := by
  obtain ⟨f, hf⟩ := exists_funcId_of_mem hf
  obtain ⟨x, hx, -⟩ := (hl.mem_body_iff hf).mp hn
  exact ⟨x, hx⟩

/-- The functions together list every node once. -/
theorem ListsNodes.perm_bodies (hl : g.ListsNodes) (h : g.WellFormed) :
    (g.functions.toList.flatMap Func.body).Perm (g.nodeEntries.map Prod.fst) := by
  apply (List.perm_ext_iff_of_nodup ?_ ?_).mpr
  · intro n
    rw [List.mem_flatMap, List.mem_map]
    constructor
    · rintro ⟨f, hf, hn⟩
      obtain ⟨x, hx⟩ := hl.exists_node_of_mem hf hn
      exact ⟨(n, x), mem_nodeEntries.mpr hx, rfl⟩
    · rintro ⟨⟨n, x⟩, hx, rfl⟩
      have hx := mem_nodeEntries.mp hx
      have hf := Array.getElem?_eq_getElem (h.func_lt hx)
      exact ⟨_, Array.getElem_mem_toList (h.func_lt hx), (hl.mem_body_iff hf).mpr ⟨x, hx, rfl⟩⟩
  · rw [List.nodup_flatMap, List.pairwise_iff_getElem]
    constructor
    · intro f hf
      obtain ⟨i, hi⟩ := exists_funcId_of_mem hf
      exact nodup_of_pairwise (hl.pairwise_body hi)
    · -- A node listed by two functions would belong to both.
      intro i j hi hj hij n hn hn'
      have hget {i : Nat} (hi : i < g.functions.toList.length) :
          g.functions[i]? = some g.functions.toList[i] := by
        rw [← Array.getElem?_toList, List.getElem?_eq_getElem hi]
      obtain ⟨x, hx, hfunc⟩ := (hl.mem_body_iff (f := ⟨i⟩) (hget hi)).mp hn
      obtain ⟨y, hy, hfunc'⟩ := (hl.mem_body_iff (f := ⟨j⟩) (hget hj)).mp hn'
      cases hx.symm.trans hy
      exact Nat.ne_of_lt hij (congrArg FuncId.index (hfunc.symm.trans hfunc'))
  · rw [map_fst_nodeEntries]
    exact nodup_of_pairwise (List.pairwise_map.mpr List.pairwise_lt_range)

/-- Values are in bijection with nodes and formal arguments: a value is defined by a node exactly if
it is its result, and as a formal argument exactly if it is that argument. So there are as many
values as nodes and formal arguments together. Newer nodes have newer results. Each node is listed
once, in the function it belongs to, and each function lists its nodes from the oldest to the
newest. -/
theorem Reachable.arenas_agree (h : g.Reachable) :
    Set.BijOn g.origin? {v | v.index < g.values.size} (some '' {o | g.Defines o}) ∧
    (∀ (v : ValueId) (n : NodeId), g.origin? v = some (.result n) ↔
      ∃ x, g.nodes[n.index]? = some x ∧ x.result = v) ∧
    (∀ (v : ValueId) (f : FuncId) (i : Nat), g.origin? v = some (.formal f i) ↔
      ∃ func, g.functions[f.index]? = some func ∧ func.formals[i]? = some v) ∧
    g.values.size =
      g.nodes.size + (g.functions.toList.map fun func => func.formals.length).sum ∧
    (∀ (m n : NodeId) (x y : Node), g.nodes[m.index]? = some x → g.nodes[n.index]? = some y →
      m.index < n.index → x.result.index < y.result.index) ∧
    (∀ (n : NodeId) (x : Node), g.nodes[n.index]? = some x →
      (∃ func, g.functions[x.func.index]? = some func ∧ func.body.count n = 1) ∧
      ∀ (f : FuncId) (func : Func), g.functions[f.index]? = some func → f ≠ x.func →
        n ∉ func.body) ∧
    ∀ (f : FuncId) (func : Func), g.functions[f.index]? = some func →
      (func.body.Pairwise fun m n => m.index < n.index) ∧
      ∀ n ∈ func.body, ∃ x, g.nodes[n.index]? = some x := by
  have hwf := h.wellFormed
  have hl := h.listsNodes
  refine ⟨hwf.bijOn_origin?, fun v n => ?_, fun v f i => ?_, h.countsValues, ?_, ?_, ?_⟩
  · exact hwf.result_iff.trans Option.map_eq_some_iff
  · exact hwf.formal_iff.trans formalAt?_eq_some_iff
  · intro m n x y hx hy hlt
    exact h.createdInOrder m n _ _ (by simp [resultOf?, hx]) (by simp [resultOf?, hy]) hlt
  · intro n x hx
    have hf := Array.getElem?_eq_getElem (hwf.func_lt hx)
    refine ⟨⟨_, hf, hl.count_body hx hf⟩, fun f func hf hne hn => ?_⟩
    obtain ⟨y, hy, rfl⟩ := (hl.mem_body_iff hf).mp hn
    exact hne (congrArg Node.func (Option.some.inj (hy.symm.trans hx)))
  · intro f func hf
    refine ⟨hl.pairwise_body hf, fun n hn => ?_⟩
    obtain ⟨x, hx, -⟩ := (hl.mem_body_iff hf).mp hn
    exact ⟨x, hx⟩

/-- Two functions whose nodes alternate, one of them folded as it was built. -/
theorem arenas_agree_of_two_functions :
    let g := (ofTable { names := ["int"] }).after
      [.addFunc "f" [⟨1⟩], .build ⟨0⟩ {} (.iter ⟨0⟩), .addFunc "g" [⟨1⟩],
        .build ⟨1⟩ { onBuild := true } (.cast ⟨2⟩ ⟨1⟩), .build ⟨0⟩ {} (.next ⟨1⟩)]
    g.values.size = g.nodes.size + 2 ∧ (⟨4⟩ : ValueId).index > (⟨3⟩ : ValueId).index ∧
      (∃ func, g.functions[1]? = some func ∧ func.body.count ⟨1⟩ = 1) ∧
      ∀ func, g.functions[0]? = some func → (⟨1⟩ : NodeId) ∉ func.body := by
  intro g
  have h : g.Reachable := ⟨_, _, rfl⟩
  obtain ⟨-, -, -, hsize, horder, hlisted, -⟩ := h.arenas_agree
  have hcast : g.nodes[1]? = some ⟨.cast, [⟨2⟩], ⟨3⟩, ⟨1⟩, true⟩ := rfl
  have hnext : g.nodes[2]? = some ⟨.next, [⟨1⟩], ⟨4⟩, ⟨0⟩, false⟩ := rfl
  obtain ⟨honce, hother⟩ := hlisted ⟨1⟩ _ hcast
  exact ⟨hsize, horder ⟨1⟩ ⟨2⟩ _ _ hcast hnext (by decide), honce,
    fun func hf => hother ⟨0⟩ func hf (by decide)⟩

end DeferredIR.Graph
