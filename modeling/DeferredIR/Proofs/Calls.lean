import DeferredIR.Proofs.History
import DeferredIR.Proofs.Substitution

/-!
# Calls

A call keeps its operands in one list, and the parts of the call are cut out of it by the number of
its keywords. No change of a graph gives a node other operands in number, or other keywords, so the
cut stays where it was when the call was built, whatever values come to stand in the slots. A call
whose arguments are listed together is the call of the parts of the list.
-/

namespace DeferredIR

open DeferredIR.Graph Check

/-! ## Layouts -/

/-- The parts of a call are determined by its operands and its keywords. -/
theorem CallLayout.eq_of_operands_eq {l l' : CallLayout} (ho : l.operands = l'.operands)
    (hk : l.keywords = l'.keywords) : l = l' := by
  obtain ⟨callee, positional, keyword⟩ := l
  obtain ⟨callee', positional', keyword'⟩ := l'
  simp only [operands, keywords] at ho hk
  obtain ⟨rfl, hrest⟩ := List.cons.inj ho
  have hlength : (keyword.map Prod.snd).length = (keyword'.map Prod.snd).length := by
    simpa using congrArg List.length hk
  obtain ⟨rfl, hvalues⟩ := List.append_inj' hrest hlength
  have hkeyword : keyword = keyword' :=
    (List.zip_of_prod hk hvalues).trans (List.zip_of_prod rfl rfl).symm
  rw [hkeyword]

theorem CallLayout.length_operands (l : CallLayout) :
    l.operands.length = 1 + l.positional.length + l.keywords.length := by
  simp only [operands, keywords, List.length_cons, List.length_append, List.length_map]
  omega

namespace Node

variable {x : Node} {keywords : List String} {count : Nat}

theorem keywordStart_of_call (hk : x.opcode = .call keywords)
    (hl : x.operands.length = 1 + count + keywords.length) :
    x.keywordStart = .ok (some (1 + count)) := by
  unfold keywordStart
  rw [hk]
  dsimp only
  rw [hl, if_pos (Nat.le_add_left _ _), Nat.add_sub_cancel]

/-- A call with enough operands has a layout, which names all its operands in their order. -/
theorem callLayout_of_call (hk : x.opcode = .call keywords)
    (hl : x.operands.length = 1 + count + keywords.length) :
    ∃ l, x.callLayout = .ok (some l) ∧ l.keywords = keywords ∧ l.positional.length = count ∧
      l.operands = x.operands := by
  unfold callLayout
  rw [hk]
  dsimp only
  cases hops : x.operands with
  | nil =>
    rw [hops, List.length_nil] at hl
    omega
  | cons callee arguments =>
    rw [hops, List.length_cons] at hl
    have hcount : arguments.length - keywords.length = count := by omega
    have hdrop : (arguments.drop count).length = keywords.length := by
      rw [List.length_drop]
      omega
    dsimp only
    rw [if_pos (by omega), hcount]
    refine ⟨_, rfl, ?_, ?_, ?_⟩
    · exact List.map_fst_zip hdrop.ge
    · rw [List.length_take]
      omega
    · show callee :: arguments.take count ++ (keywords.zip (arguments.drop count)).map Prod.snd = _
      rw [List.map_snd_zip hdrop.le, List.cons_append, List.take_append_drop]

/-- A call that reads the operands of a layout, under its keywords, has this layout. -/
theorem callLayout_of_operands {l : CallLayout} (hk : x.opcode = .call l.keywords)
    (ho : x.operands = l.operands) : x.callLayout = .ok (some l) := by
  obtain ⟨l', hl', hkeywords, -, hoperands⟩ :=
    callLayout_of_call hk (ho ▸ l.length_operands)
  rw [hl', CallLayout.eq_of_operands_eq (hoperands.trans ho) hkeywords]

end Node

/-! ## Calls of listed arguments -/

theorem Edit.build_congr {r r' : Request} (h : r.draft = r'.draft) (f : FuncId)
    (options : FoldOptions) : build f options r = build f options r' := by
  unfold build
  rw [h]

namespace Request

variable {callee : ValueId} {arguments : List ValueId} {start : Nat} {keywords : List String}

/-- Listed arguments have a place for the callee, which comes first, and may all go by position. -/
theorem draft_callFlat_eq_keywordStart {s k : Nat} :
    (callFlat callee arguments start keywords).draft = .error (.keywordStart s k) ↔
      (start = 0 ∨ arguments.length + 1 < start) ∧ s = start ∧ k = arguments.length + 1 := by
  simp only [draft]
  split
  · simp [*, eq_comm]
  · split <;> simp [*]

theorem draft_callFlat_eq_keywordCount {s k : Nat} :
    (callFlat callee arguments start keywords).draft = .error (.keywordCount s k) ↔
      ¬ (start = 0 ∨ arguments.length + 1 < start) ∧
        arguments.length + 1 - start ≠ keywords.length ∧ s = keywords.length ∧
          k = arguments.length + 1 - start := by
  simp only [draft]
  split
  · simp [*]
  · split
    · constructor
      · rintro ⟨⟩
        exact ⟨‹_›, ‹_›, rfl, rfl⟩
      · rintro ⟨-, -, rfl, rfl⟩
        rfl
    · simp [*]

/-- The arguments before `start` are passed by position, the others by the keywords. -/
theorem draft_callFlat (h : ¬ (start = 0 ∨ arguments.length + 1 < start))
    (heq : arguments.length + 1 - start = keywords.length) :
    (callFlat callee arguments start keywords).draft =
      (call ⟨callee, arguments.take (start - 1),
        keywords.zip (arguments.drop (start - 1))⟩).draft := by
  have hdrop : (arguments.drop (start - 1)).length = keywords.length := by
    rw [List.length_drop]
    omega
  have hflat : (callFlat callee arguments start keywords).draft =
      .ok { opcode := .call keywords, operands := callee :: arguments } :=
    (if_neg h).trans (if_neg (not_not_intro heq))
  rw [hflat]
  simp only [draft, CallLayout.keywords, CallLayout.operands, List.map_fst_zip hdrop.ge,
    List.map_snd_zip hdrop.le, List.cons_append, List.take_append_drop]

end Request

/-! ## Refusals -/

/-- The error says that the parts of a call of listed arguments do not fit together. -/
def Error.OfPacking : Error → Prop
  | .edit (.keywordStart ..) | .edit (.keywordCount ..) => True
  | _ => False

theorem Opcode.not_ofPacking_of_check {k : Opcode} {count : Nat} {e : EditError}
    (h : k.check count = .error e) : ¬ (Error.edit e).OfPacking := by
  have hkeywords : ∀ {names seen : List String}, checkKeywords seen names = .error e →
      ¬ (Error.edit e).OfPacking := by
    intro names
    induction names with
    | nil => exact nofun
    | cons name names ih =>
      intro seen hnames
      unfold checkKeywords at hnames
      split at hnames
      · cases hnames
        exact not_false
      · split at hnames
        · cases hnames
          exact not_false
        · exact ih hnames
  unfold check at h
  split at h
  · split at h
    · exact hkeywords h
    · cases h
  · cases h
    exact not_false

namespace Graph

variable {g g' : Graph} {f : FuncId} {d : Draft} {v : ValueId} {e : Error} {x : Node}
variable {options : FoldOptions} {l : CallLayout} {n : NodeId}

theorem Coherent.not_ofPacking_of_requireReadable (h : g.Coherent)
    (he : g.requireReadable f v = .error e) : ¬ e.OfPacking := by
  by_cases hv : v.index < g.values.size
  case neg =>
    rw [requireReadable, requireValue, if_neg hv] at he
    cases he
    exact not_false
  by_cases hfolded : g.Folded v
  · rw [requireReadable_of_folded hfolded] at he
    cases he
    exact not_false
  · obtain ⟨owner, ho⟩ := h.exists_owner? hv
    rw [h.requireReadable_eq ⟨hv, hfolded⟩ ho] at he
    split at he
    · cases he
    · cases he
      exact not_false

/-- The checks of a draft do not look at how a call was packed. -/
theorem Coherent.not_ofPacking_of_requireDraft (h : g.Coherent)
    (he : g.requireDraft f d = .error e) : ¬ e.OfPacking := by
  unfold requireDraft at he
  rcases bind_eq_error.mp he with he | ⟨_, -, he⟩
  · unfold requireFunc at he
    split at he <;> cases he
    exact not_false
  rcases bind_eq_error.mp he with he | ⟨_, -, he⟩
  · unfold requireType at he
    split at he <;> cases he
    exact not_false
  rcases bind_eq_error.mp he with he | ⟨_, -, he⟩
  · obtain ⟨v, -, hv⟩ := forM_eq_error he
    exact h.not_ofPacking_of_requireReadable hv
  · cases hc : d.opcode.check d.operands.length with
    | ok _ => simp [hc, Except.mapError] at he
    | error e' =>
      rw [hc] at he
      cases he
      exact Opcode.not_ofPacking_of_check hc

/-- That a call was not packed well is found before its draft is looked at. -/
theorem WellFormed.run_build_eq_ofPacking (h : g.WellFormed) (hf : f.index < g.functions.size)
    (options : FoldOptions) (r : Request) {e : EditError} (he : (Error.edit e).OfPacking) :
    (Edit.build f options r).run g = .error (.edit e) g' ↔ r.draft = .error e ∧ g' = g := by
  have hfunc : g.requireFunc f = .ok () := if_pos hf
  constructor
  · intro hrun
    have hb := Edit.built_run_build h f options r
    rw [hrun] at hb
    cases hb with
    | noFunc hrefused => cases hfunc.symm.trans hrefused
    | noDraft hrefused => exact ⟨hrefused, rfl⟩
    | unfit hrefused => exact absurd he (h.not_ofPacking_of_requireDraft hrefused)
  · rintro ⟨hrefused, rfl⟩
    rw [Edit.run_build h, hfunc, hrefused]

/-! ## Building calls -/

theorem localReplacement?_of_call {keywords : List String} (hn : g.nodes[n.index]? = some x)
    (hk : x.opcode = .call keywords) : g.localReplacement? options n = .ok none := by
  unfold localReplacement?
  rw [node_eq_ok.mpr hn, ok_bind, hk]
  rfl

/-- A call that is accepted stays, for calls do not fold. -/
theorem WellFormed.of_run_build_call (h : g.WellFormed)
    (hrun : (Edit.build f options (.call l)).run g = .ok v g') :
    v = g.nextValue ∧ g' = g.append f { opcode := .call l.keywords, operands := l.operands } := by
  obtain ⟨d, hd, hkept | ⟨hfolds, -⟩⟩ := Edit.of_run_build h hrun
  · cases draft_of_draftFor hd
    exact hkept
  · cases draft_of_draftFor hd
    have hn := getElem?_nodes_append_nextNode g f
      { opcode := .call l.keywords, operands := l.operands }
    rw [localReplacement?_of_call hn rfl] at hfolds
    cases hfolds

/-- A node with the operands and keywords of a layout has the same keywords, and as many operands in
each part, after every script. -/
theorem WellFormed.callLayout_after (h : g.WellFormed) (hx : g.nodes[n.index]? = some x)
    (hk : x.opcode = .call l.keywords) (ho : x.operands = l.operands) (script : List Command) :
    ∃ y l', (g.after script).nodes[n.index]? = some y ∧ y.callLayout = .ok (some l') ∧
      l'.keywords = l.keywords ∧ l'.positional.length = l.positional.length ∧
      l'.operands = y.operands := by
  obtain ⟨y, hy, hframe, -⟩ := (h.extends_after script).node n x hx
  obtain ⟨hopcode, -, -, hlength⟩ := Node.frame_eq_iff.mp hframe
  obtain ⟨l', hl'⟩ := Node.callLayout_of_call (hopcode.trans hk)
    (hlength.trans (ho ▸ l.length_operands))
  exact ⟨y, l', hy, hl'⟩

/-- A call that is accepted reads its callee, then what is passed by position, then what is passed
by name, and is cut into the same parts again. After every script it has the same keywords and as
many operands in each part, dead or live. A call of listed arguments is refused if the list does not
have the place where the keywords start, or not one value for each keyword after it; else it ends as
the call of its parts does. -/
theorem Reachable.call_parts_kept (h : g.Reachable) (f : FuncId) (options : FoldOptions) :
    (∀ l v g', (Edit.build f options (.call l)).run g = .ok v g' →
      ∃ x, g'.nodes[g.nextNode.index]? = some x ∧ x.result = v ∧
        x.operands = l.callee :: l.positional ++ l.keyword.map Prod.snd ∧
        x.keywordStart = .ok (some (1 + l.positional.length)) ∧
        x.callLayout = .ok (some l) ∧
        ∀ script, ∃ y l', (g'.after script).nodes[g.nextNode.index]? = some y ∧
          y.callLayout = .ok (some l') ∧ l'.keywords = l.keywords ∧
          l'.positional.length = l.positional.length ∧ l'.operands = y.operands) ∧
    ∀ (callee : ValueId) (arguments : List ValueId) (start : Nat) (keywords : List String),
      let r := (Edit.build f options (.callFlat callee arguments start keywords)).run g
      let count := arguments.length + 1
      (f.index < g.functions.size →
        (∀ s k g', r = .error (.edit (.keywordStart s k)) g' ↔
          (start = 0 ∨ count < start) ∧ s = start ∧ k = count ∧ g' = g) ∧
        (∀ s k g', r = .error (.edit (.keywordCount s k)) g' ↔
          ¬ (start = 0 ∨ count < start) ∧ count - start ≠ keywords.length ∧
            s = keywords.length ∧ k = count - start ∧ g' = g)) ∧
      (¬ (start = 0 ∨ count < start) → count - start = keywords.length →
        r = (Edit.build f options (.call ⟨callee, arguments.take (start - 1),
          keywords.zip (arguments.drop (start - 1))⟩)).run g) := by
  have hwf := h.wellFormed
  refine ⟨fun l v g' hrun => ?_, fun callee arguments start keywords => ?_⟩
  · have hwf' : g'.WellFormed := by
      have hafter := (Command.build f options (.call l)).run_wellFormed hwf
      rwa [Command.run, Command.edit, Edit.run_map_of_ok hrun] at hafter
    obtain ⟨rfl, rfl⟩ := hwf.of_run_build_call hrun
    have hx := getElem?_nodes_append_nextNode g f
      { opcode := .call l.keywords, operands := l.operands }
    exact ⟨_, hx, rfl, rfl, Node.keywordStart_of_call rfl l.length_operands,
      Node.callLayout_of_operands rfl rfl, hwf'.callLayout_after hx rfl rfl⟩
  · intro r count
    refine ⟨fun hf => ⟨fun s k g' => ?_, fun s k g' => ?_⟩, fun hstart hcount => ?_⟩
    · rw [hwf.run_build_eq_ofPacking (e := .keywordStart s k) hf options _ trivial,
        Request.draft_callFlat_eq_keywordStart]
      simp only [and_assoc, count]
    · rw [hwf.run_build_eq_ofPacking (e := .keywordCount s k) hf options _ trivial,
        Request.draft_callFlat_eq_keywordCount]
      simp only [and_assoc, count, ne_eq]
    · exact congrArg (EStateM.run · g)
        (Edit.build_congr (Request.draft_callFlat hstart hcount) f options)

/-- A call of one value by position and one by name, given both ways, whose operands are then
replaced by one value. -/
theorem call_parts_kept_of_replaced :
    let g := (ofTable {}).after [.addFunc "f" [⟨0⟩, ⟨0⟩, ⟨0⟩]]
    let script : List Command := [.replace ⟨1⟩ ⟨0⟩, .replace ⟨2⟩ ⟨0⟩, .foldAll {}]
    let l : CallLayout := ⟨⟨0⟩, [⟨1⟩], [("k", ⟨2⟩)]⟩
    (∃ v g', (Edit.build ⟨0⟩ {} (.call l)).run g = .ok v g' ∧
      (∃ x, g'.nodes[0]? = some x ∧ x.callLayout = .ok (some l)) ∧
      ∃ y l', (g'.after script).nodes[0]? = some y ∧ y.callLayout = .ok (some l') ∧
        l'.keywords = ["k"] ∧ l'.operands = y.operands ∧ y.operands = [⟨0⟩, ⟨0⟩, ⟨0⟩]) ∧
    (Edit.build ⟨0⟩ {} (.callFlat ⟨0⟩ [⟨1⟩, ⟨2⟩] 2 ["k"])).run g =
      (Edit.build ⟨0⟩ {} (.call l)).run g ∧
    (Edit.build ⟨0⟩ {} (.callFlat ⟨0⟩ [⟨1⟩, ⟨2⟩] 4 ["k"])).run g =
      .error (.edit (.keywordStart 4 3)) g := by
  intro g script l
  have h : g.Reachable := ⟨_, _, rfl⟩
  have hindex : g.nextNode.index = 0 := rfl
  have hf : g.functions.size = 1 := rfl
  let g' := g.append ⟨0⟩ { opcode := .call ["k"], operands := [⟨0⟩, ⟨1⟩, ⟨2⟩] }
  have hrun : (Edit.build ⟨0⟩ {} (.call l)).run g = .ok ⟨3⟩ g' := rfl
  have hnode : (g'.after script).nodes[0]? =
      some ⟨.call ["k"], [⟨0⟩, ⟨0⟩, ⟨0⟩], ⟨3⟩, ⟨0⟩, false⟩ := by
    unfold g' script g
    rfl
  clear_value g' g
  obtain ⟨hcall, hflat⟩ := h.call_parts_kept ⟨0⟩ {}
  obtain ⟨x, hx, -, -, -, hl, hlater⟩ := hcall l ⟨3⟩ g' hrun
  obtain ⟨y, l', hy, hl', hkeywords, -, hoperands⟩ := hlater script
  rw [hindex] at hx hy
  have hreplaced : y.operands = [⟨0⟩, ⟨0⟩, ⟨0⟩] := by
    rw [← Option.some.inj (hnode.symm.trans hy)]
  obtain ⟨-, hsame⟩ := hflat ⟨0⟩ [⟨1⟩, ⟨2⟩] 2 ["k"]
  obtain ⟨hrefused, -⟩ := hflat ⟨0⟩ [⟨1⟩, ⟨2⟩] 4 ["k"]
  refine ⟨⟨⟨3⟩, g', hrun, ⟨x, hx, hl⟩, y, l', hy, hl', hkeywords, hoperands, hreplaced⟩, ?_, ?_⟩
  · exact hsame (by decide) rfl
  · exact ((hrefused (hf ▸ Nat.one_pos)).1 4 3 g).mpr ⟨.inr (by decide), rfl, rfl, rfl⟩

end Graph

end DeferredIR
