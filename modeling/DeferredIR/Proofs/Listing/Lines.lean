import DeferredIR.Proofs.Listing.Painting
import DeferredIR.Proofs.Literal.Spelling
import DeferredIR.Proofs.NoFaults

/-!
# The lines of a listing

A listing has one line for each node it shows, and the line of a node does not depend on what else
is shown. The pieces of a line hold no line breaks and no escape characters if the names that are
shown as they are hold none: handles are shown by their numbers, strings and literals in printable
characters.
-/

namespace DeferredIR

open Text

namespace Graph

open Check Palette

variable {g : Graph} {f : Func} {n : NodeId} {v : ValueId} {x : Node} {showDead : Bool}

/-! ## The lines of a listing -/

/-- The line of `n`, empty if there is none. -/
def lineOf (g : Graph) (n : NodeId) : Line := (g.node n >>= g.nodeLine).toOption.getD []

theorem lineOf_eq {line : Line} (hn : g.nodes[n.index]? = some x)
    (hline : g.nodeLine x = .ok line) : g.lineOf n = line := by
  rw [lineOf, node_eq_ok.mpr hn, ok_bind, hline]
  rfl

/-- The nodes that a listing shows of a function. -/
def shown (g : Graph) (showDead : Bool) (f : Func) : List NodeId :=
  f.body.filter fun n => showDead || decide (n ∈ g.live)

theorem shown_true (g : Graph) : g.shown true = Func.body := by
  funext f
  simp [shown]

theorem shown_false (g : Graph) :
    g.shown false = fun f => f.body.filter fun n => decide (n ∈ g.live) := rfl

/-- The first line of a function with the given formal arguments. -/
def opening (f : Func) (formals : List Line) : Line :=
  ⟨.plain, "func "⟩ :: ⟨.op, "@" ++ f.name⟩ :: ⟨.plain, "("⟩ ::
    [⟨.plain, ", "⟩].intercalate formals ++ [⟨.plain, ") \x7b"⟩]

/-- The last line of a function. -/
def closing : Line := [⟨.plain, "\x7d"⟩]

/-- The functions of the graph begin with the lines `first`. -/
def Opens (g : Graph) (first : Func → Line) : Prop :=
  ∀ f ∈ g.functions.toList, ∃ formals, f.formals.mapM g.formalSpans = .ok formals ∧
    first f = opening f formals

/-- The functions one after the other, with an empty line between them. -/
def listed (g : Graph) (first : Func → Line) (showDead : Bool) : List Line :=
  [[]].intercalate (g.functions.toList.map fun f =>
    first f :: (g.shown showDead f).map g.lineOf ++ [closing])

theorem lines_of_mapM {body : List NodeId} {nodes : List Node} {lines : List Line}
    (hnodes : body.mapM g.node = .ok nodes)
    (hlines : (nodes.filter fun x => showDead || !x.dead).mapM g.nodeLine = .ok lines) :
    lines = (body.filter fun n => showDead || decide (n ∈ g.live)).map g.lineOf := by
  induction body generalizing nodes lines with
  | nil =>
    obtain rfl : [] = nodes := by simpa using hnodes
    obtain rfl : [] = lines := by simpa using hlines
    rfl
  | cons n body ih =>
    simp only [List.mapM_cons, bind_eq_ok, pure_eq_ok] at hnodes
    obtain ⟨x, hx, nodes, hnodes, rfl⟩ := hnodes
    have hx := node_eq_ok.mp hx
    have hshown : (showDead || decide (n ∈ g.live)) = (showDead || !x.dead) := by
      simp only [mem_live_iff_not_dead hx]
      cases x.dead <;> simp
    rw [List.filter_cons] at hlines
    rw [List.filter_cons, hshown]
    split at hlines
    next hshow =>
      simp only [List.mapM_cons, bind_eq_ok, pure_eq_ok] at hlines
      obtain ⟨line, hline, lines, hlines, rfl⟩ := hlines
      rw [if_pos hshow, List.map_cons, lineOf_eq hx hline, ih hnodes hlines]
    next hshow =>
      rw [if_neg hshow]
      exact ih hnodes hlines

/-- A function is shown as its first line, its nodes and its last line. -/
theorem of_funcLines_eq_ok {lines : List Line} (h : g.funcLines showDead f = .ok lines) :
    ∃ formals, f.formals.mapM g.formalSpans = .ok formals ∧
      lines = opening f formals :: (g.shown showDead f).map g.lineOf ++ [closing] := by
  obtain ⟨formals, hformals, h⟩ := bind_eq_ok.mp h
  obtain ⟨nodes, hnodes, h⟩ := bind_eq_ok.mp h
  obtain ⟨shown, hshown, h⟩ := bind_eq_ok.mp h
  obtain rfl := pure_eq_ok.mp h
  obtain ⟨all, hall, hnodes⟩ := bind_eq_ok.mp hnodes
  obtain rfl := pure_eq_ok.mp hnodes
  rw [lines_of_mapM hall hshown]
  exact ⟨formals, hformals, rfl⟩

/-- Every listing shows the functions one after the other. -/
theorem Reachable.exists_lines_eq (h : g.Reachable) :
    ∃ first, g.Opens first ∧ ∀ showDead, g.lines showDead = .ok (g.listed first showDead) := by
  have hfunc : ∀ f, ∃ formals, f ∈ g.functions.toList →
      f.formals.mapM g.formalSpans = .ok formals := by
    intro f
    by_cases hf : f ∈ g.functions.toList
    · obtain ⟨i, hi⟩ := exists_funcId_of_mem hf
      obtain ⟨lines, hlines⟩ := h.wellFormed.exists_funcLines h.typed h.listsNodes hi true
      obtain ⟨formals, hformals, -⟩ := of_funcLines_eq_ok hlines
      exact ⟨formals, fun _ => hformals⟩
    · exact ⟨[], fun hmem => absurd hmem hf⟩
  choose formals hformals using hfunc
  refine ⟨fun f => opening f (formals f), fun f hf => ⟨_, hformals f hf, rfl⟩, ?_⟩
  intro showDead
  have hlines := mapM_eq_ok_map (l := g.functions.toList) (f := g.funcLines showDead) fun f hf => by
    obtain ⟨i, hi⟩ := exists_funcId_of_mem hf
    obtain ⟨lines, hlines⟩ := h.wellFormed.exists_funcLines h.typed h.listsNodes hi showDead
    obtain ⟨formals', hformals', rfl⟩ := of_funcLines_eq_ok hlines
    obtain rfl := Except.ok.inj ((hformals f hf).symm.trans hformals')
    exact hlines
  rw [lines, hlines]
  rfl

theorem mem_body_of_mem_shown (hn : n ∈ g.shown showDead f) : n ∈ f.body :=
  List.mem_of_mem_filter hn

/-- What a listing shows of a node is its line. -/
theorem WellFormed.nodeLine_eq (h : g.WellFormed) (ht : g.Typed) (hn : g.nodes[n.index]? = some x) :
    g.nodeLine x = .ok (g.lineOf n) := by
  obtain ⟨line, hline⟩ := h.exists_nodeLine ht hn
  rw [lineOf_eq hn hline, hline]

end Graph

/-! ## Pieces of one line -/

theorem isInline_of_isPrintable {s : String} (h : ∀ c ∈ s.toList, isPrintable c = true) :
    IsInline s := by
  intro c hc
  constructor
  · rintro rfl
    cases h _ hc
  · rintro rfl
    cases h _ hc

theorem isInline_repr (n : Nat) : IsInline n.repr := by
  apply isInline_of_isPrintable
  intro c hc
  rw [Nat.toList_repr] at hc
  apply Literal.isPrintable_of_isAlphanum
  simp [Char.isAlphanum, isDigit_of_mem_toDigits hc]

theorem ValueId.isInline_text (v : ValueId) : IsInline v.text :=
  isInline_append.mpr ⟨by decide, isInline_repr v.index⟩

namespace Opcode

theorem isInline_mnemonic (k : Opcode) : IsInline k.mnemonic := by
  unfold mnemonic
  split <;> decide

/-- Literals and strings are shown in printable characters only. -/
theorem isInline_of_attributes? {k : Opcode} {text : String} (h : k.attributes? = some text) :
    IsInline text := by
  have hquoted (s : String) : IsInline (Literal.quoted s) :=
    isInline_of_isPrintable (Literal.isPrintable_of_mem_quoted s)
  cases k with
  | arg index name =>
    cases h
    simp only [isInline_append, isInline_repr, hquoted]
    decide
  | const value =>
    cases h
    exact isInline_append.mpr
      ⟨by decide, isInline_of_isPrintable (Literal.isPrintable_of_mem_text value)⟩
  | global name => cases h; exact isInline_append.mpr ⟨by decide, hquoted name⟩
  | binop op => cases h; exact isInline_append.mpr ⟨by decide, hquoted op⟩
  | item index => cases h; exact isInline_append.mpr ⟨by decide, isInline_repr index⟩
  | _ => cases h

end Opcode

namespace Graph

open Check Palette

variable {g : Graph} {f : Func} {n : NodeId} {v : ValueId} {x : Node} {showDead : Bool}

/-- The names that a listing shows as they are: each is a text of one line without escape
characters. -/
structure InlineNames (g : Graph) : Prop where
  func : ∀ f ∈ g.functions, IsInline f.name
  type : ∀ v name, g.types.name? (g.typeOf v) = some (.named name) → IsInline name
  keyword : ∀ x ∈ g.nodes, ∀ keywords, x.opcode = .call keywords → ∀ k ∈ keywords, IsInline k

/-- The names in a call are the keywords of its opcode. -/
theorem mem_of_callLayout {layout : CallLayout} (h : x.callLayout = .ok (some layout))
    {p : String × ValueId} (hp : p ∈ layout.keyword) :
    ∃ keywords, x.opcode = .call keywords ∧ p.1 ∈ keywords := by
  unfold Node.callLayout at h
  split at h
  next keywords hk =>
    split at h
    · split at h
      · cases h
        exact ⟨keywords, hk, (List.of_mem_zip hp).1⟩
      · cases h
    · cases h
  · cases h

theorem isInline_operandText
    (hx : ∀ keywords, x.opcode = .call keywords → ∀ k ∈ keywords, IsInline k) {text : String}
    (h : x.operandText = .ok text) : IsInline text := by
  have hcomma : IsInline ", " := by decide
  obtain ⟨layout?, hlayout, h⟩ := bind_eq_ok.mp h
  cases layout? with
  | some layout =>
    obtain rfl := pure_eq_ok.mp h
    simp only [isInline_append, ValueId.isInline_text]
    refine ⟨⟨by decide, isInline_intercalate hcomma fun t ht => ?_⟩, by decide⟩
    rcases List.mem_append.mp ht with ht | ht
    · obtain ⟨v, -, rfl⟩ := List.mem_map.mp ht
      exact v.isInline_text
    · obtain ⟨p, hp, rfl⟩ := List.mem_map.mp ht
      obtain ⟨keywords, hk, hmem⟩ := mem_of_callLayout hlayout hp
      simp only [isInline_append, ValueId.isInline_text, hx keywords hk _ hmem]
      decide
  | none =>
    dsimp only at h
    split at h
    · obtain rfl := pure_eq_ok.mp h
      decide
    · obtain rfl := pure_eq_ok.mp h
      refine isInline_append.mpr ⟨by decide, isInline_intercalate hcomma fun t ht => ?_⟩
      obtain ⟨v, -, rfl⟩ := List.mem_map.mp ht
      exact v.isInline_text

namespace InlineNames

theorem isInline_typeText (h : g.InlineNames) {text : String} (ht : g.typeText v = .ok text) :
    IsInline text := by
  obtain ⟨value, hvalue, ht⟩ := bind_eq_ok.mp ht
  obtain ⟨name, hname, rfl⟩ := map_eq_ok.mp ht
  cases name with
  | undefined => decide
  | named name =>
    have htype := typeOf_of_value (value_eq_ok.mp hvalue)
    have hinline := h.type v name (htype ▸ TypeTable.name_eq_ok.mp hname)
    simp only [TypeName.text, isInline_append, hinline]
    decide

theorem inlinePieces_nodeLine (h : g.InlineNames) (hn : g.nodes[n.index]? = some x) {line : Line}
    (hline : g.nodeLine x = .ok line) : InlinePieces line := by
  obtain ⟨operands, hoperands, hline⟩ := bind_eq_ok.mp hline
  obtain ⟨type, htype, hline⟩ := bind_eq_ok.mp hline
  obtain rfl := pure_eq_ok.mp hline
  have hoperands := isInline_operandText (h.keyword x (Array.mem_of_getElem? hn)) hoperands
  have htype := h.isInline_typeText htype
  have hmark : InlinePieces x.deadMark := by
    unfold Node.deadMark
    split
    · simp only [inlinePieces_cons, inlinePieces_nil]
      decide
    · exact inlinePieces_nil
  have hattributes : InlinePieces x.attributeSpans := by
    unfold Node.attributeSpans
    split
    next attributes hk =>
      simp only [inlinePieces_cons, inlinePieces_nil, isInline_append,
        Opcode.isInline_of_attributes? hk]
      decide
    · exact inlinePieces_nil
  simp only [inlinePieces_cons, inlinePieces_append, inlinePieces_nil, hmark, hattributes,
    hoperands, htype, isInline_append, ValueId.isInline_text, Opcode.isInline_mnemonic]
  decide

theorem inlinePieces_formalSpans (h : g.InlineNames) {line : Line}
    (hline : g.formalSpans v = .ok line) : InlinePieces line := by
  obtain ⟨type, htype, hline⟩ := bind_eq_ok.mp hline
  obtain rfl := pure_eq_ok.mp hline
  simp only [inlinePieces_cons, inlinePieces_nil, h.isInline_typeText htype, isInline_append,
    ValueId.isInline_text]
  decide

theorem inlinePieces_opening (h : g.InlineNames) (hf : f ∈ g.functions.toList)
    {formals : List Line} (hformals : f.formals.mapM g.formalSpans = .ok formals) :
    InlinePieces (opening f formals) := by
  have hseparated : InlinePieces ([⟨.plain, ", "⟩].intercalate formals) := by
    intro s hs
    rcases mem_of_mem_intercalate hs with rfl | ⟨line, hline, hs⟩
    · show IsInline ", "
      decide
    · obtain ⟨v, -, hv⟩ := exists_of_mem_mapM hformals hline
      exact h.inlinePieces_formalSpans hv s hs
  simp only [opening, inlinePieces_cons, inlinePieces_append, inlinePieces_nil, hseparated,
    isInline_append, h.func f (Array.mem_toList_iff.mp hf)]
  decide

theorem inlinePieces_listed (hnames : g.InlineNames) (h : g.Reachable) {first : Func → Line}
    (hfirst : g.Opens first) : ∀ line ∈ g.listed first showDead, InlinePieces line := by
  intro line hline
  rcases mem_of_mem_intercalate hline with rfl | ⟨block, hblock, hline⟩
  · exact inlinePieces_nil
  obtain ⟨f, hf, rfl⟩ := List.mem_map.mp hblock
  rw [List.mem_append, List.mem_cons, List.mem_map, List.mem_singleton] at hline
  rcases hline with (rfl | ⟨n, hn, rfl⟩) | rfl
  · obtain ⟨formals, hformals, hopening⟩ := hfirst f hf
    rw [hopening]
    exact hnames.inlinePieces_opening hf hformals
  · obtain ⟨x, hx⟩ := h.listsNodes.exists_node_of_mem hf (mem_body_of_mem_shown hn)
    exact hnames.inlinePieces_nodeLine hx (h.wellFormed.nodeLine_eq h.typed hx)
  · simp only [closing, inlinePieces_cons, inlinePieces_nil]
    decide

end InlineNames

end Graph

end DeferredIR
