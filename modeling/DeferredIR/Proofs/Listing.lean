import DeferredIR.Proofs.Listing.Lines

/-!
# What the options of a listing change

Colours only decorate, because nothing else in a listing is an escape sequence. Showing dead nodes
only adds lines, because a text can be cut into the lines that it was made of, the line of a node is
the same in both listings, and only the lines of dead nodes begin with a mark.
-/

namespace DeferredIR

open Text

namespace Graph

open Check Palette

variable {g : Graph} {f : Func} {n : NodeId} {v : ValueId} {x : Node} {showDead : Bool}

/-! ## Marks -/

/-- How the line of a node begins that was folded away, and no other line. -/
def foldedMark : List Char := [' ', ' ', '✗', ' ']

theorem isPrefixOf_foldedMark_nodeLine {line : Line} (hline : g.nodeLine x = .ok line) :
    foldedMark.isPrefixOf (lineText line) = x.dead := by
  obtain ⟨operands, -, hline⟩ := bind_eq_ok.mp hline
  obtain ⟨type, -, hline⟩ := bind_eq_ok.mp hline
  obtain rfl := pure_eq_ok.mp hline
  rw [lineText_eq]
  cases hd : x.dead <;> simp [foldedMark, List.isPrefixOf, Node.deadMark, ValueId.text, hd]

theorem isPrefixOf_foldedMark_opening (f : Func) (formals : List Line) :
    foldedMark.isPrefixOf (lineText (opening f formals)) = false := by
  rw [lineText_eq]
  simp [foldedMark, List.isPrefixOf, opening]

/-! ## All nodes -/

theorem countP_nodeEntries (g : Graph) :
    (g.nodeEntries.map Prod.fst).countP (fun n => !decide (n ∈ g.live)) =
      g.nodes.toList.countP fun x => x.dead := by
  have hdead : ∀ p ∈ g.nodeEntries, (!decide (p.1 ∈ g.live)) = true ↔ p.2.dead = true := by
    rintro ⟨n, x⟩ hp
    simp [mem_live_iff_not_dead (mem_nodeEntries.mp hp)]
  have hsnd : g.nodeEntries.map Prod.snd = g.nodes.toList := by
    rw [nodeEntries, numbered, List.map_map]
    exact List.zipIdx_map_fst 0 g.nodes.toList
  rw [List.countP_map, ← hsnd, List.countP_map]
  exact List.countP_congr hdead

/-! ## Texts -/

/-- The lines of a text that shows, for each function, a first line, the line of each of its nodes
that `shown` picks, and a closing brace, with an empty line between functions. Nothing follows the
last line break. -/
def textLines (g : Graph) (first : Func → List Char) (line : NodeId → List Char)
    (shown : Func → List NodeId) : List (List Char) :=
  [[]].intercalate (g.functions.toList.map fun f =>
    first f :: (shown f).map line ++ [['\x7d']]) ++ [[]]

/-- The lines of dead nodes are marked, and no others. -/
structure MarksDead (g : Graph) (first : Func → List Char) (line : NodeId → List Char) : Prop where
  first : ∀ f ∈ g.functions.toList, foldedMark.isPrefixOf (first f) = false
  line : ∀ f ∈ g.functions.toList, ∀ n ∈ f.body,
    foldedMark.isPrefixOf (line n) = !decide (n ∈ g.live)

section Texts

variable {first : Func → List Char} {line : NodeId → List Char}

/-- The lines of a text without those of dead nodes. -/
theorem MarksDead.filter_textLines (h : g.MarksDead first line) :
    (g.textLines first line Func.body).filter (fun l => !foldedMark.isPrefixOf l) =
      g.textLines first line fun f => f.body.filter fun n => decide (n ∈ g.live) := by
  rw [textLines, List.filter_append, filter_intercalate rfl, List.map_map, textLines]
  congr 2
  refine List.map_congr_left fun f hf => ?_
  have hbody : (f.body.map line).filter (fun l => !foldedMark.isPrefixOf l) =
      (f.body.filter fun n => decide (n ∈ g.live)).map line := by
    rw [List.filter_map]
    congr 1
    exact List.filter_congr fun n hn => by simp [h.line f hf n hn]
  have hclosing : foldedMark.isPrefixOf ['\x7d'] = false := rfl
  show (first f :: f.body.map line ++ [['\x7d']]).filter (fun l => !foldedMark.isPrefixOf l) = _
  simp [h.first f hf, hbody, hclosing]

/-- As many lines of a text are marked as there are dead nodes. -/
theorem MarksDead.countP_textLines (h : g.MarksDead first line) (hwf : g.WellFormed)
    (hl : g.ListsNodes) :
    (g.textLines first line Func.body).countP (foldedMark.isPrefixOf ·) =
      g.nodes.toList.countP fun x => x.dead := by
  rw [← countP_nodeEntries, ← (hl.perm_bodies hwf).countP_eq, List.countP_flatMap, textLines,
    List.countP_append, countP_intercalate rfl, List.map_map]
  have hlast : [[]].countP (foldedMark.isPrefixOf ·) = 0 := rfl
  rw [hlast, Nat.add_zero]
  congr 1
  refine List.map_congr_left fun f hf => ?_
  have hbody : (f.body.map line).countP (foldedMark.isPrefixOf ·) =
      f.body.countP fun n => !decide (n ∈ g.live) := by
    rw [List.countP_map]
    exact List.countP_congr fun n hn => by simp [h.line f hf n hn]
  have hclosing : foldedMark.isPrefixOf ['\x7d'] = false := rfl
  simp [h.first f hf, hbody, hclosing]

end Texts

theorem map_lineText_listed (g : Graph) (first : Func → Line) (showDead : Bool) :
    (g.listed first showDead).map lineText ++ [[]] =
      g.textLines (fun f => lineText (first f)) (fun n => lineText (g.lineOf n))
        (g.shown showDead) := by
  have hnil : lineText [] = [] := by simp [lineText_eq]
  have hclosing : lineText closing = ['\x7d'] := by simp [lineText_eq, closing]
  rw [listed, map_intercalate, hnil]
  simp [textLines, Function.comp_def, hclosing]

theorem Reachable.marksDead (h : g.Reachable) {first : Func → Line} (hfirst : g.Opens first) :
    g.MarksDead (fun f => lineText (first f)) fun n => lineText (g.lineOf n) where
  first := by
    intro f hf
    obtain ⟨formals, -, hopening⟩ := hfirst f hf
    rw [hopening]
    exact isPrefixOf_foldedMark_opening f formals
  line := by
    intro f hf n hn
    obtain ⟨x, hx⟩ := h.listsNodes.exists_node_of_mem hf hn
    rw [isPrefixOf_foldedMark_nodeLine (h.wellFormed.nodeLine_eq h.typed hx)]
    simp [mem_live_iff_not_dead hx]

theorem listing_eq_ok {lines : List Line} (h : g.lines showDead = .ok lines) (p : Palette) :
    g.listing ⟨p, showDead⟩ = .ok (p.paintLines lines) := by
  rw [listing, h]
  rfl

/-- Colours only decorate and hiding dead nodes only filters. Each listing without colours is the
coloured one without the escape sequences of the palette, and holds no escape characters. The
listing that hides dead nodes is the one that shows them without the marked lines, of which there is
one for each dead node. Both have one line for each node that they show, in the order of the nodes
of its function. -/
theorem Reachable.listing_options (h : g.Reachable) (hnames : g.InlineNames) :
    (∀ showDead, ∃ plain coloured, g.listing ⟨.plain, showDead⟩ = .ok plain ∧
      g.listing ⟨.ansi, showDead⟩ = .ok coloured ∧ '\x1b' ∉ plain.toList ∧
      erase Palette.ansi.codes coloured.toList = plain.toList) ∧
    ∃ live all, g.listing ⟨.plain, false⟩ = .ok live ∧ g.listing ⟨.plain, true⟩ = .ok all ∧
      live.toList = dropLines foldedMark all.toList ∧
      (all.toList.splitOn '\n').countP (foldedMark.isPrefixOf ·) =
        g.nodes.toList.countP (fun x => x.dead) ∧
      ∃ (first : Func → List Char) (line : NodeId → List Char),
        all.toList.splitOn '\n' = g.textLines first line Func.body ∧
        live.toList.splitOn '\n' =
          g.textLines first line (fun f => f.body.filter fun n => decide (n ∈ g.live)) ∧
        (∀ f ∈ g.functions.toList, foldedMark.isPrefixOf (first f) = false) ∧
        ∀ n x, g.nodes[n.index]? = some x → ∃ pieces, g.nodeLine x = .ok pieces ∧
          line n = (Palette.plain.paintLine pieces).toList ∧
          foldedMark.isPrefixOf (line n) = x.dead := by
  obtain ⟨first, hfirst, hlines⟩ := h.exists_lines_eq
  have hinline (showDead : Bool) : ∀ line ∈ g.listed first showDead, InlinePieces line :=
    hnames.inlinePieces_listed h hfirst
  have hmarks := h.marksDead hfirst
  have hbreak (showDead : Bool) :
      ∀ line ∈ (g.listed first showDead).map lineText, '\n' ∉ line := by
    intro line hline hmem
    obtain ⟨pieces, hpieces, rfl⟩ := List.mem_map.mp hline
    exact ((hinline showDead pieces hpieces).isInline _ hmem).1 rfl
  have hsplit (showDead : Bool) :
      (Palette.plain.paintLines (g.listed first showDead)).toList.splitOn '\n' =
        g.textLines (fun f => lineText (first f)) (fun n => lineText (g.lineOf n))
          (g.shown showDead) := by
    rw [toList_paintLines, ← map_lineText_listed]
    exact splitOn_ofLines (hbreak showDead)
  have hshow (p : Palette) (showDead : Bool) := listing_eq_ok (hlines showDead) p
  refine ⟨fun showDead => ⟨_, _, hshow .plain showDead, hshow .ansi showDead, ?_, ?_⟩, _, _,
    hshow .plain false, hshow .plain true, ?_, ?_, _, _, ?_, hsplit false, hmarks.first, ?_⟩
  · exact not_mem_paintLines (hinline showDead)
  · exact erase_paintLines (hinline showDead)
  · rw [dropLines, hsplit, shown_true, hmarks.filter_textLines, ← shown_false, ← hsplit,
      List.intercalate_splitOn]
  · rw [hsplit, shown_true]
    exact hmarks.countP_textLines h.wellFormed h.listsNodes
  · rw [hsplit, shown_true]
  · intro n x hx
    have hline := h.wellFormed.nodeLine_eq h.typed hx
    exact ⟨_, hline, rfl, isPrefixOf_foldedMark_nodeLine hline⟩

/-- With a constant that looks like a reset and the line of a dead node, a call with a keyword and a
node that was folded. -/
theorem listing_options_of_lookalikes :
    let g := (ofTable { names := ["int"] }).after [.addFunc "f" [⟨1⟩],
      .build ⟨0⟩ {} (.const (.str "\x1b[0m\n  ✗ ")), .build ⟨0⟩ { onBuild := true } (.cast ⟨0⟩ ⟨1⟩),
      .build ⟨0⟩ {} (.call ⟨⟨0⟩, [], [("step", ⟨1⟩)]⟩)]
    g.Reachable ∧ g.InlineNames ∧
      (∃ plain coloured, g.listing ⟨.plain, true⟩ = .ok plain ∧
        g.listing ⟨.ansi, true⟩ = .ok coloured ∧ plain ≠ coloured ∧
        erase Palette.ansi.codes coloured.toList = plain.toList) ∧
      ∃ live all, g.listing ⟨.plain, false⟩ = .ok live ∧ g.listing ⟨.plain, true⟩ = .ok all ∧
        live.toList = dropLines foldedMark all.toList ∧
        (all.toList.splitOn '\n').countP (foldedMark.isPrefixOf ·) = 1 := by
  intro g
  have h : g.Reachable := ⟨_, _, rfl⟩
  have hfunctions : g.functions = #[⟨"f", [⟨0⟩], [⟨0⟩, ⟨1⟩, ⟨2⟩]⟩] := rfl
  have hnodes : g.nodes = #[⟨.const (.str "\x1b[0m\n  ✗ "), [], ⟨1⟩, ⟨0⟩, false⟩,
      ⟨.cast, [⟨0⟩], ⟨2⟩, ⟨0⟩, true⟩, ⟨.call ["step"], [⟨0⟩, ⟨1⟩], ⟨3⟩, ⟨0⟩, false⟩] := rfl
  have htypes : g.types.names = ["int"] := rfl
  have hdead : g.nodes.toList.countP (fun x => x.dead) = 1 := rfl
  have hdiffer : g.listing ⟨.plain, true⟩ ≠ g.listing ⟨.ansi, true⟩ := by decide +kernel
  clear_value g
  have hnames : g.InlineNames := by
    refine ⟨?_, ?_, ?_⟩
    · simp only [hfunctions, List.mem_toArray, List.mem_singleton]
      rintro f rfl
      decide
    · intro v name hname
      obtain ⟨i, -, hi⟩ := TypeTable.name?_eq_named.mp hname
      have hmem := List.mem_of_getElem? hi
      rw [htypes, List.mem_singleton] at hmem
      rw [hmem]
      decide
    · simp only [hnodes, List.mem_toArray, List.mem_cons, List.not_mem_nil, or_false]
      rintro x (rfl | rfl | rfl) keywords hk
      · cases hk
      · cases hk
      · cases hk
        decide
  obtain ⟨hcolours, live, all, hlive, hall, hdrop, hcount, -⟩ := h.listing_options hnames
  obtain ⟨plain, coloured, hplain, hcoloured, -, herase⟩ := hcolours true
  refine ⟨h, hnames, ⟨plain, coloured, hplain, hcoloured, ?_, herase⟩, live, all, hlive, hall,
    hdrop, hcount.trans hdead⟩
  rintro rfl
  exact hdiffer (hplain.trans hcoloured.symm)

end Graph

end DeferredIR
