import DeferredIR.Listing
import DeferredIR.Proofs.Text.Lines

/-!
# Painting

Colours are put around the pieces of a line. If the pieces hold no escape characters, all escape
sequences of a painted text are those that its palette put there, and without them it is the text
that is not painted.
-/

namespace DeferredIR

open Text

namespace Palette

variable {p : Palette} {line : Line} {lines : List Line}

/-- The escape sequences of a palette. -/
def codes (p : Palette) : List (List Char) := [p.op, p.type, p.muted, p.reset].map String.toList

theorem prefixFree_codes : ∀ a ∈ ansi.codes, ∀ b ∈ ansi.codes, a <+: b → a = b := by decide

theorem head?_of_mem_codes : ∀ code ∈ ansi.codes, code.head? = some '\x1b' := by decide

theorem erase_code {code : String} (hcode : code.toList ∈ ansi.codes) (rest : List Char) :
    erase ansi.codes (code.toList ++ rest) = erase ansi.codes rest := by
  refine Text.erase_code prefixFree_codes hcode (fun hnil => ?_) rest
  cases hnil ▸ head?_of_mem_codes _ hcode

/-- The text of a line without colours. -/
def lineText (line : Line) : List Char := (plain.paintLine line).toList

/-- The pieces of a line hold no line breaks and no escape sequences. -/
def InlinePieces (line : Line) : Prop := ∀ s ∈ line, IsInline s.text

@[simp] theorem inlinePieces_nil : InlinePieces [] := fun _ h => absurd h List.not_mem_nil

@[simp] theorem inlinePieces_cons {s : Span} :
    InlinePieces (s :: line) ↔ IsInline s.text ∧ InlinePieces line :=
  List.forall_mem_cons

@[simp] theorem inlinePieces_append {line line' : Line} :
    InlinePieces (line ++ line') ↔ InlinePieces line ∧ InlinePieces line' :=
  List.forall_mem_append

theorem paint_plain (role : Role) (text : String) : plain.paint role text = text := by
  cases role <;> simp [paint, plain]

theorem lineText_eq (line : Line) : lineText line = line.flatMap fun s => s.text.toList := by
  simp only [lineText, paintLine, paint_plain, String.toList_join, List.flatMap_map]

theorem toList_paintLines (p : Palette) (lines : List Line) :
    (p.paintLines lines).toList = ofLines (lines.map fun line => (p.paintLine line).toList) := by
  have hbreak : "\n".toList = ['\n'] := rfl
  simp only [paintLines, String.toList_join, List.flatMap_map, String.toList_append, ofLines,
    hbreak]

/-- A painted piece without its codes is the piece. -/
theorem erase_paint {text : String} (h : IsInline text) (role : Role) (rest : List Char) :
    erase ansi.codes ((ansi.paint role text).toList ++ rest) =
      text.toList ++ erase ansi.codes rest := by
  have htext (rest : List Char) :
      erase ansi.codes (text.toList ++ rest) = text.toList ++ erase ansi.codes rest :=
    erase_append head?_of_mem_codes (fun hmem => (h _ hmem).2 rfl) rest
  cases role <;> simp only [paint, String.toList_append, List.append_assoc]
  · exact htext rest
  all_goals
    rw [erase_code (by decide), htext, erase_code (by decide)]

theorem erase_paintLine (h : InlinePieces line) (rest : List Char) :
    erase ansi.codes ((ansi.paintLine line).toList ++ rest) =
      lineText line ++ erase ansi.codes rest := by
  rw [lineText_eq, paintLine, String.toList_join, List.flatMap_map]
  induction line with
  | nil => rfl
  | cons s line ih =>
    rw [List.flatMap_cons, List.append_assoc, erase_paint (h s List.mem_cons_self),
      ih fun t ht => h t (List.mem_cons_of_mem s ht), List.flatMap_cons, List.append_assoc]

/-- A coloured text without its codes is the text without colours. -/
theorem erase_paintLines (h : ∀ line ∈ lines, InlinePieces line) :
    erase ansi.codes (ansi.paintLines lines).toList = (plain.paintLines lines).toList := by
  rw [toList_paintLines, toList_paintLines]
  induction lines with
  | nil => rfl
  | cons line lines ih =>
    have hbreak (rest : List Char) :
        erase ansi.codes ('\n' :: rest) = '\n' :: erase ansi.codes rest :=
      erase_append (t := ['\n']) head?_of_mem_codes (by decide) rest
    simp only [ofLines, List.map_cons, List.flatMap_cons, List.append_assoc, List.cons_append,
      List.nil_append]
    rw [erase_paintLine (h line List.mem_cons_self), hbreak]
    exact congrArg (lineText line ++ '\n' :: ·) (ih fun l hl => h l (List.mem_cons_of_mem line hl))

theorem InlinePieces.isInline (h : InlinePieces line) :
    ∀ c ∈ lineText line, c ≠ '\n' ∧ c ≠ '\x1b' := by
  intro c hc
  rw [lineText_eq, List.mem_flatMap] at hc
  obtain ⟨s, hs, hc⟩ := hc
  exact h s hs c hc

/-- A text without colours holds no escape character. -/
theorem not_mem_paintLines (h : ∀ line ∈ lines, InlinePieces line) :
    '\x1b' ∉ (plain.paintLines lines).toList := by
  intro hmem
  rw [toList_paintLines, ofLines, List.flatMap_map, List.mem_flatMap] at hmem
  obtain ⟨line, hline, hmem⟩ := hmem
  rcases List.mem_append.mp hmem with hmem | hmem
  · exact ((h line hline).isInline _ hmem).2 rfl
  · simp at hmem

end Palette

end DeferredIR
