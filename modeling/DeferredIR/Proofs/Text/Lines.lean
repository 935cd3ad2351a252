import Mathlib.Algebra.GroupWithZero.Nat
import Mathlib.Data.List.Basic

/-!
# Lines and escape sequences

A text can be cut into the lines it was made of if none of them holds a line break, and rid of the
escape sequences that were put into it if it holds no other escape character.
-/

namespace DeferredIR.Text

/-! ## Texts of one line -/

/-- A text without line breaks and escape characters. -/
def IsInline (s : String) : Prop := ∀ c ∈ s.toList, c ≠ '\n' ∧ c ≠ '\x1b'

instance (s : String) : Decidable (IsInline s) :=
  List.decidableBAll (fun c => c ≠ '\n' ∧ c ≠ '\x1b') s.toList

@[simp] theorem isInline_append {s t : String} : IsInline (s ++ t) ↔ IsInline s ∧ IsInline t := by
  simp only [IsInline, String.toList_append, List.forall_mem_append]

theorem isInline_intercalate {sep : String} {ts : List String} (hsep : IsInline sep)
    (h : ∀ t ∈ ts, IsInline t) : IsInline (sep.intercalate ts) := by
  induction ts with
  | nil => simp [IsInline]
  | cons t ts ih =>
    cases ts with
    | nil => simpa using h t List.mem_cons_self
    | cons u ts =>
      rw [String.intercalate_cons_cons, isInline_append, isInline_append]
      exact ⟨⟨h t List.mem_cons_self, hsep⟩, ih fun v hv => h v (List.mem_cons_of_mem t hv)⟩

/-! ## Escape sequences -/

/-- Deletes the codes from left to right. The next `skip` characters belong to a code that is being
deleted. -/
def eraseFrom (codes : List (List Char)) : Nat → List Char → List Char
  | _, [] => []
  | skip + 1, _ :: l => eraseFrom codes skip l
  | 0, c :: l =>
      match codes.find? (·.isPrefixOf (c :: l)) with
      | some code => eraseFrom codes (code.length - 1) l
      | none => c :: eraseFrom codes 0 l

/-- Deletes each occurrence of the codes. -/
def erase (codes : List (List Char)) (l : List Char) : List Char := eraseFrom codes 0 l

section Erase

variable {codes : List (List Char)}

theorem eraseFrom_append (code rest : List Char) :
    eraseFrom codes code.length (code ++ rest) = erase codes rest := by
  induction code with
  | nil => rfl
  | cons c code ih => exact ih

/-- Of codes of which none begins another, the one that comes next is deleted. -/
theorem erase_code (hfree : ∀ a ∈ codes, ∀ b ∈ codes, a <+: b → a = b) {code : List Char}
    (hcode : code ∈ codes) (hne : code ≠ []) (rest : List Char) :
    erase codes (code ++ rest) = erase codes rest := by
  have hfind : codes.find? (·.isPrefixOf (code ++ rest)) = some code := by
    cases hfound : codes.find? (·.isPrefixOf (code ++ rest)) with
    | none =>
      rw [List.find?_eq_none] at hfound
      exact absurd (List.isPrefixOf_iff_prefix.mpr (List.prefix_append code rest))
        (hfound code hcode)
    | some found =>
      have hprefix : found <+: code ++ rest :=
        List.isPrefixOf_iff_prefix.mp
          (List.find?_some (p := fun code' : List Char => code'.isPrefixOf (code ++ rest)) hfound)
      have hfound := List.mem_of_find?_eq_some hfound
      rcases List.prefix_or_prefix_of_prefix hprefix (List.prefix_append code rest) with h | h
      · rw [hfree found hfound code hcode h]
      · rw [hfree code hcode found hfound h]
  obtain ⟨c, code, rfl⟩ := List.exists_cons_of_ne_nil hne
  rw [List.cons_append] at hfind ⊢
  rw [erase, eraseFrom, hfind]
  exact eraseFrom_append code rest

/-- Text without escape characters stays if all codes begin with one. -/
theorem erase_append (hcodes : ∀ code ∈ codes, code.head? = some '\x1b') {t : List Char}
    (ht : '\x1b' ∉ t) (rest : List Char) : erase codes (t ++ rest) = t ++ erase codes rest := by
  induction t with
  | nil => rfl
  | cons c t ih =>
    rw [List.mem_cons, not_or] at ht
    have hfind : codes.find? (·.isPrefixOf (c :: (t ++ rest))) = none := by
      rw [List.find?_eq_none]
      intro code hcode hprefix
      obtain ⟨d, code, rfl⟩ : ∃ d code', code = d :: code' := by
        cases code with
        | nil => cases hcodes [] hcode
        | cons d code => exact ⟨d, code, rfl⟩
      obtain rfl : d = '\x1b' := Option.some.inj (hcodes _ hcode)
      simp [ht.1] at hprefix
    rw [List.cons_append, erase, eraseFrom, hfind]
    exact congrArg (c :: ·) (ih ht.2)

end Erase

/-! ## Lines -/

/-- Deletes the lines that begin with `mark`. -/
def dropLines (mark text : List Char) : List Char :=
  ['\n'].intercalate ((text.splitOn '\n').filter fun line => !mark.isPrefixOf line)

/-- A text of lines, each ended by a line break. -/
def ofLines (lines : List (List Char)) : List Char := lines.flatMap (· ++ ['\n'])

section Lines

variable {mark : List Char} {lines : List (List Char)}

theorem ofLines_eq (lines : List (List Char)) :
    ofLines lines = ['\n'].intercalate (lines ++ [[]]) := by
  induction lines with
  | nil => rfl
  | cons line lines ih =>
    rw [List.cons_append, List.intercalate_cons_of_ne_nil (by simp), ← ih]
    simp [ofLines]

theorem splitOn_ofLines (h : ∀ line ∈ lines, '\n' ∉ line) :
    (ofLines lines).splitOn '\n' = lines ++ [[]] := by
  rw [ofLines_eq]
  apply List.splitOn_intercalate
  · intro line hline
    rcases List.mem_append.mp hline with hline | hline
    · exact h line hline
    · simp_all
  · simp

end Lines

/-! ## Blocks of lines -/

section Blocks

variable {α : Type} {p : α → Bool} {sep : α}

theorem map_intercalate {β : Type} (f : α → β) (blocks : List (List α)) :
    ([sep].intercalate blocks).map f = [f sep].intercalate (blocks.map (List.map f)) := by
  induction blocks with
  | nil => rfl
  | cons b blocks ih =>
    cases blocks with
    | nil => simp
    | cons b' blocks =>
      rw [List.intercalate_cons_cons, List.map_append, List.map_append, ih]
      exact List.intercalate_cons_cons.symm

theorem mem_of_mem_intercalate {x : α} {blocks : List (List α)} (h : x ∈ [sep].intercalate blocks) :
    x = sep ∨ ∃ b ∈ blocks, x ∈ b := by
  induction blocks with
  | nil => cases h
  | cons b blocks ih =>
    cases blocks with
    | nil => exact .inr ⟨b, List.mem_cons_self, by simpa using h⟩
    | cons b' blocks =>
      rw [List.intercalate_cons_cons, List.mem_append, List.mem_append, List.mem_singleton] at h
      rcases h with (h | h) | h
      · exact .inr ⟨b, List.mem_cons_self, h⟩
      · exact .inl h
      · exact (ih h).imp_right fun ⟨c, hc, hx⟩ => ⟨c, List.mem_cons_of_mem b hc, hx⟩

theorem filter_intercalate (hsep : p sep = true) (blocks : List (List α)) :
    ([sep].intercalate blocks).filter p = [sep].intercalate (blocks.map (List.filter p)) := by
  induction blocks with
  | nil => rfl
  | cons b blocks ih =>
    cases blocks with
    | nil => simp
    | cons b' blocks =>
      rw [List.intercalate_cons_cons, List.filter_append, List.filter_append, ih,
        List.filter_cons_of_pos hsep]
      exact List.intercalate_cons_cons.symm

theorem countP_intercalate (hsep : p sep = false) (blocks : List (List α)) :
    ([sep].intercalate blocks).countP p = (blocks.map (List.countP p)).sum := by
  induction blocks with
  | nil => rfl
  | cons b blocks ih =>
    cases blocks with
    | nil => simp
    | cons b' blocks =>
      rw [List.intercalate_cons_cons, List.countP_append, List.countP_append, ih,
        List.countP_cons_of_neg (by simp [hsep]), List.map_cons (l := b' :: blocks), List.sum_cons,
        List.countP_nil, Nat.add_zero]

end Blocks

end DeferredIR.Text
