import DeferredIR.Proofs.Literal.Spelling

/-!
# The spelling of a literal determines it

A string can contain commas, parentheses, quotes and every word, and a literal does not say how long
its spelling is. But the first character tells strings and tuples from words and numbers, a word or
a number ends where a character follows that no word and no number has, a string ends at the first
quote that is no part of a code, and an item of a tuple is followed by a comma or by the closing
parenthesis, none of which begins a literal. So a spelling can be read in one way only, whatever
follows it.
-/

namespace DeferredIR

open Text

namespace Literal

variable {l l' : Literal}

/-! ## Strings -/

/-- The character that is escaped by a letter. -/
def letter? (c : Char) : Option Char :=
  if c = '"' then some '"'
  else if c = '\\' then some '\\'
  else if c = 'n' then some '\n'
  else if c = 'r' then some '\r'
  else if c = 't' then some '\t'
  else if c = '0' then some '\x00'
  else Option.none

/-- Reads one character of a string from its code. -/
def unescape : List Char → Option (Char × List Char)
  | '\\' :: 'u' :: '\x7b' :: rest =>
      some (Char.ofNat (hexValue (rest.takeWhile Char.isAlphanum)),
        (rest.dropWhile Char.isAlphanum).tail)
  | '\\' :: c :: rest => (letter? c).map (·, rest)
  | '"' :: _ => Option.none
  | c :: rest => some (c, rest)
  | [] => Option.none

/-- A character that is escaped by its number. -/
theorem unescape_number (c : Char) (rest : List Char) :
    unescape ('\\' :: 'u' :: '\x7b' :: Nat.toDigits 16 c.toNat ++ '\x7d' :: rest) =
      some (c, rest) := by
  have hdigits : ∀ d ∈ Nat.toDigits 16 c.toNat, d.isAlphanum = true :=
    fun d => isAlphanum_of_mem_toDigits
  have hbrace : Char.isAlphanum '\x7d' = false := by decide
  simp only [List.cons_append, unescape]
  rw [List.takeWhile_append_of_pos hdigits, List.dropWhile_append_of_pos hdigits,
    List.takeWhile_cons, List.dropWhile_cons, hbrace]
  simp [hexValue_toDigits]

/-- A character that stands for itself. -/
theorem unescape_self {c : Char} (hquote : c ≠ '"') (hslash : c ≠ '\\') (rest : List Char) :
    unescape (c :: rest) = some (c, rest) := by
  unfold unescape
  split <;> simp_all

theorem unescape_escape (c : Char) (rest : List Char) :
    unescape (escape c ++ rest) = some (c, rest) := by
  unfold escape
  split
  · subst c; rfl
  split
  · subst c; rfl
  split
  · subst c; rfl
  split
  · subst c; rfl
  split
  · subst c; rfl
  split
  · subst c; rfl
  split
  · exact unescape_self ‹_› ‹_› rest
  · rw [List.append_assoc]
    exact unescape_number c rest

theorem decodes : Decodes escape unescape := ⟨unescape_escape, fun _ => rfl⟩

/-! ## First characters -/

/-- The character with which the spelling begins of a literal that is no atom. -/
def opening : Literal → Option Char
  | str _ => some '"'
  | tuple _ => some '('
  | _ => Option.none

theorem isAtom_of_opening (h : l.opening = Option.none) : IsAtom l := by
  match l with
  | none => exact .inl .none
  | bool b => exact .inl (.bool b)
  | int n => exact .inr (.int n)
  | float .nan => exact .inl .nan
  | float (.infinity negative) => exact .inl (.infinity negative)
  | float (.finite negative rank) => exact .inr (.finite negative rank)
  | str _ | tuple _ => cases h

/-- The spelling of an atom begins with a character of words and numbers, that of another literal
with its own. -/
theorem exists_text_eq_cons (l : Literal) :
    ∃ c cs, l.text.toList = c :: cs ∧
      ((l.opening = Option.none ∧ IsWordChar c) ∨ l.opening = some c ∧ c ∈ ['"', '(']) := by
  cases hl : l.opening with
  | none =>
    have hatom := isAtom_of_opening hl
    obtain ⟨c, cs, hcs⟩ := List.exists_cons_of_ne_nil hatom.text_ne_nil
    exact ⟨c, cs, hcs, .inl ⟨rfl, hatom.isWordChar c (hcs ▸ List.mem_cons_self)⟩⟩
  | some c =>
    cases l with
    | str s =>
      cases hl
      exact ⟨'"', _, toList_quoteWith escape s, .inr ⟨rfl, by simp⟩⟩
    | tuple items =>
      cases hl
      exact ⟨'(', _, toList_text_tuple items, .inr ⟨rfl, by simp⟩⟩
    | _ => cases hl

theorem not_isWordChar_of_opening {c : Char} (h : c ∈ ['"', '(']) : ¬ IsWordChar c := by
  simp only [List.mem_cons, List.not_mem_nil, or_false] at h
  rcases h with rfl | rfl <;> simp [IsWordChar]

/-- Literals whose spellings begin with one character are of one kind. -/
theorem opening_eq {rest rest' : List Char}
    (h : l.text.toList ++ rest = l'.text.toList ++ rest') : l.opening = l'.opening := by
  obtain ⟨c, cs, hl, hc⟩ := exists_text_eq_cons l
  obtain ⟨c', cs', hl', hc'⟩ := exists_text_eq_cons l'
  rw [hl, hl'] at h
  obtain rfl : c = c' := (List.cons_eq_cons.mp h).1
  rcases hc with ⟨ho, hc⟩ | ⟨ho, hc⟩ <;> rcases hc' with ⟨ho', hc'⟩ | ⟨ho', hc'⟩
  · rw [ho, ho']
  · exact absurd hc (not_isWordChar_of_opening hc')
  · exact absurd hc' (not_isWordChar_of_opening hc)
  · rw [ho, ho']

/-- No literal begins like what follows one. -/
theorem text_append_ne_paren (l : Literal) (rest rest' : List Char) :
    l.text.toList ++ rest ≠ ')' :: rest' := by
  intro h
  obtain ⟨c, cs, hl, hc⟩ := exists_text_eq_cons l
  rw [hl] at h
  obtain rfl : c = ')' := (List.cons_eq_cons.mp h).1
  rcases hc with ⟨-, hc⟩ | ⟨-, hc⟩
  · simp [IsWordChar] at hc
  · simp at hc

/-! ## Reading literals -/

/-- Nothing that could be part of a word or a number comes next. -/
def Ends (rest : List Char) : Prop := ∀ c ∈ rest.head?, ¬ IsWordChar c

/-- The spelling of `l` determines it, and where it ends. -/
def Legible (l : Literal) : Prop :=
  ∀ (l' : Literal) {rest rest' : List Char}, Ends rest → Ends rest' →
    l.text.toList ++ rest = l'.text.toList ++ rest' → l = l' ∧ rest = rest'

theorem ends_nil : Ends [] := by simp [Ends]

theorem ends_following (items : List Literal) (rest : List Char) :
    Ends (following items ++ rest) := by
  cases items <;> simp [following, Ends, IsWordChar]

theorem ends_followingFirst (items : List Literal) (rest : List Char) :
    Ends (followingFirst items ++ rest) := by
  unfold followingFirst
  split
  · simp [Ends, IsWordChar]
  · exact ends_following items rest

/-- An atom is read up to the first character that can be part of none. -/
theorem IsAtom.legible (h : IsAtom l) : Legible l := by
  intro l' rest rest' hr hr' he
  have h' : IsAtom l' := by
    apply isAtom_of_opening
    rw [← opening_eq he]
    rcases h with h | h <;> cases h <;> rfl
  obtain ⟨htext, hrest⟩ := append_inj_of_forall h.isWordChar h'.isWordChar hr hr' he
  exact ⟨h.eq_of_text_eq h' (String.toList_injective htext), hrest⟩

theorem legible_str (s : String) : Legible (str s) := by
  intro l' rest rest' _ _ he
  have hopening := opening_eq he
  cases l' with
  | str s' =>
    obtain ⟨rfl, hrest⟩ := decodes.quoteWith_inj he
    exact ⟨rfl, hrest⟩
  | _ => cases hopening

/-- Items up to the closing parenthesis can be read. -/
theorem following_inj {items items' : List Literal} {rest rest' : List Char}
    (hitems : ∀ l ∈ items, Legible l)
    (h : following items ++ rest = following items' ++ rest') : items = items' ∧ rest = rest' := by
  induction items generalizing items' with
  | nil =>
    cases items' with
    | nil => exact ⟨rfl, (List.cons_eq_cons.mp h).2⟩
    | cons l' items' => cases (List.cons_eq_cons.mp h).1
  | cons l items ih =>
    cases items' with
    | nil => cases (List.cons_eq_cons.mp h).1
    | cons l' items' =>
      simp only [following, List.cons_append, List.append_assoc, List.cons.injEq, true_and] at h
      obtain ⟨rfl, hfollowing⟩ := hitems l List.mem_cons_self l' (ends_following items rest)
        (ends_following items' rest') h
      obtain ⟨rfl, hrest⟩ := ih (fun m hm => hitems m (List.mem_cons_of_mem l hm)) hfollowing
      exact ⟨rfl, hrest⟩

/-- The comma after a single item is followed by the parenthesis, not by a space. -/
theorem followingFirst_inj {items items' : List Literal} {rest rest' : List Char}
    (hitems : ∀ l ∈ items, Legible l)
    (h : followingFirst items ++ rest = followingFirst items' ++ rest') :
    items = items' ∧ rest = rest' := by
  cases items with
  | nil =>
    cases items' with
    | nil => exact ⟨rfl, List.append_cancel_left h⟩
    | cons l' items' => cases (List.cons_eq_cons.mp (List.cons_eq_cons.mp h).2).1
  | cons l items =>
    cases items' with
    | nil => cases (List.cons_eq_cons.mp (List.cons_eq_cons.mp h).2).1
    | cons l' items' => exact following_inj hitems h

/-- The items of a tuple can be read, and no item begins with the closing parenthesis. -/
theorem contents_inj {items items' : List Literal} {rest rest' : List Char}
    (hitems : ∀ l ∈ items, Legible l) (h : contents items ++ rest = contents items' ++ rest') :
    items = items' ∧ rest = rest' := by
  cases items with
  | nil =>
    cases items' with
    | nil => exact ⟨rfl, List.append_cancel_left h⟩
    | cons l' items' =>
      rw [contents, contents, List.append_assoc] at h
      exact absurd h.symm (text_append_ne_paren l' _ _)
  | cons l items =>
    cases items' with
    | nil =>
      rw [contents, contents, List.append_assoc] at h
      exact absurd h (text_append_ne_paren l _ _)
    | cons l' items' =>
      rw [contents, contents, List.append_assoc, List.append_assoc] at h
      obtain ⟨rfl, hfollowing⟩ := hitems l List.mem_cons_self l' (ends_followingFirst items rest)
        (ends_followingFirst items' rest') h
      obtain ⟨rfl, hrest⟩ :=
        followingFirst_inj (fun m hm => hitems m (List.mem_cons_of_mem l hm)) hfollowing
      exact ⟨rfl, hrest⟩

theorem legible_tuple {items : List Literal} (hitems : ∀ l ∈ items, Legible l) :
    Legible (tuple items) := by
  intro l' rest rest' _ _ he
  have hopening := opening_eq he
  cases l' with
  | tuple items' =>
    rw [toList_text_tuple, toList_text_tuple] at he
    obtain ⟨rfl, hrest⟩ := contents_inj hitems (List.cons_eq_cons.mp he).2
    exact ⟨rfl, hrest⟩
  | _ => cases hopening

theorem legible (l : Literal) : Legible l := by
  induction l using induction with
  | atom l h => exact h.legible
  | string s => exact legible_str s
  | items ls ih => exact legible_tuple ih

end Literal

/-! ## Floats -/

namespace Binary64

/-- The patterns of the not-a-number: all exponent bits are set, and a bit of the fraction. -/
def IsNanPattern (bits : UInt64) : Prop := infiniteRank < bits.toNat % signBit

/-- The bit pattern of a number, and one of those of the not-a-number. -/
def pattern : Binary64 → Nat
  | nan => infiniteRank + 1
  | infinity negative => (if negative then signBit else 0) + infiniteRank
  | finite negative rank => (if negative then signBit else 0) + rank

theorem ofBits_eq_nan {bits : UInt64} : ofBits bits = nan ↔ IsNanPattern bits := by
  simp only [ofBits, IsNanPattern]
  split
  · simp; omega
  · split <;> simp <;> omega

theorem pattern_ofBits {bits : UInt64} (h : ¬ IsNanPattern bits) :
    (ofBits bits).pattern = bits.toNat := by
  have hlt := bits.toNat_lt
  unfold IsNanPattern at h
  have hsign : (if decide (signBit ≤ bits.toNat) = true then signBit else 0) +
      bits.toNat % signBit = bits.toNat := by
    by_cases hneg : signBit ≤ bits.toNat
    · rw [decide_eq_true hneg, if_pos rfl]
      unfold signBit at hneg ⊢
      omega
    · rw [decide_eq_false hneg, if_neg (by decide)]
      unfold signBit at hneg ⊢
      omega
  simp only [ofBits]
  split
  · exact hsign
  · rw [if_pos (by omega), pattern]
    omega

/-- A number has one bit pattern, but for the not-a-number. -/
theorem ofBits_inj {bits bits' : UInt64} :
    ofBits bits = ofBits bits' ↔ bits = bits' ∨ IsNanPattern bits ∧ IsNanPattern bits' := by
  constructor
  · intro h
    by_cases hnan : IsNanPattern bits
    · exact .inr ⟨hnan, ofBits_eq_nan.mp (h ▸ ofBits_eq_nan.mpr hnan)⟩
    · have hnan' : ¬ IsNanPattern bits' := by rwa [← ofBits_eq_nan, ← h, ofBits_eq_nan]
      left
      apply UInt64.toNat_inj.mp
      rw [← pattern_ofBits hnan, h, pattern_ofBits hnan']
  · rintro (rfl | ⟨h, h'⟩)
    · rfl
    · rw [ofBits_eq_nan.mpr h, ofBits_eq_nan.mpr h']

end Binary64

namespace Literal

/-- Literals have one spelling exactly if they are equal, and two patterns are one float exactly if
they are equal or both patterns of the not-a-number. -/
theorem text_eq_text_iff :
    (∀ l l' : Literal, l.text = l'.text ↔ l = l') ∧
      ∀ bits bits' : UInt64, float (.ofBits bits) = float (.ofBits bits') ↔
        bits = bits' ∨ Binary64.IsNanPattern bits ∧ Binary64.IsNanPattern bits' := by
  refine ⟨fun l l' => ⟨fun h => ?_, congrArg text⟩, fun bits bits' => ?_⟩
  · have he : l.text.toList ++ [] = l'.text.toList ++ [] := by rw [h]
    exact (legible l l' ends_nil ends_nil he).1
  · rw [float.injEq]
    exact Binary64.ofBits_inj

/-- A string that spells two items is no tuple of them, and the comma tells a tuple of one item from
the item. -/
example : (tuple [str "1, 2"]).text = "(\"1, 2\",)" ∧ (tuple [int 1, int 2]).text = "(1, 2)" := by
  constructor <;> rfl

end Literal

end DeferredIR
