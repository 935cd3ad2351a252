import DeferredIR.Literal
import DeferredIR.Proofs.Decimal.Layout

/-!
# Spellings

A literal is spelled as a word, as a number, as a string between quotes, or as a tuple between
parentheses, where a comma or the closing parenthesis follows each item. All of it is printable,
whatever characters are in the strings.
-/

namespace DeferredIR.Literal

open Text

/-! ## Words and numbers -/

/-- The literals that are spelled by a word. -/
inductive IsWord : Literal → Prop
  | none : IsWord none
  | bool (b : Bool) : IsWord (bool b)
  | nan : IsWord (float .nan)
  | infinity (negative : Bool) : IsWord (float (.infinity negative))

/-- The literals that are spelled by a number. -/
inductive IsNumber : Literal → Prop
  | int (n : Int64) : IsNumber (int n)
  | finite (negative : Bool) (rank : Fin Binary64.infiniteRank) :
      IsNumber (float (.finite negative rank))

/-- The literal that a word spells. -/
def ofWord (s : String) : Option Literal :=
  if s = "None" then some none
  else if s = "True" then some (bool true)
  else if s = "False" then some (bool false)
  else if s = "nan" then some (float .nan)
  else if s = "inf" then some (float (.infinity false))
  else if s = "-inf" then some (float (.infinity true))
  else Option.none

/-- The characters of words and numbers. -/
def IsWordChar (c : Char) : Prop := c.isAlphanum = true ∨ c ∈ ['-', '+', '.']

theorem isWordChar_of_isNumberChar {c : Char} (h : IsNumberChar c) : IsWordChar c := by
  rcases h with h | h
  · exact .inl (by simp [Char.isAlphanum, h])
  · simp only [List.mem_cons, List.not_mem_nil, or_false] at h
    rcases h with rfl | rfl | rfl | rfl <;> simp [IsWordChar]

variable {l l' : Literal}

theorem IsWord.ofWord_text (h : IsWord l) : ofWord l.text = some l := by
  cases h with
  | none | nan => rfl
  | bool b => cases b <;> rfl
  | infinity negative => cases negative <;> rfl

theorem IsWord.isWordChar (h : IsWord l) : ∀ c ∈ l.text.toList, IsWordChar c := by
  cases h with
  | none | nan => simp [text, floatText, IsWordChar]
  | bool b => cases b <;> simp [text, IsWordChar]
  | infinity negative => cases negative <;> simp [text, floatText, IsWordChar]

/-- No word consists of the characters of numbers. -/
theorem IsWord.exists_letter (h : IsWord l) : ∃ c ∈ l.text.toList, ¬ IsNumberChar c := by
  cases h with
  | none | nan => exact ⟨'n', by simp [text, floatText], by simp [IsNumberChar]⟩
  | bool b =>
    cases b with
    | false => exact ⟨'F', by simp [text], by simp [IsNumberChar]⟩
    | true => exact ⟨'T', by simp [text], by simp [IsNumberChar]⟩
  | infinity negative =>
    refine ⟨'n', ?_, by simp [IsNumberChar]⟩
    cases negative <;> simp [text, floatText]

theorem IsNumber.isNumberChar (h : IsNumber l) : ∀ c ∈ l.text.toList, IsNumberChar c := by
  intro c hc
  cases h with
  | int n =>
    rw [text, toList_repr] at hc
    rcases mem_signed hc with hc | rfl | hc
    · exact .inl hc
    · exact .inr (by simp)
    · cases hc
  | finite negative rank => exact Binary64.isNumberChar_of_mem_finiteText hc

theorem IsNumber.text_ne_nil (h : IsNumber l) : l.text.toList ≠ [] := by
  cases h with
  | int n => simp [text, toList_repr, signed, Nat.toDigits_ne_nil]
  | finite negative rank =>
    rcases Binary64.mem_finiteText numberStyle negative rank with hm | hm <;>
      exact List.ne_nil_of_mem hm

theorem IsNumber.eq_of_text_eq (h : IsNumber l) (h' : IsNumber l') (ht : l.text = l'.text) :
    l = l' := by
  cases h with
  | int n =>
    cases h' with
    | int n' =>
      have hlist := congrArg String.toList ht
      rw [text, text, toList_repr, toList_repr] at hlist
      rw [Int64.toInt_inj.mp (signed_inj List.not_mem_nil hlist)]
    | finite negative' rank' =>
      exact absurd ht (Binary64.repr_ne_finiteText _ n.toInt negative' rank')
  | finite negative rank =>
    cases h' with
    | int n' => exact absurd ht.symm (Binary64.repr_ne_finiteText _ n'.toInt negative rank)
    | finite negative' rank' =>
      obtain ⟨rfl, rfl⟩ := Binary64.finiteText_inj ht
      rfl

/-- The literals that hold no text and no other literals. -/
def IsAtom (l : Literal) : Prop := IsWord l ∨ IsNumber l

namespace IsAtom

theorem isWordChar (h : IsAtom l) : ∀ c ∈ l.text.toList, IsWordChar c := by
  rcases h with h | h
  · exact h.isWordChar
  · exact fun c hc => isWordChar_of_isNumberChar (h.isNumberChar c hc)

theorem text_ne_nil (h : IsAtom l) : l.text.toList ≠ [] := by
  rcases h with h | h
  · obtain ⟨c, hc, -⟩ := h.exists_letter
    exact List.ne_nil_of_mem hc
  · exact h.text_ne_nil

theorem eq_of_text_eq (h : IsAtom l) (h' : IsAtom l') (ht : l.text = l'.text) : l = l' := by
  rcases h with h | h <;> rcases h' with h' | h'
  · apply Option.some.inj
    rw [← h.ofWord_text, ht, h'.ofWord_text]
  · obtain ⟨c, hc, hn⟩ := h.exists_letter
    exact absurd (h'.isNumberChar c (ht ▸ hc)) hn
  · obtain ⟨c, hc, hn⟩ := h'.exists_letter
    exact absurd (h.isNumberChar c (ht ▸ hc)) hn
  · exact h.eq_of_text_eq h' ht

end IsAtom

/-! ## Tuples -/

theorem texts_eq (items : List Literal) : texts items = items.map text := by
  induction items with
  | nil => rfl
  | cons l items ih => rw [texts, ih, List.map_cons]

/-- What follows an item of a tuple that is not the only one. -/
def following : List Literal → List Char
  | [] => [')']
  | l :: items => ',' :: ' ' :: l.text.toList ++ following items

/-- What follows the first item of a tuple. -/
def followingFirst (items : List Literal) : List Char :=
  if items = [] then [',', ')'] else following items

/-- What follows the opening parenthesis of a tuple. -/
def contents : List Literal → List Char
  | [] => [')']
  | l :: items => l.text.toList ++ followingFirst items

theorem intercalate_append_paren (l : Literal) (items : List Literal) :
    [',', ' '].intercalate (l.text.toList :: items.map fun l => l.text.toList) ++ [')'] =
      l.text.toList ++ following items := by
  induction items generalizing l with
  | nil => simp [following]
  | cons m items ih =>
    rw [List.map_cons, List.intercalate_cons_cons, List.append_assoc, List.append_assoc, ih m,
      following]
    rfl

theorem toList_text_tuple (items : List Literal) :
    (tuple items).text.toList = '(' :: contents items := by
  have hcomma : ", ".toList = [',', ' '] := rfl
  match items with
  | [] => rfl
  | [l] => simp [text, texts, contents, followingFirst]
  | l :: m :: items =>
    have hitems := intercalate_append_paren l (m :: items)
    simpa [text, texts_eq, String.toList_intercalate, contents, followingFirst, hcomma,
      Function.comp_def] using hitems

mutual

/-- Induction over literals: a tuple after its items, and all atoms alike. -/
theorem induction {P : Literal → Prop} (atom : ∀ l, IsAtom l → P l) (string : ∀ s, P (str s))
    (items : ∀ ls : List Literal, (∀ l ∈ ls, P l) → P (tuple ls)) : ∀ l, P l
  | none => atom none (.inl .none)
  | bool b => atom (bool b) (.inl (.bool b))
  | int n => atom (int n) (.inr (.int n))
  | float .nan => atom (float .nan) (.inl .nan)
  | float (.infinity negative) => atom (float (.infinity negative)) (.inl (.infinity negative))
  | float (.finite negative rank) =>
      atom (float (.finite negative rank)) (.inr (.finite negative rank))
  | str s => string s
  | tuple ls => items ls (induction_items atom string items ls)
termination_by structural l => l

theorem induction_items {P : Literal → Prop} (atom : ∀ l, IsAtom l → P l)
    (string : ∀ s, P (str s)) (items : ∀ ls : List Literal, (∀ l ∈ ls, P l) → P (tuple ls)) :
    ∀ ls : List Literal, ∀ l ∈ ls, P l
  | [] => fun _ h => absurd h List.not_mem_nil
  | l :: ls => by
      have hl := induction atom string items l
      have hls := induction_items atom string items ls
      intro m hm
      rcases List.mem_cons.mp hm with rfl | hm
      · exact hl
      · exact hls m hm
termination_by structural ls => ls

end

/-! ## Printable spellings -/

theorem isPrintable_of_isAlphanum {c : Char} (h : c.isAlphanum = true) : isPrintable c = true := by
  have hrange (low high : Char) (hlow : 0x20 ≤ low.toNat) (hhigh : high.toNat < 0x7f)
      (hc : low.toNat ≤ c.toNat ∧ c.toNat ≤ high.toNat) : 0x20 ≤ c.toNat ∧ c.toNat < 0x7f :=
    ⟨Nat.le_trans hlow hc.1, Nat.lt_of_le_of_lt hc.2 hhigh⟩
  have hlt : 0x20 ≤ c.toNat ∧ c.toNat < 0x7f := by
    rcases Bool.or_eq_true_iff.mp h with h | h
    · rcases Bool.or_eq_true_iff.mp h with h | h
      · exact hrange 'A' 'Z' (by decide) (by decide) (of_decide_eq_true h)
      · exact hrange 'a' 'z' (by decide) (by decide)
          ((Bool.and_eq_true_iff.mp h).imp of_decide_eq_true of_decide_eq_true)
    · exact hrange '0' '9' (by decide) (by decide) (Char.isDigit_iff_toNat.mp h)
  simp [isPrintable, hlt.1, hlt.2, Nat.lt_trans hlt.2]

theorem isPrintable_of_isWordChar {c : Char} (h : IsWordChar c) : isPrintable c = true := by
  rcases h with h | h
  · exact isPrintable_of_isAlphanum h
  · simp only [List.mem_cons, List.not_mem_nil, or_false] at h
    rcases h with rfl | rfl | rfl <;> rfl

/-- The code of a character is printable, even if the character is not. -/
theorem isPrintable_of_mem_escape {c : Char} : ∀ d ∈ escape c, isPrintable d = true := by
  have hpair {a b : Char} (ha : isPrintable a = true) (hb : isPrintable b = true) :
      ∀ d ∈ [a, b], isPrintable d = true := by simp [ha, hb]
  unfold escape
  split
  · exact hpair rfl rfl
  split
  · exact hpair rfl rfl
  split
  · exact hpair rfl rfl
  split
  · exact hpair rfl rfl
  split
  · exact hpair rfl rfl
  split
  · exact hpair rfl rfl
  split
  next hc => simp [hc]
  · intro d hd
    simp only [List.cons_append, List.mem_cons, List.mem_append, List.not_mem_nil, or_false] at hd
    rcases hd with rfl | rfl | rfl | hd | rfl
    · rfl
    · rfl
    · rfl
    · exact isPrintable_of_isAlphanum (isAlphanum_of_mem_toDigits hd)
    · rfl

theorem isPrintable_of_mem_quoted (s : String) : ∀ c ∈ (quoted s).toList, isPrintable c = true := by
  intro c hc
  rw [quoted, toList_quoteWith, List.cons_append, List.mem_cons, List.mem_append,
    List.mem_flatMap] at hc
  rcases hc with rfl | ⟨d, -, hc⟩ | hc
  · rfl
  · exact isPrintable_of_mem_escape c hc
  · rw [List.mem_singleton.mp hc]
    rfl

theorem IsAtom.isPrintable (h : IsAtom l) : ∀ c ∈ l.text.toList, isPrintable c = true :=
  fun c hc => isPrintable_of_isWordChar (h.isWordChar c hc)

theorem isPrintable_of_mem_following {items : List Literal}
    (h : ∀ l ∈ items, ∀ c ∈ l.text.toList, isPrintable c = true) :
    ∀ c ∈ following items, isPrintable c = true := by
  induction items with
  | nil =>
    intro c hc
    rw [List.mem_singleton.mp hc]
    rfl
  | cons l items ih =>
    intro c hc
    simp only [following, List.cons_append, List.mem_cons, List.mem_append] at hc
    rcases hc with rfl | rfl | hc | hc
    · rfl
    · rfl
    · exact h l List.mem_cons_self c hc
    · exact ih (fun m hm => h m (List.mem_cons_of_mem l hm)) c hc

theorem isPrintable_of_mem_tuple {items : List Literal}
    (h : ∀ l ∈ items, ∀ c ∈ l.text.toList, isPrintable c = true) :
    ∀ c ∈ (tuple items).text.toList, isPrintable c = true := by
  have hpair : ∀ c ∈ [',', ')'], isPrintable c = true := by simp [isPrintable]
  intro c hc
  rw [toList_text_tuple, List.mem_cons] at hc
  rcases hc with rfl | hc
  · rfl
  cases items with
  | nil => exact hpair c (List.mem_cons_of_mem _ hc)
  | cons l items =>
    rw [contents, List.mem_append] at hc
    rcases hc with hc | hc
    · exact h l List.mem_cons_self c hc
    · unfold followingFirst at hc
      split at hc
      · exact hpair c hc
      · exact isPrintable_of_mem_following (fun m hm => h m (List.mem_cons_of_mem l hm)) c hc

/-- A literal is spelled in printable characters, whatever strings are in it. -/
theorem isPrintable_of_mem_text (l : Literal) : ∀ c ∈ l.text.toList, isPrintable c = true := by
  induction l using induction with
  | atom l h => exact h.isPrintable
  | string s => exact isPrintable_of_mem_quoted s
  | items ls ih => exact isPrintable_of_mem_tuple ih

end DeferredIR.Literal
