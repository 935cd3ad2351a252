import DeferredIR.Text.Quoted
import Mathlib.Data.List.Basic

/-!
# Texts that can be read back

A text determines what it was made of if each of its parts says where it ends: a number ends where a
character follows that no number has, a quoted text at the first quote that is no part of a code.
-/

namespace DeferredIR.Text

/-! ## Parts of one kind of characters -/

/-- A part of characters with a property ends where a character without it follows. -/
theorem append_inj_of_forall {p : Char → Prop} {part part' rest rest' : List Char}
    (hpart : ∀ c ∈ part, p c) (hpart' : ∀ c ∈ part', p c) (hrest : ∀ c ∈ rest.head?, ¬ p c)
    (hrest' : ∀ c ∈ rest'.head?, ¬ p c) (h : part ++ rest = part' ++ rest') :
    part = part' ∧ rest = rest' := by
  induction part generalizing part' with
  | nil =>
    cases part' with
    | nil => exact ⟨rfl, h⟩
    | cons c part' =>
      obtain rfl : rest = c :: (part' ++ rest') := h
      exact absurd (hpart' c List.mem_cons_self) (hrest c rfl)
  | cons c part ih =>
    cases part' with
    | nil =>
      obtain rfl : c :: (part ++ rest) = rest' := h
      exact absurd (hpart c List.mem_cons_self) (hrest' c rfl)
    | cons c' part' =>
      obtain ⟨rfl, htail⟩ := List.cons_eq_cons.mp h
      obtain ⟨rfl, hr⟩ := ih (fun a ha => hpart a (List.mem_cons_of_mem c ha))
        (fun a ha => hpart' a (List.mem_cons_of_mem c ha)) htail
      exact ⟨rfl, hr⟩

/-! ## Digits -/

theorem isDigit_of_mem_toDigits {n : Nat} {c : Char} (h : c ∈ Nat.toDigits 10 n) :
    c.isDigit = true :=
  Nat.isDigit_of_mem_toDigits (by decide) (by decide) h

theorem toDigits_inj {n n' : Nat} (h : Nat.toDigits 10 n = Nat.toDigits 10 n') : n = n' := by
  have hvalue := congrArg (Nat.ofDigitChars 10 · 0) h
  simpa only [Nat.ofDigitChars_ten_toDigits] using hvalue

/-- The digits of a number, filled up with zeros, determine it. -/
theorem leftpad_toDigits_inj {width n n' : Nat}
    (h : (Nat.toDigits 10 n).leftpad width '0' = (Nat.toDigits 10 n').leftpad width '0') :
    n = n' := by
  have hvalue (n : Nat) : Nat.ofDigitChars 10 ((Nat.toDigits 10 n).leftpad width '0') 0 = n := by
    rw [List.leftpad, Nat.ofDigitChars_append, Nat.ofDigitChars_replicate_zero, Nat.mul_zero,
      Nat.ofDigitChars_ten_toDigits]
  rw [← hvalue n, h, hvalue n']

/-- The digits of an integer after its sign, which is `plus` for one that is not negative. -/
def signed (plus : List Char) (n : Int) : List Char :=
  (if n < 0 then ['-'] else plus) ++ Nat.toDigits 10 n.natAbs

theorem mem_signed {plus : List Char} {n : Int} {c : Char} (h : c ∈ signed plus n) :
    c.isDigit = true ∨ c = '-' ∨ c ∈ plus := by
  rcases List.mem_append.mp h with h | h
  · split at h
    · exact .inr (.inl (List.mem_singleton.mp h))
    · exact .inr (.inr h)
  · exact .inl (isDigit_of_mem_toDigits h)

theorem dash_mem_signed {plus : List Char} (hplus : '-' ∉ plus) {n : Int} :
    '-' ∈ signed plus n ↔ n < 0 := by
  have hdigits : '-' ∉ Nat.toDigits 10 n.natAbs := fun h => by cases isDigit_of_mem_toDigits h
  rw [signed, List.mem_append, or_iff_left hdigits]
  split <;> simp [*]

theorem signed_inj {plus : List Char} (hplus : '-' ∉ plus) {n n' : Int}
    (h : signed plus n = signed plus n') : n = n' := by
  have hsign : n < 0 ↔ n' < 0 := by rw [← dash_mem_signed hplus, h, dash_mem_signed hplus]
  simp only [signed, hsign] at h
  have habs := toDigits_inj (List.append_cancel_left h)
  omega

theorem toList_repr (n : Int) : n.repr.toList = signed [] n := by
  rw [Int.repr_eq_if, signed]
  by_cases hneg : n < 0
  · rw [if_neg (by omega), if_pos hneg, String.toList_append, Nat.toList_repr]
    congr 2
    omega
  · rw [if_pos (by omega), if_neg hneg, Nat.toList_repr, List.nil_append]
    congr 1
    omega

/-! ## Hexadecimal digits -/

/-- The number that a hexadecimal digit stands for. -/
def digitValue (c : Char) : Nat := if c.isDigit then c.toNat - 48 else c.toNat - 87

theorem digitValue_digitChar {n : Nat} (h : n < 16) : digitValue n.digitChar = n := by
  have hall : ∀ n < 16, digitValue n.digitChar = n := by decide
  exact hall n h

/-- The number that hexadecimal digits stand for. -/
def hexValue (digits : List Char) : Nat := digits.foldl (fun n c => 16 * n + digitValue c) 0

theorem hexValue_append_digit (digits : List Char) (c : Char) :
    hexValue (digits ++ [c]) = 16 * hexValue digits + digitValue c := by
  rw [hexValue, List.foldl_append]
  rfl

theorem hexValue_toDigits (n : Nat) : hexValue (Nat.toDigits 16 n) = n := by
  induction n using Nat.strongRecOn with
  | ind n ih =>
    rw [Nat.toDigits_eq_if (by decide)]
    split
    · have hone : hexValue [n.digitChar] = digitValue n.digitChar := Nat.zero_add _
      exact hone.trans (digitValue_digitChar ‹_›)
    · rw [hexValue_append_digit, ih (n / 16) (by omega), digitValue_digitChar (by omega),
        Nat.div_add_mod]

theorem isAlphanum_of_mem_toDigits {n : Nat} {c : Char} (h : c ∈ Nat.toDigits 16 n) :
    c.isAlphanum = true := by
  have hdigit : ∀ n < 16, n.digitChar.isAlphanum = true := by decide
  induction n using Nat.strongRecOn with
  | ind n ih =>
    rw [Nat.toDigits_eq_if (by decide)] at h
    split at h
    · rw [List.mem_singleton.mp h]
      exact hdigit n ‹_›
    · rcases List.mem_append.mp h with h | h
      · exact ih (n / 16) (by omega) h
      · rw [List.mem_singleton.mp h]
        exact hdigit (n % 16) (Nat.mod_lt n (by decide))

/-! ## Characters of numbers -/

/-- The characters of numbers. -/
def IsNumberChar (c : Char) : Prop := c.isDigit = true ∨ c ∈ ['-', '+', '.', 'e']

/-! ## Quoted texts -/

/-- `unescape` reads one character from its code, and none from a quote. -/
structure Decodes (escape : Char → List Char) (unescape : List Char → Option (Char × List Char)) :
    Prop where
  code : ∀ c rest, unescape (escape c ++ rest) = some (c, rest)
  quote : ∀ rest, unescape ('"' :: rest) = none

namespace Decodes

variable {escape : Char → List Char} {unescape : List Char → Option (Char × List Char)}

theorem read_cons (h : Decodes escape unescape) (c : Char) (l rest : List Char) :
    unescape ((c :: l).flatMap escape ++ rest) = some (c, l.flatMap escape ++ rest) := by
  rw [List.flatMap_cons, List.append_assoc, h.code]

theorem flatMap_inj (h : Decodes escape unescape) {l l' rest rest' : List Char}
    (he : l.flatMap escape ++ '"' :: rest = l'.flatMap escape ++ '"' :: rest') :
    l = l' ∧ rest = rest' := by
  induction l generalizing l' with
  | nil =>
    cases l' with
    | nil => exact ⟨rfl, (List.cons_eq_cons.mp he).2⟩
    | cons c l' =>
      have hread := congrArg unescape he
      rw [h.read_cons] at hread
      cases (h.quote rest).symm.trans hread
  | cons c l ih =>
    have hread := congrArg unescape he
    rw [h.read_cons] at hread
    cases l' with
    | nil => cases hread.trans (h.quote rest')
    | cons c' l' =>
      rw [h.read_cons, Option.some.injEq, Prod.mk.injEq] at hread
      obtain ⟨rfl, htail⟩ := hread
      obtain ⟨rfl, hrest⟩ := ih htail
      exact ⟨rfl, hrest⟩

/-- A quoted text determines what is quoted, whatever follows it. -/
theorem quoteWith_inj (h : Decodes escape unescape) {s s' : String} {rest rest' : List Char}
    (he : (quoteWith escape s).toList ++ rest = (quoteWith escape s').toList ++ rest') :
    s = s' ∧ rest = rest' := by
  simp only [toList_quoteWith, List.cons_append, List.append_assoc, List.cons.injEq, true_and,
    List.nil_append] at he
  obtain ⟨hs, hrest⟩ := h.flatMap_inj he
  exact ⟨String.toList_injective hs, hrest⟩

end Decodes

end DeferredIR.Text
