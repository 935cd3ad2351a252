import DeferredIR.Decimal.Layout
import DeferredIR.Proofs.Decimal.Reading
import DeferredIR.Proofs.Text.Codes

/-!
# The text of a number determines it

A decimal is written with a point, or with an exponent, or both, so its text is cut into runs of
digits in one way only. These say which number was written, and with the shortest decimals of
`Decimal.shortest` that is one double.
-/

namespace DeferredIR

open Text

namespace Decimal

variable {n n' places places' : Nat} {d d' : Decimal} {s : Style}

/-! ## With a point -/

@[simp] theorem toList_fixed (n places : Nat) :
    (fixed n places).toList = Nat.toDigits 10 (n / tenPow places) ++
      '.' :: (Nat.toDigits 10 (n % tenPow places)).leftpad places '0' := by
  simp [fixed, padded, Nat.toList_repr]

/-- The characters of a number without an exponent. -/
def IsPlain (c : Char) : Prop := c.isDigit = true ∨ c = '.'

theorem isPlain_of_mem_fixed {c : Char} (h : c ∈ (fixed n places).toList) : IsPlain c := by
  rw [toList_fixed, List.mem_append, List.mem_cons, List.leftpad, List.mem_append] at h
  rcases h with h | rfl | h | h
  · exact .inl (isDigit_of_mem_toDigits h)
  · exact .inr rfl
  · exact .inl ((List.mem_replicate.mp h).2 ▸ rfl)
  · exact .inl (isDigit_of_mem_toDigits h)

/-- The digits after the point are as many as the places. -/
theorem length_places (hplaces : 0 < places) (n : Nat) :
    ((Nat.toDigits 10 (n % tenPow places)).leftpad places '0').length = places := by
  rw [List.length_leftpad, Nat.max_eq_left]
  exact (Nat.length_toDigits_le_iff (by decide) hplaces).mpr (Nat.mod_lt _ (tenPow_pos places))

theorem fixed_inj (hplaces : 0 < places) (hplaces' : 0 < places')
    (h : fixed n places = fixed n' places') : n = n' ∧ places = places' := by
  have hlist := congrArg String.toList h
  simp only [toList_fixed] at hlist
  obtain ⟨hwhole, hpart⟩ := append_inj_of_forall (fun c => isDigit_of_mem_toDigits)
    (fun c => isDigit_of_mem_toDigits) (by simp) (by simp) hlist
  have hpart := (List.cons_eq_cons.mp hpart).2
  have hlength := congrArg List.length hpart
  rw [length_places hplaces, length_places hplaces'] at hlength
  subst hlength
  have hrest := leftpad_toDigits_inj hpart
  refine ⟨?_, rfl⟩
  rw [← Nat.div_add_mod n (tenPow places), toDigits_inj hwhole, hrest, Nat.div_add_mod]

/-- A positional form is the number it is made from, in some places after the point. -/
theorem exists_positional_eq (d : Decimal) :
    ∃ n places, 0 < places ∧ positional d = fixed n places ∧
      d.num * tenPow places = n * d.den := by
  rw [positional]
  split
  · refine ⟨_, 1, Nat.one_pos, rfl, ?_⟩
    have hzero : (-d.exponent).toNat = 0 := by omega
    rw [num, den, hzero, tenPow_succ 0, tenPow_succ d.exponent.toNat, tenPow_zero]
    ring
  · refine ⟨_, _, by omega, rfl, ?_⟩
    have hzero : d.exponent.toNat = 0 := by omega
    rw [num, den, hzero, tenPow_zero, Nat.mul_one]

theorem sameNumber_of_positional_eq (h : positional d = positional d') : SameNumber d d' := by
  obtain ⟨n, places, hpos, hd, hnum⟩ := exists_positional_eq d
  obtain ⟨n', places', hpos', hd', hnum'⟩ := exists_positional_eq d'
  obtain ⟨rfl, rfl⟩ := fixed_inj hpos hpos' (hd.symm.trans (h.trans hd'))
  refine Nat.eq_of_mul_eq_mul_right (tenPow_pos places) ?_
  rw [Nat.mul_right_comm, hnum, Nat.mul_right_comm d'.num, hnum']
  exact Nat.mul_right_comm ..

/-! ## With an exponent -/

/-- The digits of a scientific form, with a point after the first if there are more. -/
def mantissa (d : Decimal) : String :=
  if d.digits.repr.length - 1 = 0 then d.digits.repr
  else fixed d.digits (d.digits.repr.length - 1)

/-- A leading exponent with its sign. -/
def exponentText (s : Style) (lead : Int) : String :=
  (if lead < 0 then "-" else if s.plus then "+" else "") ++ lead.natAbs.repr

theorem toList_scientific (s : Style) (d : Decimal) :
    (scientific s d).toList = (mantissa d).toList ++ 'e' :: (exponentText s d.lead).toList := by
  simp [scientific, mantissa, exponentText]

theorem mantissa_inj (h : mantissa d = mantissa d') : d.digits = d'.digits := by
  have hpoint (n n' places : Nat) : n.repr ≠ fixed n' places := by
    intro he
    have hlist := congrArg String.toList he
    rw [Nat.toList_repr, toList_fixed] at hlist
    have hmem : '.' ∈ Nat.toDigits 10 n := hlist ▸ by simp
    cases isDigit_of_mem_toDigits hmem
  unfold mantissa at h
  split at h <;> split at h
  · have hlist := congrArg String.toList h
    rw [Nat.toList_repr, Nat.toList_repr] at hlist
    exact toDigits_inj hlist
  · exact absurd h (hpoint _ _ _)
  · exact absurd h.symm (hpoint _ _ _)
  · exact (fixed_inj (Nat.pos_of_ne_zero ‹_›) (Nat.pos_of_ne_zero ‹_›) h).1

theorem isPlain_of_mem_mantissa {c : Char} (h : c ∈ (mantissa d).toList) : IsPlain c := by
  unfold mantissa at h
  split at h
  · rw [Nat.toList_repr] at h
    exact .inl (isDigit_of_mem_toDigits h)
  · exact isPlain_of_mem_fixed h

/-- What stands before an exponent that is not negative. -/
def plusSign (s : Style) : List Char := if s.plus then ['+'] else []

theorem eq_plus_of_mem_plusSign {c : Char} (h : c ∈ plusSign s) : c = '+' := by
  unfold plusSign at h
  split at h
  · exact List.mem_singleton.mp h
  · cases h

theorem toList_exponentText (s : Style) (lead : Int) :
    (exponentText s lead).toList = signed (plusSign s) lead := by
  rw [exponentText, signed, plusSign, String.toList_append, Nat.toList_repr]
  congr 1
  split
  · rfl
  · split <;> rfl

theorem exponentText_inj {lead lead' : Int} (h : exponentText s lead = exponentText s lead') :
    lead = lead' := by
  have hdash : '-' ∉ plusSign s := fun hmem => by cases eq_plus_of_mem_plusSign hmem
  have hlist := congrArg String.toList h
  rw [toList_exponentText, toList_exponentText] at hlist
  exact signed_inj hdash hlist

theorem scientific_inj (h : scientific s d = scientific s d') : d = d' := by
  have hlist := congrArg String.toList h
  rw [toList_scientific, toList_scientific] at hlist
  have hend (l : List Char) : ∀ c ∈ ('e' :: l).head?, ¬ IsPlain c := by
    simp [IsPlain]
  obtain ⟨hmantissa, hexponent⟩ := append_inj_of_forall (fun c => isPlain_of_mem_mantissa)
    (fun c => isPlain_of_mem_mantissa) (hend _) (hend _) hlist
  have hdigits := mantissa_inj (String.toList_injective hmantissa)
  have hlead := exponentText_inj (String.toList_injective (List.cons_eq_cons.mp hexponent).2)
  obtain ⟨digits, exponent⟩ := d
  obtain ⟨digits', exponent'⟩ := d'
  obtain rfl : digits = digits' := hdigits
  simp only [lead] at hlead
  have hexponents : exponent = exponent' := by omega
  rw [hexponents]

/-! ## Both forms -/

theorem isPlain_of_mem_positional {c : Char} (h : c ∈ (positional d).toList) : IsPlain c := by
  obtain ⟨n, places, -, hd, -⟩ := exists_positional_eq d
  rw [hd] at h
  exact isPlain_of_mem_fixed h

theorem positional_ne_scientific : positional d ≠ scientific s d' := by
  intro h
  have hmem : 'e' ∈ (scientific s d').toList := by simp [toList_scientific]
  rw [← h] at hmem
  rcases isPlain_of_mem_positional hmem with hc | hc <;> cases hc

/-- Decimals with one text are one number. -/
theorem sameNumber_of_text_eq (h : d.text s = d'.text s) : SameNumber d d' := by
  unfold text at h
  split at h <;> split at h
  · exact sameNumber_of_positional_eq h
  · exact absurd h positional_ne_scientific
  · exact absurd h.symm positional_ne_scientific
  · rw [scientific_inj h, SameNumber]

/-- The text of a decimal starts with a digit. -/
theorem isDigit_of_text_eq_cons {c : Char} {l : List Char} (h : (d.text s).toList = c :: l) :
    c.isDigit = true := by
  have hdigits {k : Nat} {l' : List Char} (he : Nat.toDigits 10 k ++ l' = c :: l) :
      c.isDigit = true := by
    rcases List.append_eq_cons_iff.mp he with ⟨hnil, -⟩ | ⟨_, hk, -⟩
    · exact absurd hnil Nat.toDigits_ne_nil
    · exact isDigit_of_mem_toDigits (hk ▸ List.mem_cons_self)
  unfold text at h
  split at h
  · obtain ⟨n, places, -, hd, -⟩ := exists_positional_eq d
    rw [hd, toList_fixed] at h
    exact hdigits h
  · rw [toList_scientific, mantissa] at h
    split at h
    · rw [Nat.toList_repr] at h
      exact hdigits h
    · rw [toList_fixed, List.append_assoc] at h
      exact hdigits h

/-- The text of a decimal has a point or an exponent. -/
theorem mem_text (s : Style) (d : Decimal) :
    '.' ∈ (d.text s).toList ∨ 'e' ∈ (d.text s).toList := by
  unfold text
  split
  · obtain ⟨n, places, -, hd, -⟩ := exists_positional_eq d
    simp [hd]
  · simp [toList_scientific]

/-! ## Characters -/

theorem IsPlain.isNumberChar {c : Char} (h : IsPlain c) : IsNumberChar c := by
  rcases h with h | rfl
  · exact .inl h
  · exact .inr (by simp)

theorem isNumberChar_of_mem_text {c : Char} (h : c ∈ (d.text s).toList) : IsNumberChar c := by
  unfold text at h
  split at h
  · exact (isPlain_of_mem_positional h).isNumberChar
  · rw [toList_scientific, toList_exponentText, List.mem_append, List.mem_cons] at h
    rcases h with h | rfl | h
    · exact (isPlain_of_mem_mantissa h).isNumberChar
    · exact .inr (by simp)
    · rcases mem_signed h with h | rfl | h
      · exact .inl h
      · exact .inr (by simp)
      · exact .inr (by simp [eq_plus_of_mem_plusSign h])

end Decimal

namespace Binary64

variable {s : Decimal.Style} {negative negative' : Bool} {rank rank' : Fin infiniteRank} {c : Char}

theorem toList_finiteText (s : Decimal.Style) (negative : Bool) (rank : Fin infiniteRank) :
    (finiteText s negative rank).toList =
      (if negative then ['-'] else []) ++ ((Decimal.shortest s.ties rank).text s).toList := by
  have hsign : (if negative then "-" else "").toList = if negative then ['-'] else [] := by
    cases negative <;> rfl
  rw [finiteText, String.toList_append, hsign]

/-- The text of a finite double determines it. -/
theorem finiteText_inj (h : finiteText s negative rank = finiteText s negative' rank') :
    negative = negative' ∧ rank = rank' := by
  have hlist := congrArg String.toList h
  rw [toList_finiteText, toList_finiteText] at hlist
  have hsign : negative = negative' := by
    cases negative <;> cases negative'
    · rfl
    · cases Decimal.isDigit_of_text_eq_cons hlist
    · cases Decimal.isDigit_of_text_eq_cons hlist.symm
    · rfl
  subst hsign
  have htext := String.toList_injective (List.append_cancel_left hlist)
  exact ⟨rfl, Fin.ext (Decimal.sameNumber_of_text_eq htext).rank_eq⟩

theorem isNumberChar_of_mem_finiteText (h : c ∈ (finiteText s negative rank).toList) :
    IsNumberChar c := by
  rw [toList_finiteText, List.mem_append] at h
  rcases h with h | h
  · cases negative with
    | true => exact .inr (by simp_all)
    | false => cases h
  · exact Decimal.isNumberChar_of_mem_text h

theorem mem_finiteText (s : Decimal.Style) (negative : Bool) (rank : Fin infiniteRank) :
    '.' ∈ (finiteText s negative rank).toList ∨ 'e' ∈ (finiteText s negative rank).toList := by
  rw [toList_finiteText, List.mem_append, List.mem_append]
  exact (Decimal.mem_text s _).imp .inr .inr

/-- A double is never written like an integer. -/
theorem repr_ne_finiteText (s : Decimal.Style) (n : Int) (negative : Bool)
    (rank : Fin infiniteRank) : n.repr ≠ finiteText s negative rank := by
  intro he
  have hmem := mem_finiteText s negative rank
  rw [← he, toList_repr] at hmem
  rcases hmem with hm | hm <;> rcases mem_signed hm with hm | hm | hm <;> cases hm

end Binary64

end DeferredIR
