import DeferredIR.Decimal.Shortest
import Mathlib.Order.Monotone.Basic
import Mathlib.Tactic.Ring

/-!
# Reading decimals back

Each decimal reads back as at most one magnitude: the intervals of decimals that do are bounded by
the midpoints between neighbouring magnitudes, and of two intervals that meet in a midpoint only the
one of the even rank contains it. A shortest decimal reads back as the magnitude it is made from, so
two magnitudes have shortest decimals of two values.
-/

namespace DeferredIR

namespace Binary64

theorem twoPow_pos (k : Nat) : 0 < twoPow k := Nat.pow_pos (by decide)

theorem twoPow_succ (k : Nat) : twoPow (k + 1) = 2 * twoPow k := Nat.mul_comm _ _

/-- The magnitude with exponent part `e` and the given fraction. -/
theorem magnitude_add {e fraction : Nat} (h : fraction < impliedBit) :
    magnitude (e * impliedBit + fraction) =
      match e with
      | 0 => fraction
      | e + 1 => (impliedBit + fraction) * twoPow e := by
  have hpos : 0 < impliedBit := Nat.zero_lt_of_lt h
  have hdiv : (e * impliedBit + fraction) / impliedBit = e := by
    rw [Nat.mul_comm, Nat.mul_add_div hpos, Nat.div_eq_of_lt h, Nat.add_zero]
  have hmod : (e * impliedBit + fraction) % impliedBit = fraction := by
    rw [Nat.mul_comm, Nat.mul_add_mod, Nat.mod_eq_of_lt h]
  have hunfold (rank : Nat) :
      magnitude rank =
        match rank / impliedBit with
        | 0 => rank % impliedBit
        | e + 1 => (impliedBit + rank % impliedBit) * twoPow e := rfl
  rw [hunfold, hdiv, hmod]

theorem magnitude_lt_succ (rank : Nat) : magnitude rank < magnitude (rank + 1) := by
  have hpos : 0 < impliedBit := by decide
  obtain ⟨e, fraction, hlt, rfl⟩ :
      ∃ e fraction, fraction < impliedBit ∧ rank = e * impliedBit + fraction :=
    ⟨rank / impliedBit, rank % impliedBit, Nat.mod_lt _ hpos, (Nat.div_add_mod' _ _).symm⟩
  rw [magnitude_add hlt, Nat.add_assoc]
  by_cases hcarry : fraction + 1 < impliedBit
  · rw [magnitude_add hcarry]
    cases e with
    | zero => exact Nat.lt_succ_self _
    | succ e => exact Nat.mul_lt_mul_of_pos_right (by omega) (twoPow_pos e)
  · -- The fraction is full, so the next magnitude has the next exponent.
    have hfull : fraction + 1 = impliedBit := by omega
    have hnext : e * impliedBit + (fraction + 1) = (e + 1) * impliedBit + 0 := by
      rw [hfull, Nat.add_zero, Nat.succ_mul]
    rw [hnext, magnitude_add hpos]
    cases e with
    | zero =>
      have hone : twoPow 0 = 1 := rfl
      simp only [hone]
      omega
    | succ e =>
      simp only [twoPow_succ, Nat.add_zero, ← Nat.mul_assoc]
      exact Nat.mul_lt_mul_of_pos_right (by omega) (twoPow_pos e)

theorem strictMono_magnitude : StrictMono magnitude := strictMono_nat_of_lt_succ magnitude_lt_succ

/-- Twice the point between a magnitude and the one below it. -/
def halfway (rank : Nat) : Nat := magnitude (rank - 1) + magnitude rank

theorem strictMono_halfway : StrictMono halfway := by
  refine strictMono_nat_of_lt_succ fun rank => ?_
  have hbelow : magnitude (rank - 1) ≤ magnitude rank :=
    strictMono_magnitude.monotone (Nat.sub_le rank 1)
  exact Nat.add_lt_add_of_le_of_lt hbelow (magnitude_lt_succ rank)

theorem halfway_lt {rank : Nat} (h : 0 < rank) : halfway rank < 2 * magnitude rank := by
  have hbelow := strictMono_magnitude (Nat.sub_lt h Nat.one_pos)
  rw [Nat.two_mul]
  exact Nat.add_lt_add_right hbelow _

theorem lt_halfway_succ (rank : Nat) : 2 * magnitude rank < halfway (rank + 1) := by
  rw [Nat.two_mul]
  exact Nat.add_lt_add_left (magnitude_lt_succ rank) _

end Binary64

namespace Decimal

open Binary64

variable {d d' : Decimal} {rank rank' : Nat}

theorem tenPow_pos (k : Nat) : 0 < tenPow k := Nat.pow_pos (by decide)

theorem tenPow_zero : tenPow 0 = 1 := rfl

theorem tenPow_succ (k : Nat) : tenPow (k + 1) = tenPow k * 10 := rfl

theorem den_pos (d : Decimal) : 0 < d.den := tenPow_pos _

/-- The two decimals are the same number. -/
def SameNumber (d d' : Decimal) : Prop := d.num * d'.den = d'.num * d.den

theorem readsAs_iff :
    d.readsAs rank = true ↔
      if rank % 2 = 0 then
        halfway rank * d.den ≤ d.num * twoPow 1075 ∧
          d.num * twoPow 1075 ≤ halfway (rank + 1) * d.den
      else
        halfway rank * d.den < d.num * twoPow 1075 ∧
          d.num * twoPow 1075 < halfway (rank + 1) * d.den := by
  unfold readsAs halfway
  rw [Nat.add_sub_cancel]
  split <;> simp

/-- A decimal reads back as one magnitude only. -/
theorem eq_of_readsAs (h : d.readsAs rank = true) (h' : d.readsAs rank' = true) : rank = rank' := by
  have hlt : ∀ {rank rank' : Nat}, d.readsAs rank = true → d.readsAs rank' = true →
      ¬ rank < rank' := by
    intro rank rank' h h' hlt
    rw [readsAs_iff] at h h'
    generalize d.num * twoPow 1075 = scaled at h h'
    have hmeet : halfway (rank + 1) * d.den ≤ halfway rank' * d.den :=
      Nat.mul_le_mul_right _ (strictMono_halfway.monotone hlt)
    have hadjacent : halfway rank' ≤ halfway (rank + 1) := by
      refine Nat.le_of_mul_le_mul_right ?_ d.den_pos
      split at h <;> split at h' <;> omega
    have hnext : rank' = rank + 1 :=
      Nat.le_antisymm (strictMono_halfway.le_iff_le.mp hadjacent) hlt
    -- The two intervals meet, and only one of the ranks is even.
    subst hnext
    split at h <;> split at h' <;> omega
  exact Nat.le_antisymm (Nat.le_of_not_lt (hlt h' h)) (Nat.le_of_not_lt (hlt h h'))

theorem SameNumber.readsAs_eq (h : SameNumber d d') (rank : Nat) :
    d.readsAs rank = d'.readsAs rank := by
  rw [Bool.eq_iff_iff, readsAs_iff, readsAs_iff]
  generalize twoPow 1075 = scale
  have hcross : d.num * scale * d'.den = d'.num * scale * d.den := by
    rw [Nat.mul_right_comm, h, Nat.mul_right_comm]
  have hle (m : Nat) : m * d.den ≤ d.num * scale ↔ m * d'.den ≤ d'.num * scale := by
    rw [← Nat.mul_le_mul_right_iff d'.den_pos, hcross, Nat.mul_right_comm,
      Nat.mul_le_mul_right_iff d.den_pos]
  have hge (m : Nat) : d.num * scale ≤ m * d.den ↔ d'.num * scale ≤ m * d'.den := by
    rw [← Nat.mul_le_mul_right_iff d'.den_pos, hcross, Nat.mul_right_comm m,
      Nat.mul_le_mul_right_iff d.den_pos]
  simp only [← Nat.not_le, hle, hge]

/-! ## Shortest decimals -/

theorem readsAs_of_onGrid? {ties : Ties} {k : Int} (h : onGrid? ties rank k = some d) :
    d.readsAs rank = true := by
  unfold onGrid? at h
  generalize magnitude rank * tenPow (-k).toNat = n, twoPow 1074 * tenPow k.toNat = m at h
  dsimp only at h
  split at h
  next hbelow habove =>
    split at h
    · cases h
      exact hbelow
    · cases h
      exact habove
  next hbelow _ =>
    cases h
    exact hbelow
  next _ habove =>
    cases h
    exact habove
  next => cases h

/-- A multiple of `2 ^ (-k)` with all its digits. -/
theorem num_mul_twoPow (m k : Nat) :
    (⟨m * Nat.pow 5 k, -k⟩ : Decimal).num * twoPow (k + 1) =
      2 * m * (⟨m * Nat.pow 5 k, -k⟩ : Decimal).den := by
  have hten : Nat.pow 5 k * twoPow k = tenPow k := (Nat.mul_pow 5 2 k).symm
  rw [num, den, Int.neg_neg, Int.toNat_natCast, Int.toNat_neg_natCast, tenPow_zero, twoPow_succ,
    ← hten]
  ring

theorem readsAs_exact (h : 0 < rank) : (exact rank).readsAs rank = true := by
  unfold exact
  generalize hk : (1074 : Nat) = k
  have hexponent : (-1074 : Int) = -k := by rw [← hk]; rfl
  have hscale : k + 1 = 1075 := by rw [← hk]
  have hnum := num_mul_twoPow (magnitude rank) k
  rw [hscale] at hnum
  rw [hexponent]
  generalize (⟨magnitude rank * Nat.pow 5 k, -k⟩ : Decimal) = d at hnum ⊢
  have hlow := Nat.mul_lt_mul_of_pos_right (halfway_lt h) d.den_pos
  have hhigh := Nat.mul_lt_mul_of_pos_right (lt_halfway_succ rank) d.den_pos
  rw [readsAs_iff, hnum]
  split
  · exact ⟨Nat.le_of_lt hlow, Nat.le_of_lt hhigh⟩
  · exact ⟨hlow, hhigh⟩

/-- A zero may be moved from the digits into the exponent. -/
theorem sameNumber_drop (h : d.digits % 10 = 0) :
    SameNumber ⟨d.digits / 10, d.exponent + 1⟩ d := by
  obtain ⟨digits, exponent⟩ := d
  obtain ⟨m, rfl⟩ := Nat.dvd_of_mod_eq_zero h
  rw [SameNumber, num, num, den, den]
  simp only [Nat.mul_div_cancel_left m (by decide : 0 < 10)]
  by_cases he : 0 ≤ exponent
  · have hup : (exponent + 1).toNat = exponent.toNat + 1 := by omega
    have hzero : (-(exponent + 1)).toNat = 0 ∧ (-exponent).toNat = 0 := by omega
    rw [hup, hzero.1, hzero.2, tenPow_succ]
    ring
  · have hup : (-exponent).toNat = (-(exponent + 1)).toNat + 1 := by omega
    have hzero : (exponent + 1).toNat = 0 ∧ exponent.toNat = 0 := by omega
    rw [hup, hzero.1, hzero.2, tenPow_succ]
    ring

theorem readsAs_dropZeros (n : Nat) (d : Decimal) (rank : Nat) :
    (dropZeros n d).readsAs rank = d.readsAs rank := by
  induction n generalizing d with
  | zero => rfl
  | succ n ih =>
    rw [dropZeros]
    split
    · exact (ih _).trans ((sameNumber_drop ‹_›).readsAs_eq rank)
    · rfl

/-- A shortest decimal reads back as the magnitude it is made from. -/
theorem readsAs_shortest (ties : Ties) (rank : Nat) : (shortest ties rank).readsAs rank = true := by
  rw [shortest]
  split
  · subst rank
    decide +kernel
  · rw [readsAs_dropZeros]
    cases h : (List.range 17).findSome? fun i : Nat => onGrid? ties rank (leading rank - i) with
    | none => exact readsAs_exact (Nat.pos_of_ne_zero ‹_›)
    | some d =>
      obtain ⟨i, -, hi⟩ := List.exists_of_findSome?_eq_some h
      exact readsAs_of_onGrid? hi

/-- The shortest decimals of two magnitudes are two numbers. -/
theorem SameNumber.rank_eq {ties : Ties}
    (h : SameNumber (shortest ties rank) (shortest ties rank')) : rank = rank' := by
  have hread := readsAs_shortest ties rank
  rw [h.readsAs_eq] at hread
  exact eq_of_readsAs hread (readsAs_shortest ties rank')

end Decimal

end DeferredIR
