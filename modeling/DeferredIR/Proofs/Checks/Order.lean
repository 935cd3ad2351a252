import DeferredIR.Proofs.Checks
import Mathlib.Order.Basic

/-!
# Checks in order

A check that looks at conditions one after the other reports the first one that is violated. The
conditions are ordered as they are looked at, so a sequence of checks reports the first violation of
all of them if the conditions of each check stand before those of the next.
-/

namespace DeferredIR.Check

variable {ε κ α : Type}

/-- Fails with `e` if `p` holds. -/
def refuseIf (p : Prop) [Decidable p] (e : ε) : Except ε Unit := if p then .error e else .ok ()

theorem refuseIf_bind (p : Prop) [Decidable p] (e : ε) (x : Except ε Unit) :
    (refuseIf p e >>= fun _ => x) = if p then .error e else x := by
  unfold refuseIf
  split <;> rfl

/-- The elements of a list may be checked along with their positions. -/
theorem forM_zipIdx (l : List α) (f : α → Except ε Unit) :
    l.forM f = l.zipIdx.forM fun p => f p.1 :=
  calc l.forM f = (l.zipIdx.map Prod.fst).forM f := by rw [List.zipIdx_map_fst]
    _ = l.zipIdx.forM fun p => f p.1 := List.forM_map

/-- Where `V c e` says that condition `c` is violated and that this is reported as `e`: `x` reports
a violation that stands before all others, and passes if there is none. -/
def ReportsFirst [LE κ] (x : Except ε Unit) (V : κ → ε → Prop) : Prop :=
  match x with
  | .ok () => ∀ c e, ¬ V c e
  | .error e => ∃ c, V c e ∧ ∀ d e', V d e' → c ≤ d

namespace ReportsFirst

section Preorder

variable [Preorder κ] {x y : Except ε Unit} {V W : κ → ε → Prop}

theorem congr (hx : ReportsFirst x V) (hVW : ∀ c e, V c e ↔ W c e) : ReportsFirst x W := by
  have heq : V = W := funext fun c => funext fun e => propext (hVW c e)
  rwa [← heq]

theorem refuseIf (p : Prop) [Decidable p] (c : κ) (e : ε) :
    ReportsFirst (Check.refuseIf p e) fun d e' => p ∧ d = c ∧ e' = e := by
  unfold Check.refuseIf
  split
  · refine ⟨c, ⟨‹p›, rfl, rfl⟩, ?_⟩
    rintro d _ ⟨-, rfl, -⟩
    exact le_rfl
  · exact fun _ _ h => absurd h.1 ‹¬p›

theorem bind (hx : ReportsFirst x V) (hy : ReportsFirst y W)
    (hlt : ∀ c e d e', V c e → W d e' → c < d) :
    ReportsFirst (x >>= fun _ => y) fun c e => V c e ∨ W c e := by
  cases x with
  | error e =>
    obtain ⟨c, hc, hfirst⟩ := hx
    refine ⟨c, .inl hc, fun d e' hd => ?_⟩
    rcases hd with hd | hd
    · exact hfirst d e' hd
    · exact le_of_lt (hlt c e d e' hc hd)
  | ok _ =>
    -- Nothing of `V` is violated, so `y` decides.
    have hnone : ∀ c e, V c e ∨ W c e ↔ W c e := fun c e => or_iff_right (hx c e)
    exact hy.congr fun c e => (hnone c e).symm

/-- The conditions of each element stand before those of the elements after it. -/
theorem forM {l : List α} {f : α → Except ε Unit} {V : α → κ → ε → Prop}
    (hf : ∀ a ∈ l, ReportsFirst (f a) (V a))
    (hl : l.Pairwise fun a b => ∀ c e d e', V a c e → V b d e' → c < d) :
    ReportsFirst (l.forM f) fun c e => ∃ a ∈ l, V a c e := by
  induction l with
  | nil => exact fun c e h => by simp at h
  | cons a l ih =>
    obtain ⟨ha, hl⟩ := List.pairwise_cons.mp hl
    obtain ⟨hfa, hfl⟩ := List.forall_mem_cons.mp hf
    refine (hfa.bind (ih hfl hl) ?_).congr fun c e => by simp
    rintro c e d e' hc ⟨b, hb, hd⟩
    exact ha b hb c e d e' hc hd

theorem eq_ok_iff (hx : ReportsFirst x V) : x = .ok () ↔ ∀ c e, ¬ V c e := by
  cases x with
  | ok _ => exact ⟨fun _ => hx, fun _ => rfl⟩
  | error e =>
    obtain ⟨c, hc, -⟩ := hx
    exact ⟨nofun, fun h => absurd hc (h c e)⟩

end Preorder

/-- Where a condition is reported in one way, it is known what is reported. -/
theorem eq_error_iff [PartialOrder κ] {x : Except ε Unit} {V : κ → ε → Prop}
    (hx : ReportsFirst x V) (hV : ∀ c e e', V c e → V c e' → e = e') (e : ε) :
    x = .error e ↔ ∃ c, V c e ∧ ∀ d e', V d e' → c ≤ d := by
  cases x with
  | ok _ => exact ⟨nofun, fun ⟨c, hc, _⟩ => absurd hc (hx c e)⟩
  | error e' =>
    constructor
    · rintro ⟨⟩
      exact hx
    · rintro ⟨c, hc, hfirst⟩
      obtain ⟨d, hd, hfirst'⟩ := hx
      obtain rfl := le_antisymm (hfirst d e' hd) (hfirst' c e hc)
      rw [hV c e' e hd hc]

end ReportsFirst

end DeferredIR.Check
