import DeferredIR.Proofs.Fold.Rules
import DeferredIR.Proofs.Run

/-!
# Failed commands

Every command but a fold pass checks all that it is given before its first write, and cannot fail
after it. A build writes before it looks for a fold, but on a graph that commands can make the rules
it looks through never fault. So a command that fails leaves the graph as it was.
-/

namespace DeferredIR

open DeferredIR.Graph

variable {g : Graph} {c : Command}

namespace Edit

/-- Where `x` fails on `g`, it leaves `g` as it is. -/
def AtomicAt {α : Type} (x : Edit α) (g : Graph) : Prop :=
  ∀ e g', x.run g = .error e g' → g' = g

theorem AtomicAt.map {α β : Type} {x : Edit α} (h : x.AtomicAt g) (φ : α → β) :
    (φ <$> x : Edit β).AtomicAt g := by
  intro e g' he
  simp only [EStateM.run, Functor.map, EStateM.map] at he
  cases hx : x g with
  | ok a g'' => simp [hx] at he
  | error e'' g'' =>
    simp only [hx, EStateM.Result.error.injEq] at he
    exact he.2 ▸ h e'' g'' hx

/-- A read followed by a write that cannot fail. -/
theorem atomicAt_read_bind {m : Type → Type} [MonadLiftT m (Except Error)] {α β : Type}
    (r : Graph → m α) (write : α → Edit β) (hwrite : ∀ a e g', (write a).run g ≠ .error e g') :
    (read r >>= write).AtomicAt g := by
  intro e g' he
  rw [EStateM.run_bind, run_read] at he
  cases hr : (liftM (r g) : Except Error α) with
  | ok a =>
    rw [hr] at he
    exact absurd he (hwrite a e g')
  | error e' =>
    rw [hr] at he
    cases he
    rfl

theorem atomicAt_internType (name : String) : (internType name).AtomicAt g :=
  atomicAt_read_bind _ _ nofun

theorem atomicAt_addFunc (name : String) (types : List TypeId) :
    (addFunc name types).AtomicAt g :=
  atomicAt_read_bind _ _ nofun

theorem atomicAt_assignType (v : ValueId) (t : TypeId) : (assignType v t).AtomicAt g :=
  atomicAt_read_bind _ _ nofun

theorem atomicAt_replace (h : g.WellFormed) (old new : ValueId) :
    (replace old new).AtomicAt g := by
  intro e g' he
  cases hr : g.requireReplaceable old new with
  | ok _ =>
    obtain ⟨count, hrun⟩ := run_replace_of_ok h hr
    rw [hrun] at he
    cases he
  | error e' =>
    rw [run_replace, hr] at he
    cases he
    rfl

/-- Once a node is appended, nothing fails. -/
theorem atomicAt_build (h : g.WellFormed) (f : FuncId) (options : FoldOptions)
    (request : Request) : (build f options request).AtomicAt g := by
  intro e g' he
  have hb := built_run_build h f options request
  rw [he] at hb
  cases hb with
  | noFunc | noDraft | unfit => rfl

end Edit

/-- A command that fails and is no fold pass leaves the whole graph as it was. -/
theorem Graph.Reachable.run_eq_self_of_error (h : g.Reachable)
    (hc : ∀ options, c ≠ .foldAll options) {e : Error} (he : (c.run g).1 = .error e) :
    (c.run g).2 = g := by
  have hwf := h.wellFormed
  have hatomic : c.edit.AtomicAt g := by
    cases c with
    | internType name => exact (Edit.atomicAt_internType name).map _
    | addFunc name types => exact (Edit.atomicAt_addFunc name types).map _
    | build f options request => exact (Edit.atomicAt_build hwf f options request).map _
    | assignType v t => exact (Edit.atomicAt_assignType v t).map fun _ => Answer.done
    | replace old new => exact (Edit.atomicAt_replace hwf old new).map _
    | foldAll options => exact absurd rfl (hc options)
  unfold Command.run at he ⊢
  cases hrun : c.edit.run g with
  | ok a g' => simp [hrun] at he
  | error e' g' => exact hatomic e' g' hrun

/-- A sum in one function of a value of its own and a value of another function. -/
theorem Graph.run_eq_self_of_foreign_operand :
    let g := (ofTable {}).after [.addFunc "f" [⟨0⟩], .addFunc "g" [⟨0⟩]]
    let c := Command.build ⟨1⟩ { onBuild := true } (.binop ⟨1⟩ ⟨0⟩ "+")
    (c.run g).1 = .error (.edit (.foreignOperand ⟨0⟩ ⟨0⟩ ⟨1⟩)) ∧ (c.run g).2 = g := by
  intro g c
  have h : g.Reachable := ⟨_, _, rfl⟩
  have he : (c.run g).1 = .error (.edit (.foreignOperand ⟨0⟩ ⟨0⟩ ⟨1⟩)) := rfl
  exact ⟨he, h.run_eq_self_of_error (by simp [c]) he⟩

end DeferredIR
