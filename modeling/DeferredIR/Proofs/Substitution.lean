import DeferredIR.Proofs.Checks.Order
import DeferredIR.Proofs.Renaming
import Mathlib.Data.Set.Card

/-!
# Replacing as substitution

A replacement never looks at operands: it follows the records of the uses of the old value, and
writes at each recorded slot. Where use lists are exact these are the slots of live nodes that read
the old value, so the outcome is that of a substitution in all live nodes, and the number of records
is the number of slots that change.
-/

namespace DeferredIR

open DeferredIR.Graph Check

namespace Graph

variable {g : Graph} {old new v : ValueId} {f : FuncId} {u : Use} {n : NodeId} {x : Node}
variable {e e' : Error} {i : Nat}

/-! ## Refusals -/

/-- What is wrong with a replacement of `old` by `new`: its place among the things that can be
wrong, and how it is reported. -/
inductive ReplacementFails (g : Graph) (old new : ValueId) : Nat → Error → Prop where
  | unknownOld (unknown : g.values.size ≤ old.index) :
      ReplacementFails g old new 0 (.edit (.unknownValue old))
  | unknownNew (unknown : g.values.size ≤ new.index) :
      ReplacementFails g old new 1 (.edit (.unknownValue new))
  | deadNew (folded : g.Folded new) : ReplacementFails g old new 2 (.edit (.deadValue new))
  | foreignNew {f owner : FuncId} (owner_old : g.owner? old = some f)
      (owner_new : g.owner? new = some owner) (ne : owner ≠ f) :
      ReplacementFails g old new 3 (.edit (.foreignOperand new owner f))

theorem ReplacementFails.unique (h : g.ReplacementFails old new i e)
    (h' : g.ReplacementFails old new i e') : e = e' := by
  cases h with
  | unknownOld _ | unknownNew _ | deadNew _ =>
    cases h'
    rfl
  | foreignNew ho hn _ =>
    cases h' with
    | foreignNew ho' hn' _ =>
      obtain rfl := Option.some.inj (ho.symm.trans ho')
      obtain rfl := Option.some.inj (hn.symm.trans hn')
      rfl

theorem requireLive_of_folded (h : g.Folded v) :
    g.requireLive v = .error (.edit (.deadValue v)) := by
  obtain ⟨n, ⟨opcode, operands, result, func, dead⟩, ho, hn, rfl⟩ := h
  have hdef := definingNode?_eq_ok_some.mpr ⟨n, ho, hn⟩
  rw [requireLive, hdef]
  rfl

theorem requireReadable_of_folded (h : g.Folded v) :
    g.requireReadable f v = .error (.edit (.deadValue v)) := by
  obtain ⟨n, x, ho, -⟩ := id h
  have hvalue : g.requireValue v = .ok () := if_pos (lt_of_origin? ho)
  rw [requireReadable, hvalue, requireLive_of_folded h]
  rfl

/-- The checks of a replacement look at the two values one after the other, and then at whether the
readers of the first may read the second. -/
theorem Coherent.reportsFirst_requireReplaceable (h : g.Coherent) (old new : ValueId) :
    ReportsFirst (g.requireReplaceable old new) (g.ReplacementFails old new) := by
  unfold requireReplaceable
  by_cases hold : old.index < g.values.size
  case neg =>
    rw [requireValue, if_neg hold]
    exact ⟨0, .unknownOld (Nat.le_of_not_lt hold), fun d _ _ => Nat.zero_le d⟩
  obtain ⟨f, ho⟩ := h.exists_owner? hold
  have hvalue : g.requireValue old = .ok () := if_pos hold
  rw [hvalue, owner_eq_ok.mpr ho, ok_bind]
  by_cases hnew : new.index < g.values.size
  case neg =>
    rw [requireValue, if_neg hnew]
    refine ⟨1, .unknownNew (Nat.le_of_not_lt hnew), fun d e hd => ?_⟩
    cases hd with
    | unknownOld hle => exact absurd hold (Nat.not_lt.mpr hle)
    | _ => omega
  have hvalue' : g.requireValue new = .ok () := if_pos hnew
  rw [hvalue', ok_bind, liftM_ok, ok_bind]
  by_cases hfolded : g.Folded new
  · rw [requireReadable_of_folded hfolded]
    refine ⟨2, .deadNew hfolded, fun d e hd => ?_⟩
    cases hd with
    | unknownOld hle => exact absurd hold (Nat.not_lt.mpr hle)
    | unknownNew hle => exact absurd hnew (Nat.not_lt.mpr hle)
    | _ => omega
  obtain ⟨owner, hn⟩ := h.exists_owner? hnew
  -- Only the functions of the two values are left to differ.
  have hlast : ∀ d e, g.ReplacementFails old new d e → d = 3 ∧ owner ≠ f := by
    intro d e hd
    cases hd with
    | unknownOld hle => exact absurd hold (Nat.not_lt.mpr hle)
    | unknownNew hle => exact absurd hnew (Nat.not_lt.mpr hle)
    | deadNew hdead => exact absurd hdead hfolded
    | foreignNew ho' hn' hne =>
      obtain rfl := Option.some.inj (ho.symm.trans ho')
      obtain rfl := Option.some.inj (hn.symm.trans hn')
      exact ⟨rfl, hne⟩
  rw [h.requireReadable_eq ⟨hnew, hfolded⟩ hn]
  split
  · exact fun d e hd => (hlast d e hd).2 ‹_›
  · exact ⟨3, .foreignNew ho hn ‹_›, fun d e hd => (hlast d e hd).1.ge⟩

/-- The checked replacement accepts a value that is of the function of the replaced one and has not
been folded away. -/
theorem Coherent.requireReplaceable_eq_ok (h : g.Coherent) (hold : g.owner? old = some f)
    (hnew : g.owner? new = some f) (hlive : ¬ g.Folded new) :
    g.requireReplaceable old new = .ok () := by
  have hvalue : ∀ {v : ValueId}, g.owner? v = some f → g.requireValue v = .ok () :=
    fun howner => if_pos (lt_of_owner? howner)
  have hreadable : g.requireReadable f new = .ok () := by
    rw [h.requireReadable_eq ⟨lt_of_owner? hnew, hlive⟩ hnew, if_pos rfl]
  rw [requireReplaceable, hvalue hold, hvalue hnew, owner_eq_ok.mpr hold]
  exact hreadable

theorem Coherent.requireReplaceable_eq_ok_iff (h : g.Coherent) :
    g.requireReplaceable old new = .ok () ↔
      old.index < g.values.size ∧ new.index < g.values.size ∧ ¬ g.Folded new ∧
        g.owner? new = g.owner? old := by
  constructor
  · intro hr
    obtain ⟨f, ho, hn, hlive⟩ := of_requireReplaceable hr
    exact ⟨lt_of_owner? ho, lt_of_owner? hn, hlive, hn.trans ho.symm⟩
  · rintro ⟨hold, -, hlive, howner⟩
    obtain ⟨f, ho⟩ := h.exists_owner? hold
    exact h.requireReplaceable_eq_ok ho (howner.trans ho) hlive

/-! ## Substitutions -/

/-- What slot `u` reads, of a live or of a dead node. -/
def operandAt? (g : Graph) (u : Use) : Option ValueId :=
  g.nodes[u.node.index]?.bind fun x => x.operands[u.slot]?

/-- `g'` is `g` with `new` read wherever a live node read `old`. -/
structure Substituted (g : Graph) (old new : ValueId) (g' : Graph) : Prop where
  types : g'.types = g.types
  functions : g'.functions = g.functions
  node : ∀ n : NodeId, g'.nodes[n.index]? = g.nodes[n.index]?.map fun x =>
    if x.dead then x else x.mapOperands (old.subst new)
  /-- The records of the uses of `old` stand after those of `new`. -/
  value : ∀ v : ValueId, g'.values[v.index]? = g.values[v.index]?.map fun x =>
    { x with uses :=
        if v = old then [] else if v = new then x.uses ++ g.usesOf old else x.uses }

theorem WellFormed.substituted_redirect (h : g.WellFormed) (hne : old ≠ new) :
    g.Substituted old new (g.redirect old new) where
  types := rfl
  functions := rfl
  node n := h.nodes_redirect old new n
  value v := by
    obtain ⟨j⟩ := v
    rw [getElem?_values_redirect]
    congr 1
    funext x
    congr 1
    by_cases hold : (⟨j⟩ : ValueId) = old
    · subst hold
      simp [hne.symm]
    · by_cases hnew : (⟨j⟩ : ValueId) = new
      · subst hnew
        simp [hne, hold]
      · simp [hold, hnew, Ne.symm hold, Ne.symm hnew]

namespace Substituted

/-- The slots that change are those that are recorded to read the old value. -/
theorem operandAt?_ne_iff {g' : Graph} (s : g.Substituted old new g') (h : g.WellFormed)
    (hne : old ≠ new) : g'.operandAt? u ≠ g.operandAt? u ↔ u ∈ g.usesOf old := by
  rw [h.mem_uses_iff, reads_iff, operandAt?, operandAt?, s.node]
  cases hx : g.nodes[u.node.index]? with
  | none => simp
  | some x =>
    cases hd : x.dead with
    | true => simp [hd]
    | false =>
      cases hs : x.operands[u.slot]? with
      | none => simp [hd, hs, Node.mapOperands]
      | some w =>
        by_cases hw : w = old
        · subst hw
          simp [hd, hs, Node.mapOperands, hne.symm]
        · simp [hd, hs, Node.mapOperands, ValueId.subst_of_ne hw, hw]

theorem ncard_changed {g' : Graph} (s : g.Substituted old new g') (h : g.WellFormed)
    (hne : old ≠ new) :
    {u | g'.operandAt? u ≠ g.operandAt? u}.ncard = (g.usesOf old).length := by
  classical
  have hset : {u | g'.operandAt? u ≠ g.operandAt? u} = ((g.usesOf old).toFinset : Set Use) := by
    ext u
    rw [Set.mem_ofPred_eq, s.operandAt?_ne_iff h hne, List.coe_toFinset, Set.mem_ofPred_eq]
  rw [hset, Set.ncard_coe_finset, List.toFinset_card_of_nodup (h.uses_nodup old)]

end Substituted

end Graph

/-- On a well-formed graph, a replacement ends as its checks end. -/
theorem Edit.run_replace_eq (h : g.WellFormed) (old new : ValueId) :
    (replace old new).run g =
      match g.requireReplaceable old new with
      | .error e => .error e g
      | .ok () => .ok (if old = new then 0 else (g.usesOf old).length)
          (if old = new then g else g.redirect old new) := by
  rw [run_replace]
  cases hr : g.requireReplaceable old new with
  | error e => rfl
  | ok _ =>
    obtain ⟨f, ho, hn, -⟩ := of_requireReplaceable hr
    exact run_redirect_eq h (lt_of_owner? ho) (lt_of_owner? hn)

namespace Graph

/-- A replacement is accepted exactly if both values exist, the new one was not folded away and both
are of one function. Otherwise the first of these that fails is reported, and the graph stays as it
is. A value that is replaced by itself changes nothing; else the new value is substituted for the
old one in the live nodes, and the answer is the number of slots that changed. -/
theorem Reachable.replace_substitutes (h : g.Reachable) (old new : ValueId) :
    ((∃ count g', (Edit.replace old new).run g = .ok count g') ↔
      old.index < g.values.size ∧ new.index < g.values.size ∧ ¬ g.Folded new ∧
        g.owner? new = g.owner? old) ∧
    (∀ e g', (Edit.replace old new).run g = .error e g' ↔
      g' = g ∧ ∃ i, g.ReplacementFails old new i e ∧
        ∀ j e', g.ReplacementFails old new j e' → i ≤ j) ∧
    ∀ count g', (Edit.replace old new).run g = .ok count g' →
      (old = new → count = 0 ∧ g' = g) ∧
      (old ≠ new → g.Substituted old new g' ∧
        count = {u | g'.operandAt? u ≠ g.operandAt? u}.ncard) := by
  have hwf := h.wellFormed
  have herror := (hwf.reportsFirst_requireReplaceable old new).eq_error_iff
    fun _ _ _ => ReplacementFails.unique
  rw [← hwf.requireReplaceable_eq_ok_iff]
  simp only [← herror, Edit.run_replace_eq hwf]
  cases hr : g.requireReplaceable old new with
  | error e =>
    refine ⟨⟨nofun, nofun⟩, fun e' g' => ?_, nofun⟩
    simp only [EStateM.Result.error.injEq, Except.error.injEq]
    exact ⟨fun ⟨he, hg⟩ => ⟨hg.symm, he⟩, fun ⟨hg, he⟩ => ⟨he, hg.symm⟩⟩
  | ok _ =>
    refine ⟨⟨fun _ => rfl, fun _ => ⟨_, _, rfl⟩⟩, fun e' g' => ⟨nofun, fun h => nomatch h.2⟩, ?_⟩
    rintro count g' ⟨⟩
    constructor
    · rintro rfl
      exact ⟨if_pos rfl, if_pos rfl⟩
    · intro hne
      have hsubst := hwf.substituted_redirect hne
      rw [if_neg hne, if_neg hne]
      exact ⟨hsubst, (hsubst.ncard_changed hwf hne).symm⟩

/-- A sum that reads one value twice, beside a dead cast that once read it: two slots change. The
result of the cast cannot take the place of a value. -/
theorem replace_substitutes_of_repeated_operand :
    let g := (ofTable { names := ["int"] }).after [.addFunc "f" [⟨1⟩, ⟨1⟩],
      .build ⟨0⟩ { onBuild := true } (.cast ⟨0⟩ ⟨1⟩), .build ⟨0⟩ {} (.binop ⟨0⟩ ⟨0⟩ "+")]
    (∃ g', (Edit.replace ⟨0⟩ ⟨1⟩).run g = .ok 2 g' ∧ g.Substituted ⟨0⟩ ⟨1⟩ g' ∧
      {u | g'.operandAt? u ≠ g.operandAt? u}.ncard = 2 ∧
      g'.operandAt? ⟨⟨0⟩, 0⟩ = some ⟨0⟩ ∧ g'.operandAt? ⟨⟨1⟩, 1⟩ = some ⟨1⟩) ∧
    (Edit.replace ⟨0⟩ ⟨2⟩).run g = .error (.edit (.deadValue ⟨2⟩)) g ∧
    ∃ i, g.ReplacementFails ⟨0⟩ ⟨2⟩ i (.edit (.deadValue ⟨2⟩)) ∧
      ∀ j e, g.ReplacementFails ⟨0⟩ ⟨2⟩ j e → i ≤ j := by
  intro g
  have h : g.Reachable := ⟨_, _, rfl⟩
  obtain ⟨-, -, haccepted⟩ := h.replace_substitutes ⟨0⟩ ⟨1⟩
  obtain ⟨-, hsubst⟩ := haccepted 2 (g.redirect ⟨0⟩ ⟨1⟩) rfl
  obtain ⟨hsubst, hcount⟩ := hsubst (by decide)
  obtain ⟨-, hrefused, -⟩ := h.replace_substitutes ⟨0⟩ ⟨2⟩
  have hrun : (Edit.replace ⟨0⟩ ⟨2⟩).run g = .error (.edit (.deadValue ⟨2⟩)) g := rfl
  exact ⟨⟨_, rfl, hsubst, hcount.symm, rfl, rfl⟩, hrun, ((hrefused _ _).mp hrun).2⟩

end Graph

end DeferredIR
