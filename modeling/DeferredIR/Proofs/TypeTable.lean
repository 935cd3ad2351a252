import DeferredIR.Proofs.Checks
import DeferredIR.TypeTable
import Mathlib.Data.List.Nodup

/-!
# Type tables

A table is a numbering: no two of its handles have one name, and what a name finds is the handle
that has it. A table is only ever extended at its end, so a handle keeps its name in all later
tables. The handles that a table contains are those that stand for something in it.
-/

namespace DeferredIR

/-- Only an empty name could be written like the undefined type. -/
theorem TypeName.text_inj {k k' : TypeName} (hk : k ≠ .named "") (hk' : k' ≠ .named "") :
    k.text = k'.text ↔ k = k' := by
  have hnamed (a b : String) : (named a).text = (named b).text ↔ a = b := by
    rw [text, text, String.append_left_inj, String.append_right_inj]
  have hempty : undefined.text = (named "").text := rfl
  cases k with
  | undefined =>
    cases k' with
    | undefined => simp
    | named b =>
      rw [hempty, hnamed]
      simpa [eq_comm] using hk'
  | named a =>
    cases k' with
    | undefined =>
      rw [hempty, hnamed]
      simpa using hk
    | named b => rw [hnamed, named.injEq]

namespace TypeTable

variable {T T' : TypeTable} {t t' : TypeId} {name : String} {k : TypeName}

/-! ## Names and handles -/

theorem name?_eq_undefined : T.name? t = some .undefined ↔ t = .undefined := by
  obtain ⟨i⟩ := t
  cases i with
  | zero => exact iff_of_true rfl rfl
  | succ i => simp [name?, TypeId.undefined]

theorem name?_eq_named :
    T.name? t = some (.named name) ↔ ∃ i, t = ⟨i + 1⟩ ∧ T.names[i]? = some name := by
  obtain ⟨i⟩ := t
  cases i with
  | zero => simp [name?]
  | succ i => simp [name?]

/-- What a table names is not empty. -/
theorem ne_named_empty (hk : T.name? t = some k) : k ≠ .named "" := by
  rintro rfl
  obtain ⟨i, -, hi⟩ := name?_eq_named.mp hk
  exact T.empty_notMem (List.mem_of_getElem? hi)

theorem name?_inj (hk : T.name? t = some k) (hk' : T.name? t' = some k) : t = t' := by
  cases k with
  | undefined => exact (name?_eq_undefined.mp hk).trans (name?_eq_undefined.mp hk').symm
  | named name =>
    obtain ⟨i, rfl, hi⟩ := name?_eq_named.mp hk
    obtain ⟨j, rfl, hj⟩ := name?_eq_named.mp hk'
    have hlt := (List.getElem?_eq_some_iff.mp hi).1
    rw [(List.getElem?_inj hlt T.nodup).mp (hi.trans hj.symm)]

theorem name_eq_ok : T.name t = .ok k ↔ T.name? t = some k := by
  rw [TypeTable.name]
  cases T.name? t <;> simp

theorem text_inj {s : String} (h : T.text t = .ok s) (h' : T.text t' = .ok s) : t = t' := by
  obtain ⟨k, hk, rfl⟩ := Check.map_eq_ok.mp h
  obtain ⟨k', hk', he⟩ := Check.map_eq_ok.mp h'
  rw [name_eq_ok] at hk hk'
  obtain rfl := (TypeName.text_inj (ne_named_empty hk') (ne_named_empty hk)).mp he
  exact name?_inj hk hk'

theorem find?_eq_some : T.find? name = some t ↔ T.name? t = some (.named name) := by
  rw [find?, Option.map_eq_some_iff, name?_eq_named]
  simp only [List.idxOf?_eq_some_iff, List.getElem?_eq_some_iff]
  constructor
  · rintro ⟨i, ⟨hi, hname, -⟩, rfl⟩
    exact ⟨i, rfl, hi, hname⟩
  · rintro ⟨i, rfl, hi, rfl⟩
    refine ⟨i, ⟨hi, rfl, fun j hj he => ?_⟩, rfl⟩
    exact absurd (T.nodup.getElem_inj_iff.mp he) (Nat.ne_of_lt hj)

theorem find?_eq_none : T.find? name = none ↔ name ∉ T.names := by
  rw [find?, Option.map_eq_none_iff, List.idxOf?_eq_none_iff]

/-! ## Entering names -/

theorem intern_eq_error {e : EditError} :
    T.intern name = .error e ↔ name = "" ∧ e = .emptyTypeName := by
  unfold intern
  split
  · simp [*, eq_comm]
  · split <;> simp [*]

theorem exists_intern (h : name ≠ "") : ∃ t T', T.intern name = .ok (t, T') := by
  unfold intern
  rw [dif_neg h]
  split <;> exact ⟨_, _, rfl⟩

/-- The names after one was entered. -/
theorem names_of_intern (h : T.intern name = .ok (t, T')) :
    T'.names = if name ∈ T.names then T.names else T.names ++ [name] := by
  unfold intern at h
  split at h
  · cases h
  · split at h
    · cases h
      rw [if_pos ‹_›]
    · cases h
      rw [if_neg ‹_›]

/-- What is entered is found. -/
theorem name?_of_intern (h : T.intern name = .ok (t, T')) : T'.name? t = some (.named name) := by
  refine name?_eq_named.mpr ?_
  unfold intern at h
  split at h
  · cases h
  · split at h
    · cases h
      exact ⟨_, rfl, List.getElem?_idxOf ‹_›⟩
    · cases h
      exact ⟨_, rfl, List.getElem?_concat_length⟩

/-- Entering a name that is known changes nothing and answers what is found. -/
theorem intern_of_mem (h : name ∈ T.names) :
    ∃ t, T.find? name = some t ∧ T.intern name = .ok (t, T) := by
  have hne : name ≠ "" := fun he => T.empty_notMem (he ▸ h)
  refine ⟨⟨T.names.idxOf name + 1⟩, find?_eq_some.mpr (name?_eq_named.mpr ?_), ?_⟩
  · exact ⟨_, rfl, List.getElem?_idxOf h⟩
  · rw [intern, dif_neg hne, dif_pos h]

theorem prefix_of_intern (h : T.intern name = .ok (t, T')) : T.names <+: T'.names := by
  rw [names_of_intern h]
  split
  · exact List.prefix_refl _
  · exact List.prefix_append _ _

/-! ## The handles of a table -/

theorem contains_iff : T.contains t = true ↔ t.index ≤ T.names.length := decide_eq_true_iff

@[simp] theorem contains_undefined (T : TypeTable) : T.contains .undefined = true :=
  contains_iff.mpr (Nat.zero_le _)

theorem contains_of_prefix (h : T.names <+: T'.names) (ht : T.contains t = true) :
    T'.contains t = true :=
  contains_iff.mpr (Nat.le_trans (contains_iff.mp ht) h.length_le)

theorem exists_name?_of_contains (h : T.contains t = true) : ∃ k, T.name? t = some k := by
  obtain ⟨i⟩ := t
  have hi : i ≤ T.names.length := contains_iff.mp h
  cases i with
  | zero => exact ⟨.undefined, rfl⟩
  | succ i => exact ⟨.named T.names[i], by simp [name?, List.getElem?_eq_getElem hi]⟩

theorem contains_of_name? (hk : T.name? t = some k) : T.contains t = true := by
  cases k with
  | undefined =>
    rw [name?_eq_undefined.mp hk]
    exact contains_undefined T
  | named name =>
    obtain ⟨i, rfl, hi⟩ := name?_eq_named.mp hk
    exact contains_iff.mpr (List.getElem?_eq_some_iff.mp hi).1

/-- A known type that a table contains has a name in it. -/
theorem exists_named_of_contains (h : T.contains t = true) (ht : t ≠ .undefined) :
    ∃ name, T.name? t = some (.named name) := by
  obtain ⟨k, hk⟩ := exists_name?_of_contains h
  obtain ⟨i⟩ := t
  cases i with
  | zero => exact absurd rfl ht
  | succ i =>
    obtain ⟨name, -, rfl⟩ := Option.map_eq_some_iff.mp hk
    exact ⟨name, hk⟩

theorem exists_text_of_contains (h : T.contains t = true) : ∃ s, T.text t = .ok s := by
  obtain ⟨k, hk⟩ := exists_name?_of_contains h
  exact ⟨k.text, by simp [text, name, hk, Functor.map, Except.map]⟩

/-- A handle keeps its name. -/
theorem name?_of_prefix (h : T.names <+: T'.names) (hk : T.name? t = some k) :
    T'.name? t = some k := by
  obtain ⟨i⟩ := t
  cases i with
  | zero => exact hk
  | succ i =>
    obtain ⟨name, hn, rfl⟩ := Option.map_eq_some_iff.mp hk
    obtain ⟨l, hl⟩ := h
    have hi := (List.getElem?_eq_some_iff.mp hn).1
    refine Option.map_eq_some_iff.mpr ⟨name, ?_, rfl⟩
    rw [← hl, List.getElem?_append_left hi, hn]

end TypeTable

end DeferredIR
