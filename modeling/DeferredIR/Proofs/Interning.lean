import DeferredIR.Proofs.Fold.Commute
import DeferredIR.Proofs.Run
import DeferredIR.Proofs.TypeTable
import Mathlib.Data.List.Induction

/-!
# Numbering types over a run

A type table is used on its own and, from time to time, moved into a graph and handed back. Only the
names that are entered matter for what becomes of it: nothing else that is done to a graph touches
its table. So at every moment of such a run the table is a numbering of the distinct names that were
entered, in order of first entry, and all answers ever given agree with it.
-/

namespace DeferredIR

open DeferredIR.Graph

namespace TypeTable

variable {T : TypeTable} {t : TypeId} {name : String} {names : List String}

/-! ## Entering several names -/

/-- The table after an attempt to enter `name`. -/
def enter (T : TypeTable) (name : String) : TypeTable :=
  match T.intern name with
  | .ok (_, T') => T'
  | .error _ => T

/-- The handles that `names` are given as they are entered one after the other. -/
def issued (T : TypeTable) : List String → List (String × TypeId)
  | [] => []
  | name :: names =>
      match T.intern name with
      | .ok (t, T') => (name, t) :: T'.issued names
      | .error _ => T.issued names

theorem names_enter (T : TypeTable) (name : String) :
    (T.enter name).names =
      if name = "" ∨ name ∈ T.names then T.names else T.names ++ [name] := by
  rw [enter]
  cases h : T.intern name with
  | error e => rw [if_pos (.inl (intern_eq_error.mp h).1)]
  | ok p =>
    have hne : name ≠ "" := fun he => by
      rw [intern_eq_error.mpr ⟨he, rfl⟩] at h
      cases h
    simp only [names_of_intern h, hne, false_or]

theorem prefix_enter (T : TypeTable) (name : String) : T.names <+: (T.enter name).names := by
  rw [names_enter]
  split
  · exact List.prefix_refl _
  · exact List.prefix_append _ _

theorem prefix_foldl_enter (T : TypeTable) (names : List String) :
    T.names <+: (names.foldl enter T).names := by
  induction names generalizing T with
  | nil => exact List.prefix_refl _
  | cons name names ih => exact (T.prefix_enter name).trans (ih _)

theorem issued_append (T : TypeTable) (names names' : List String) :
    T.issued (names ++ names') = T.issued names ++ (names.foldl enter T).issued names' := by
  induction names generalizing T with
  | nil => rfl
  | cons name names ih =>
    rw [List.cons_append, issued, issued, List.foldl_cons, enter]
    cases T.intern name with
    | error e => exact ih T
    | ok p => exact congrArg _ (ih p.2)

/-- The distinct names of a list without the empty one, in order of first occurrence. -/
def distinct (names : List String) : List String := (names.filter (· ≠ "")).eraseDups

/-- From an empty table on, the names are numbered in order of first entry. -/
theorem names_foldl_enter (names : List String) :
    (names.foldl enter {}).names = distinct names := by
  induction names using List.reverseRecOn with
  | nil => rfl
  | append_singleton names name ih =>
    rw [List.foldl_concat, names_enter, ih, distinct, distinct, List.filter_append,
      List.eraseDups_append]
    generalize names.filter (· ≠ "") = known
    by_cases hne : name = ""
    · simp [hne, List.removeAll]
    · by_cases hmem : name ∈ known <;>
        simp [hne, hmem, List.removeAll, List.mem_eraseDups, List.eraseDups_cons]

/-- What was answered for a name is what the last table finds for it. -/
theorem issued_eq (T : TypeTable) (names : List String) :
    T.issued names =
      names.filterMap fun name => ((names.foldl enter T).find? name).map (name, ·) := by
  induction names generalizing T with
  | nil => rfl
  | cons name names ih =>
    rw [issued, List.filterMap_cons, List.foldl_cons]
    cases h : T.intern name with
    | error e =>
      have hnone : ((names.foldl enter (T.enter name)).find? name) = none := by
        rw [find?_eq_none, (intern_eq_error.mp h).1]
        exact (names.foldl enter (T.enter "")).empty_notMem
      have henter : T.enter name = T := by rw [enter, h]
      rw [hnone, henter]
      exact ih T
    | ok p =>
      obtain ⟨t, T'⟩ := p
      have henter : T.enter name = T' := by rw [enter, h]
      have hfound : (names.foldl enter T').find? name = some t :=
        find?_eq_some.mpr <| name?_of_prefix (prefix_foldl_enter T' names) (name?_of_intern h)
      rw [henter, hfound]
      exact congrArg _ (ih T')

end TypeTable

/-! ## Commands -/

namespace Command

variable {g : Graph}

/-- The name that a command enters. -/
def entered? : Command → Option String
  | internType name => some name
  | _ => none

theorem run_internType (name : String) (g : Graph) :
    (internType name).run g =
      match g.types.intern name with
      | .ok (t, types) => (.ok (.type t), { g with types })
      | .error e => (.error (.edit e), g) := by
  have hrun : Edit.internType name g = _ := Edit.run_internType
  simp only [run, edit, EStateM.run, Functor.map, EStateM.map, hrun]
  cases g.types.intern name <;> rfl

theorem types_build (h : g.WellFormed) (f : FuncId) (options : FoldOptions) (request : Request) :
    ((Edit.build f options request).after g).types = g.types := by
  have hb := Edit.built_run_build h f options request
  rw [Edit.after]
  generalize (Edit.build f options request).run g = r at hb
  cases hb <;> rfl

theorem types_replace (h : g.WellFormed) (old new : ValueId) :
    ((Edit.replace old new).after g).types = g.types := by
  cases hr : g.requireReplaceable old new with
  | error e => rw [Edit.after, Edit.run_replace, hr]
  | ok _ =>
    obtain ⟨count, hrun⟩ := Edit.run_replace_of_ok h hr
    rw [Edit.after_of_ok hrun]
    split <;> rfl

/-- A command changes the table of its graph by the name that it enters, if any. -/
theorem types_run (h : g.WellFormed) (c : Command) :
    (c.run g).2.types = c.entered?.toList.foldl TypeTable.enter g.types := by
  cases c with
  | internType name =>
    rw [run_internType, entered?, Option.toList_some, List.foldl_cons, List.foldl_nil,
      TypeTable.enter]
    cases g.types.intern name <;> rfl
  | addFunc name types =>
    rw [run_snd, edit, Edit.after_map, Edit.after, Edit.run_addFunc]
    cases types.forM g.requireType <;> rfl
  | build func options request =>
    rw [run_snd, edit, Edit.after_map]
    exact types_build h func options request
  | assignType value type =>
    rw [run_snd, edit_assignType, Edit.after_map, Edit.after, Edit.run_assignType]
    cases g.requireAssignable value type <;> rfl
  | replace old new =>
    rw [run_snd, edit, Edit.after_map]
    exact types_replace h old new
  | foldAll options => exact (folds_foldAll h options).sameShape.types

end Command

/-! ## Sessions -/

namespace Graph

variable {g : Graph}

/-- The handles that the commands of a script answer for the names they enter. -/
def issued (g : Graph) : List Command → List (String × TypeId)
  | [] => []
  | c :: script =>
      match c.entered?, (c.run g).1 with
      | some name, .ok (.type t) => (name, t) :: issued (c.run g).2 script
      | _, _ => issued (c.run g).2 script

theorem WellFormed.types_after (h : g.WellFormed) (script : List Command) :
    (g.after script).types = (script.filterMap Command.entered?).foldl TypeTable.enter g.types := by
  induction script generalizing g with
  | nil => rfl
  | cons c script ih =>
    refine (ih (c.run_wellFormed h)).trans ?_
    rw [c.types_run h]
    cases hc : c.entered? <;> simp [hc]

theorem WellFormed.issued_eq (h : g.WellFormed) (script : List Command) :
    g.issued script = g.types.issued (script.filterMap Command.entered?) := by
  induction script generalizing g with
  | nil => rfl
  | cons c script ih =>
    have hrest := ih (c.run_wellFormed h)
    rw [c.types_run h] at hrest
    rw [issued, hrest, List.filterMap_cons]
    cases c with
    | internType name =>
      simp only [Command.entered?, Command.run_internType, Option.toList_some, List.foldl_cons,
        List.foldl_nil, TypeTable.issued, TypeTable.enter]
      cases g.types.intern name <;> rfl
    | _ => rfl

end Graph

/-- What can be done with a type table. -/
inductive TableUse where
  | intern (name : String)
  /-- A graph is made over the table, edited, and given up for its table. -/
  | session (script : List Command)

namespace TableUse

/-- The names that are entered. -/
def entered : TableUse → List String
  | intern name => [name]
  | session script => script.filterMap Command.entered?

/-- The handles that are answered, with the names they are answered for. -/
def issued (T : TypeTable) : TableUse → List (String × TypeId)
  | intern name => T.issued [name]
  | session script => (ofTable T).issued script

/-- The table after a use. -/
def after (T : TypeTable) : TableUse → TypeTable
  | intern name => T.enter name
  | session script => ((ofTable T).after script).types

theorem after_eq (T : TypeTable) (use : TableUse) :
    use.after T = use.entered.foldl TypeTable.enter T := by
  cases use with
  | intern name => rfl
  | session script => exact (wellFormed_ofTable T).types_after script

theorem issued_eq (T : TypeTable) (use : TableUse) : use.issued T = T.issued use.entered := by
  cases use with
  | intern name => rfl
  | session script => exact (wellFormed_ofTable T).issued_eq script

end TableUse

namespace TypeTable

variable {T T' : TypeTable}

/-! ## Runs -/

/-- The table after several uses. -/
def afterUses (T : TypeTable) (uses : List TableUse) : TypeTable := uses.foldl TableUse.after T

/-- All handles that are answered in several uses. -/
def issuedIn (T : TypeTable) : List TableUse → List (String × TypeId)
  | [] => []
  | use :: uses => use.issued T ++ (use.after T).issuedIn uses

theorem afterUses_eq (T : TypeTable) (uses : List TableUse) :
    T.afterUses uses = (uses.flatMap TableUse.entered).foldl enter T := by
  induction uses generalizing T with
  | nil => rfl
  | cons use uses ih =>
    rw [List.flatMap_cons, List.foldl_append, ← use.after_eq]
    exact ih _

theorem issuedIn_eq (T : TypeTable) (uses : List TableUse) :
    T.issuedIn uses = T.issued (uses.flatMap TableUse.entered) := by
  induction uses generalizing T with
  | nil => rfl
  | cons use uses ih =>
    rw [List.flatMap_cons, issued_append, issuedIn, ih, use.issued_eq, use.after_eq]

/-- The handles of `T` stand for `names`, one for each, counted from one, and all that can be asked
of `T` agrees with that. -/
structure Numbers (T : TypeTable) (names : List String) : Prop where
  entries : T.entries = names.mapIdx fun i name => (⟨i + 1⟩, name)
  size : T.size = names.length
  name?_undefined : T.name? .undefined = some .undefined
  name?_named : ∀ t name, T.name? t = some (.named name) ↔ (t, name) ∈ T.entries
  name : ∀ t k, T.name t = .ok k ↔ T.name? t = some k
  contains : ∀ t, T.contains t = true ↔ t.index ≤ names.length
  contains_iff : ∀ t, T.contains t = true ↔ (T.name? t).isSome = true
  find? : ∀ name t, T.find? name = some t ↔ (t, name) ∈ T.entries
  find?_none : ∀ name, T.find? name = none ↔ name = "" ∨ name ∉ names
  intern_known : ∀ name ∈ names, ∃ t, T.find? name = some t ∧ T.intern name = .ok (t, T)
  intern_new : ∀ name, name ≠ "" → name ∉ names →
    ∃ T', T.intern name = .ok (⟨names.length + 1⟩, T') ∧ T'.names = names ++ [name]
  intern_fails : ∀ name e, T.intern name = .error e ↔ name = "" ∧ e = .emptyTypeName
  text : ∀ t, T.contains t = true → ∃ s, T.text t = .ok s
  /-- So no named type is written like the undefined one. -/
  text_inj : ∀ t t' s, T.text t = .ok s → T.text t' = .ok s → t = t'

theorem mem_entries {t : TypeId} {name : String} :
    (t, name) ∈ T.entries ↔ T.name? t = some (.named name) := by
  rw [name?_eq_named]
  simp only [entries, List.mem_map, Prod.exists, List.mem_zipIdx_iff_getElem?, Prod.mk.injEq]
  constructor
  · rintro ⟨name, i, hi, rfl, rfl⟩
    exact ⟨i, rfl, hi⟩
  · rintro ⟨i, rfl, hi⟩
    exact ⟨name, i, hi, rfl, rfl⟩

/-- Every table numbers its names. -/
theorem numbers (T : TypeTable) : T.Numbers T.names where
  entries := by
    refine List.ext_getElem? fun i => ?_
    simp only [entries, List.getElem?_map, List.getElem?_zipIdx, List.getElem?_mapIdx,
      Option.map_map]
    simp [Function.comp_def]
  size := rfl
  name?_undefined := rfl
  name?_named _ _ := mem_entries.symm
  name _ _ := name_eq_ok
  contains _ := contains_iff
  contains_iff t := by
    rw [Option.isSome_iff_exists]
    exact ⟨exists_name?_of_contains, fun ⟨_, hk⟩ => contains_of_name? hk⟩
  find? _ _ := find?_eq_some.trans mem_entries.symm
  find?_none name := by
    rw [find?_eq_none]
    refine ⟨.inr, ?_⟩
    rintro (rfl | h)
    · exact T.empty_notMem
    · exact h
  intern_known _ h := intern_of_mem h
  intern_new name hne hnew := by
    rw [intern, dif_neg hne, dif_neg hnew]
    exact ⟨_, rfl, rfl⟩
  intern_fails _ _ := intern_eq_error
  text _ h := exists_text_of_contains h
  text_inj _ _ _ h h' := text_inj h h'

theorem prefix_entries (h : T.names <+: T'.names) : T.entries <+: T'.entries := by
  rw [T.numbers.entries, T'.numbers.entries]
  obtain ⟨l, hl⟩ := h
  rw [← hl, List.mapIdx_append]
  exact List.prefix_append _ _

theorem mem_issued {names : List String} {p : String × TypeId} (hp : p ∈ T.issued names) :
    (names.foldl enter T).name? p.2 = some (.named p.1) := by
  rw [issued_eq, List.mem_filterMap] at hp
  obtain ⟨name, -, hname⟩ := hp
  obtain ⟨t, ht, rfl⟩ := Option.map_eq_some_iff.mp hname
  exact find?_eq_some.mp ht

/-- However a table is used from the start, at each moment it numbers the distinct names that were
entered so far. Each entry of a name was answered by the handle that is found for it now, but for
the empty name, which is refused; handles are the same exactly for the same name, and keep it. -/
theorem numbers_entered (uses : List TableUse) :
    let T := afterUses {} uses
    let names := uses.flatMap TableUse.entered
    T.Numbers (distinct names) ∧
      issuedIn {} uses = names.filterMap (fun name => (T.find? name).map (name, ·)) ∧
      (∀ p ∈ issuedIn {} uses, ∀ q ∈ issuedIn {} uses, p.2 = q.2 ↔ p.1 = q.1) ∧
      (∀ g : Graph, (Command.internType "").run g = (.error (.edit .emptyTypeName), g)) ∧
      ∀ earlier : List TableUse, earlier.flatMap TableUse.entered <+: names →
        (afterUses {} earlier).entries <+: T.entries ∧
          ∀ t k, (afterUses {} earlier).name? t = some k → T.name? t = some k := by
  intro T names
  have hT : T = names.foldl enter {} := afterUses_eq _ _
  have hnames : T.names = distinct names := by rw [hT, names_foldl_enter]
  refine ⟨hnames ▸ T.numbers, ?_, ?_, ?_, ?_⟩
  · rw [issuedIn_eq, issued_eq, hT]
  · rw [issuedIn_eq]
    intro p hp q hq
    have hp := mem_issued hp
    have hq := mem_issued hq
    constructor
    · intro he
      rw [he, hq] at hp
      exact (TypeName.named.inj (Option.some.inj hp)).symm
    · intro he
      rw [he] at hp
      exact name?_inj hp hq
  · intro g
    rw [Command.run_internType, intern_eq_error.mpr ⟨rfl, rfl⟩]
  · rintro earlier ⟨later, hlater⟩
    have hprefix : (afterUses {} earlier).names <+: T.names := by
      rw [hT, ← hlater, List.foldl_append, afterUses_eq]
      exact prefix_foldl_enter _ _
    exact ⟨prefix_entries hprefix, fun t k hk => name?_of_prefix hprefix hk⟩

/-- A graph that is over the table in between goes on with the numbers. -/
example :
    issuedIn {} [.intern "int", .intern "", .session [.internType "str", .internType "int"],
      .intern "float"] = [("int", ⟨1⟩), ("str", ⟨2⟩), ("int", ⟨1⟩), ("float", ⟨3⟩)] := by
  decide +kernel

end TypeTable

end DeferredIR
