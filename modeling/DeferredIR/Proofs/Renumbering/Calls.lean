import DeferredIR.Proofs.Interning
import DeferredIR.Proofs.Renumbering.Edits

/-!
# Scripts in which types go by their names

Handles are numbered by the table that a graph was made over, so a script that is to mean the same
over any table says which types it wants by their names. Made over two tables that may know other
names already, in any order, it gets the same replies, and its graphs differ in handles only. For
this it has to enter each name itself before it uses it.
-/

namespace DeferredIR

open TypeTable (SameType)
open Edit (SameEnd)

variable {g g' : Graph} {T T' : TypeTable} {t t' : TypeId} {k : TypeName} {known : List String}

/-- The handle of a type. One that the table does not know has a handle that is of no use. -/
def TypeTable.handle (T : TypeTable) : TypeName → TypeId
  | .undefined => .undefined
  | .named name => (T.find? name).getD ⟨T.size + 1⟩

theorem TypeTable.name?_handle (hk : ∀ name, k = .named name → name ∈ T.names) :
    T.name? (T.handle k) = some k := by
  cases k with
  | undefined => rfl
  | named name =>
    obtain ⟨t, ht, -⟩ := intern_of_mem (hk name rfl)
    rw [handle, ht]
    exact find?_eq_some.mp ht

/-! ## Building -/

/-- The request with the type `t`, if it gives one. -/
def Request.withType (t : TypeId) : Request → Request
  | cast value _ => cast value t
  | node draft => node { draft with type := t }
  | request => request

theorem Request.draft_withType (ht : SameType T T' t t') (request : Request) :
    (∃ e, (request.withType t).draft = .error e ∧ (request.withType t').draft = .error e) ∨
      ∃ d d', (request.withType t).draft = .ok d ∧ (request.withType t').draft = .ok d' ∧
        d.Renumbered T T' d' := by
  cases request with
  | cast value _ => exact .inr ⟨_, _, rfl, rfl, rfl, rfl, ht⟩
  | node draft => exact .inr ⟨_, _, rfl, rfl, rfl, rfl, ht⟩
  | callFlat callee arguments start keywords =>
    simp only [withType, draft]
    split
    · exact .inl ⟨_, rfl, rfl⟩
    · split
      · exact .inl ⟨_, rfl, rfl⟩
      · exact .inr ⟨_, _, rfl, rfl, rfl, rfl, .undefined T T'⟩
  | _ => exact .inr ⟨_, _, rfl, rfl, rfl, rfl, .undefined T T'⟩

theorem Edit.sameEnd_build (h : g.Renumbered g') (hg : g.WellFormed) (hg' : g'.WellFormed)
    (f : FuncId) (options : FoldOptions) (request : Request) (ht : SameType g.types g'.types t t') :
    SameEnd ((build f options (request.withType t)).run g)
      ((build f options (request.withType t')).run g') := by
  rw [run_build hg, run_build hg', h.requireFunc]
  cases g.requireFunc f with
  | error e => exact .error e h
  | ok _ =>
  obtain ⟨e, he, he'⟩ | ⟨d, d', hd, hd', hdd⟩ := request.draft_withType ht
  · rw [he, he']
    exact .error _ h
  · simp only [hd, hd', h.requireDraft f hdd, h.nextNode, h.nextValue]
    cases g.requireDraft f d with
    | error e => exact .error e h
    | ok _ =>
      have happend := h.append f hdd
      dsimp only
      rw [happend.localReplacement?]
      split
      · cases (g.append f d).localReplacement? options g.nextNode with
        | error e => exact .error _ happend
        | ok v? =>
          cases v? with
          | none => exact .ok _ happend
          | some v => exact .ok v (happend.retire _)
      · exact .ok _ happend

/-! ## Calls -/

/-- A command in which types go by their names. -/
inductive NamedCommand where
  | internType (name : String)
  | addFunc (name : String) (types : List TypeName)
  /-- The type that `request` gives, if it does, is `type`. -/
  | build (func : FuncId) (options : FoldOptions) (request : Request) (type : TypeName)
  | assignType (value : ValueId) (type : TypeName)
  | replace (old new : ValueId)
  | foldAll (options : FoldOptions)

namespace NamedCommand

/-- The types that a command is given. -/
def types : NamedCommand → List TypeName
  | addFunc _ types => types
  | build _ _ _ type => [type]
  | assignType _ type => [type]
  | internType _ | replace _ _ | foldAll _ => []

/-- The names that a command enters. -/
def entered : NamedCommand → List String
  | internType name => if name = "" then [] else [name]
  | _ => []

/-- The command with the handles of `T`. -/
def command (T : TypeTable) : NamedCommand → Command
  | internType name => .internType name
  | addFunc name types => .addFunc name (types.map T.handle)
  | build func options request type => .build func options (request.withType (T.handle type))
  | assignType value type => .assignType value (T.handle type)
  | replace old new => .replace old new
  | foldAll options => .foldAll options

end NamedCommand

/-- A call to a graph. -/
inductive Call where
  | edit (c : NamedCommand)
  | verify
  | listing (options : ListingOptions)
  | json

/-- What a call answers, where the name of a type stands for its handle. -/
inductive Reply where
  | type (name? : Option TypeName)
  | func (func : FuncId)
  | value (value : ValueId)
  | done
  | count (n : Nat)
  | folded (report : FoldReport)
  | text (s : String)
deriving DecidableEq

/-- An answer of a graph over `T`, as a reply. -/
def Answer.reply (T : TypeTable) : Answer → Reply
  | type t => .type (T.name? t)
  | func f => .func f
  | value v => .value v
  | done => .done
  | count n => .count n
  | folded report => .folded report

namespace Call

def types : Call → List TypeName
  | edit c => c.types
  | verify | listing _ | json => []

def entered : Call → List String
  | edit c => c.entered
  | verify | listing _ | json => []

/-- The reply to a call, and the graph after it. -/
def run (g : Graph) : Call → Except Error Reply × Graph
  | edit c =>
      let (answer, g') := (c.command g.types).run g
      (Answer.reply g'.types <$> answer, g')
  | verify => ((fun _ => .done) <$> g.verify.mapError Error.inconsistent, g)
  | listing options => (Reply.text <$> (g.listing options).mapError Error.fault, g)
  | json => (Reply.text <$> g.jsonText.mapError Error.fault, g)

/-- Whether each type that a script names was entered by an earlier call of it, where `known` are
the names that were entered before. -/
def Introduced (known : List String) : List Call → Prop
  | [] => True
  | c :: script =>
      (∀ k ∈ c.types, k = .undefined ∨ k ∈ known.map .named) ∧
        Introduced (c.entered ++ known) script

end Call

namespace Graph

/-- The replies to the calls of a script. -/
def replies (g : Graph) : List Call → List (Except Error Reply)
  | [] => []
  | c :: script => (c.run g).1 :: replies (c.run g).2 script

/-- The graph after the calls of a script. -/
def afterCalls (g : Graph) (script : List Call) : Graph :=
  script.foldl (fun g c => (c.run g).2) g

end Graph

/-! ## One call -/

namespace Call

theorem edit_of_sameEnd {α : Type} {x x' : Edit α} {φ : α → Answer} {c : NamedCommand}
    (hx : SameEnd (x.run g) (x'.run g')) (hc : (c.command g.types).edit = φ <$> x)
    (hc' : (c.command g'.types).edit = φ <$> x')
    (hφ : ∀ a T T', (φ a).reply T = (φ a).reply T') :
    ((edit c).run g).1 = ((edit c).run g').1 ∧
      ((edit c).run g).2.Renumbered ((edit c).run g').2 := by
  simp only [run, Command.run, hc, hc', EStateM.run, Functor.map, EStateM.map] at hx ⊢
  generalize x g = r at hx ⊢
  generalize x' g' = r' at hx ⊢
  cases hx with
  | ok a h => exact ⟨congrArg Except.ok (hφ a _ _), h⟩
  | error e h => exact ⟨rfl, h⟩

theorem edit_internType (h : g.Renumbered g') (name : String) :
    ((edit (.internType name)).run g).1 = ((edit (.internType name)).run g').1 ∧
      ((edit (.internType name)).run g).2.Renumbered ((edit (.internType name)).run g').2 := by
  simp only [run, NamedCommand.command, Command.run_internType]
  by_cases hname : name = ""
  · simp only [TypeTable.intern_eq_error.mpr ⟨hname, rfl⟩]
    exact ⟨rfl, h⟩
  · obtain ⟨t, T, hT⟩ := TypeTable.exists_intern (T := g.types) hname
    obtain ⟨t', T', hT'⟩ := TypeTable.exists_intern (T := g'.types) hname
    simp only [hT, hT']
    refine ⟨congrArg (fun name? => Except.ok (Reply.type name?)) ?_, h.withTypes ?_ ?_⟩
    · exact (TypeTable.name?_of_intern hT).trans (TypeTable.name?_of_intern hT').symm
    · exact TypeTable.prefix_of_intern hT
    · exact TypeTable.prefix_of_intern hT'

/-- A call gets the same reply over both tables, if they agree on the types that it names. -/
theorem run_renumbered (h : g.Renumbered g') (hg : g.WellFormed) (hg' : g'.WellFormed) (c : Call)
    (hc : ∀ k ∈ c.types, SameType g.types g'.types (g.types.handle k) (g'.types.handle k)) :
    (c.run g).1 = (c.run g').1 ∧ (c.run g).2.Renumbered (c.run g').2 := by
  cases c with
  | edit c =>
    cases c with
    | internType name => exact edit_internType h name
    | addFunc name types =>
      have htypes : List.Forall₂ (SameType g.types g'.types) (types.map g.types.handle)
          (types.map g'.types.handle) := by
        rw [List.forall₂_map_left_iff, List.forall₂_map_right_iff, List.forall₂_same]
        exact hc
      exact edit_of_sameEnd (Edit.sameEnd_addFunc h name htypes) rfl rfl fun _ _ _ => rfl
    | build func options request type =>
      have htype := hc type List.mem_cons_self
      exact edit_of_sameEnd (Edit.sameEnd_build h hg hg' func options request htype) rfl rfl
        fun _ _ _ => rfl
    | assignType value type =>
      have htype := hc type List.mem_cons_self
      exact edit_of_sameEnd (Edit.sameEnd_assignType h value htype)
        (Command.edit_assignType _ _) (Command.edit_assignType _ _) fun _ _ _ => rfl
    | replace old new =>
      exact edit_of_sameEnd ((Edit.uniform_replace old new).sameEnd h) rfl rfl fun _ _ _ => rfl
    | foldAll options =>
      exact edit_of_sameEnd ((Edit.uniform_foldRounds options options.maxRounds {}).sameEnd h)
        rfl rfl fun _ _ _ => rfl
  | verify =>
    rw [run, run, h.verify]
    exact ⟨rfl, h⟩
  | listing options =>
    rw [run, run, h.listing]
    exact ⟨rfl, h⟩
  | json =>
    rw [run, run, h.jsonText]
    exact ⟨rfl, h⟩

theorem run_wellFormed (hg : g.WellFormed) (c : Call) : (c.run g).2.WellFormed := by
  cases c with
  | edit c => exact (c.command g.types).run_wellFormed hg
  | verify | listing options | json => exact hg

/-- What was entered, by this call or before, is known after it. -/
theorem mem_names_run (hg : g.WellFormed) (c : Call) {name : String}
    (hname : name ∈ c.entered ∨ name ∈ g.types.names) : name ∈ (c.run g).2.types.names := by
  cases c with
  | edit c =>
    change name ∈ ((c.command g.types).run g).2.types.names
    rw [Command.types_run hg]
    cases c with
    | internType entry =>
      change name ∈ (g.types.enter entry).names
      rw [TypeTable.names_enter]
      rcases hname with hn | hn
      · obtain ⟨hne, rfl⟩ : entry ≠ "" ∧ name = entry := by
          simpa [entered, NamedCommand.entered] using hn
        split <;> simp_all
      · split <;> simp [hn]
    | _ => exact hname.resolve_left List.not_mem_nil
  | verify | listing options | json => exact hname.resolve_left List.not_mem_nil

end Call

/-! ## Scripts -/

namespace Graph

theorem renumbered_ofTable (T T' : TypeTable) : (ofTable T).Renumbered (ofTable T') where
  functions := rfl
  nodes := rfl
  values _ := by simp [ofTable]

theorem Renumbered.replies (h : g.Renumbered g') (hg : g.WellFormed) (hg' : g'.WellFormed)
    (script : List Call) (hs : Call.Introduced known script)
    (hknown : ∀ name ∈ known, name ∈ g.types.names ∧ name ∈ g'.types.names) :
    g.replies script = g'.replies script ∧
      (g.afterCalls script).Renumbered (g'.afterCalls script) := by
  induction script generalizing g g' known with
  | nil => exact ⟨rfl, h⟩
  | cons c script ih =>
    obtain ⟨hc, hs⟩ := hs
    have htypes : ∀ k ∈ c.types,
        SameType g.types g'.types (g.types.handle k) (g'.types.handle k) := by
      intro k hk
      have hin : ∀ name, k = .named name → name ∈ known := by
        rintro name rfl
        simpa using hc _ hk
      exact ⟨k, TypeTable.name?_handle fun name hn => (hknown name (hin name hn)).1,
        TypeTable.name?_handle fun name hn => (hknown name (hin name hn)).2⟩
    obtain ⟨hreply, hafter⟩ := c.run_renumbered h hg hg' htypes
    have hrest := ih hafter (c.run_wellFormed hg) (c.run_wellFormed hg') hs fun name hname => by
      rcases List.mem_append.mp hname with hn | hn
      · exact ⟨c.mem_names_run hg (.inl hn), c.mem_names_run hg' (.inl hn)⟩
      · exact ⟨c.mem_names_run hg (.inr (hknown name hn).1),
          c.mem_names_run hg' (.inr (hknown name hn).2)⟩
    exact ⟨List.cons_eq_cons.mpr ⟨hreply, hrest.1⟩, hrest.2⟩

/-- A script that names no type before it entered it gets the same replies over any two tables, and
leaves graphs that differ at most in the handles of types. -/
theorem replies_independent (T T' : TypeTable) (script : List Call)
    (hs : Call.Introduced [] script) :
    (ofTable T).replies script = (ofTable T').replies script ∧
      ((ofTable T).afterCalls script).Renumbered ((ofTable T').afterCalls script) :=
  (renumbered_ofTable T T').replies (wellFormed_ofTable T) (wellFormed_ofTable T') script hs
    fun _ h => absurd h List.not_mem_nil

/-- Over a table that knows two names already, and over an empty one. The pass fails alike over
both, for an argument that was built without a type. -/
theorem replies_independent_of_known_names :
    let T : TypeTable := { names := ["float", "int"] }
    let script : List Call :=
      [.edit (.internType "int"), .edit (.addFunc "f" [.named "int", .undefined]),
        .edit (.build ⟨0⟩ { onBuild := true } (.cast ⟨0⟩ ⟨0⟩) (.named "int")),
        .edit (.assignType ⟨1⟩ (.named "int")),
        .edit (.build ⟨0⟩ {} (.arg 0 "x") .undefined), .edit (.foldAll {}), .verify,
        .listing {}, .json]
    ((ofTable T).afterCalls script).typeOf ⟨0⟩ = ⟨2⟩ ∧
      ((ofTable {}).afterCalls script).typeOf ⟨0⟩ = ⟨1⟩ ∧
      (ofTable T).replies script = (ofTable {}).replies script ∧
      ((ofTable T).afterCalls script).Renumbered ((ofTable {}).afterCalls script) := by
  intro T script
  have hs : Call.Introduced [] script := by
    simp [script, Call.Introduced, Call.types, Call.entered, NamedCommand.types,
      NamedCommand.entered]
  exact ⟨by decide +kernel, by decide +kernel, replies_independent T {} script hs⟩

end Graph

end DeferredIR
