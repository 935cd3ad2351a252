import DeferredIR.Error

/-!
# Type tables

A type is undefined or has a name. A table numbers the names it was given from one upwards, in
order of first entry, so types of one table are equal exactly when their handles are.
-/

namespace DeferredIR

/-- What a type handle stands for. -/
inductive TypeName where
  | undefined
  | named (name : String)
deriving DecidableEq, Repr

/-- The written form of a type; the undefined type is written with an empty name. -/
def TypeName.text : TypeName → String
  | undefined => "PyType<>"
  | named name => "PyType<" ++ name ++ ">"

/-- Reads the written form of a type. Types are only ever named through a table, so no text denotes
one. -/
def TypeName.parse (text : String) : Except ParseError TypeName := .error (.unknownType text)

/-- The named types, without repetition, in order of first entry. -/
structure TypeTable where
  names : List String := []
  nodup : names.Nodup := by simp
  empty_notMem : "" ∉ names := by simp

namespace TypeTable

/-- The number of named types. -/
def size (T : TypeTable) : Nat := T.names.length

/-- Whether the handle is of this table. -/
def contains (T : TypeTable) (t : TypeId) : Bool := t.index ≤ T.size

/-- What `t` stands for in this table. -/
def name? (T : TypeTable) (t : TypeId) : Option TypeName :=
  match t.index with
  | 0 => some .undefined
  | i + 1 => T.names[i]?.map .named

/-- What `t` stands for, or a fault. -/
def name (T : TypeTable) (t : TypeId) : Except Fault TypeName :=
  match T.name? t with
  | some name => .ok name
  | none => .error (.foreignType t)

/-- The written form of `t`. -/
def text (T : TypeTable) (t : TypeId) : Except Fault String := TypeName.text <$> T.name t

/-- The handle of a name that has been entered. -/
def find? (T : TypeTable) (name : String) : Option TypeId :=
  (T.names.idxOf? name).map fun i => ⟨i + 1⟩

/-- The named types with their handles. -/
def entries (T : TypeTable) : List (TypeId × String) :=
  T.names.zipIdx.map fun p => (⟨p.2 + 1⟩, p.1)

/-- The handle of `name`, with the table in which it has one. The undefined type takes the place of
the empty name. -/
def intern (T : TypeTable) (name : String) : Except EditError (TypeId × TypeTable) :=
  if h₀ : name = "" then .error .emptyTypeName
  else if h : name ∈ T.names then .ok (⟨T.names.idxOf name + 1⟩, T)
  else .ok (⟨T.size + 1⟩,
    { names := T.names ++ [name]
      nodup := by
        simp only [List.nodup_append, T.nodup, List.mem_singleton]
        exact ⟨trivial, by simp, fun a ha b hb e => h (hb ▸ e ▸ ha)⟩
      empty_notMem := by simp [T.empty_notMem, Ne.symm h₀] })

/-- A table of `names`, entered one after the other. -/
def ofNames (names : List String) : Except EditError TypeTable :=
  names.foldlM (fun T name => Prod.snd <$> T.intern name) {}

end TypeTable

end DeferredIR
