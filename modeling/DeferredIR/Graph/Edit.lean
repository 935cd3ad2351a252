import DeferredIR.Graph.Write

/-!
# Edits

An edit reads and changes a graph and can fail; what it changed before it failed stays changed. The
edits of this module check all their handles before they change anything, except for the two that
a fold is made of, `redirect` and `retire`, which only fault where the graph is damaged.
-/

namespace DeferredIR

/-- A change of a graph that may fail and keeps its graph when it does. -/
abbrev Edit := EStateM Error Graph

/-- The answer of a read of the current graph. -/
def Edit.read {m : Type → Type} [MonadLiftT m (Except Error)] {α : Type} (f : Graph → m α) :
    Edit α := fun g =>
  match (liftM (f g) : Except Error α) with
  | .ok a => .ok a g
  | .error e => .error e g

/-- A read leaves the graph as it is, whether it fails or not. -/
theorem Edit.run_read {m : Type → Type} [MonadLiftT m (Except Error)] {α : Type}
    (f : Graph → m α) (g : Graph) :
    (Edit.read f).run g =
      match (liftM (f g) : Except Error α) with
      | .ok a => .ok a g
      | .error e => .error e g := rfl

namespace Graph

/-- Refuses a handle that names no value. -/
def requireValue (g : Graph) (v : ValueId) : Except Error Unit :=
  if v.index < g.values.size then .ok () else .error (.edit (.unknownValue v))

/-- Refuses the result of a dead node. -/
def requireLive (g : Graph) (v : ValueId) : Except Error Unit := do
  match ← g.definingNode? v with
  | some { dead := true, .. } => throw (.edit (.deadValue v))
  | _ => return

/-- Refuses a value that a node of `f` may not read. -/
def requireReadable (g : Graph) (f : FuncId) (v : ValueId) : Except Error Unit := do
  g.requireValue v
  g.requireLive v
  let owner ← g.owner v
  if owner ≠ f then throw (.edit (.foreignOperand v owner f))

/-- Refuses a handle that names no function. -/
def requireFunc (g : Graph) (f : FuncId) : Except Error Unit :=
  if f.index < g.functions.size then .ok () else .error (.edit (.unknownFunction f))

/-- Refuses a handle of another type table. -/
def requireType (g : Graph) (t : TypeId) : Except Error Unit :=
  if g.types.contains t then .ok () else .error (.edit (.foreignType t))

/-- Refuses a draft that is not fit for `f`. -/
def requireDraft (g : Graph) (f : FuncId) (d : Draft) : Except Error Unit := do
  g.requireFunc f
  g.requireType d.type
  d.operands.forM (g.requireReadable f)
  (d.opcode.check d.operands.length).mapError .edit

/-- Refuses to give `v` the type `t`, unless `v` has none yet. -/
def requireAssignable (g : Graph) (v : ValueId) (t : TypeId) : Except Error Unit := do
  g.requireValue v
  g.requireLive v
  g.requireType t
  if t = .undefined then throw (.edit (.undefinedAssignment v))
  if (← g.value v).type ≠ .undefined then throw (.edit (.alreadyTyped v))

/-- Refuses a value that the readers of `old` may not read. -/
def requireReplaceable (g : Graph) (old new : ValueId) : Except Error Unit := do
  g.requireValue old
  g.requireValue new
  g.requireReadable (← g.owner old) new

/-- The recorded readers of `old`. A fault if one of them is no operand slot, or if there is no
value `new`. -/
def readers (g : Graph) (old new : ValueId) : Except Fault (List Use) := do
  let uses := (← g.value old).uses
  uses.forM fun u => do discard ((← g.node u.node).operand u.slot)
  discard (g.value new)
  return uses

/-- The node `n`. A fault if it reads an unknown value. -/
def readable (g : Graph) (n : NodeId) : Except Fault Node := do
  let node ← g.node n
  unless node.dead do node.operands.forM fun v => discard (g.value v)
  return node

end Graph

namespace Edit

/-- Enters a type name. -/
def internType (name : String) : Edit TypeId := do
  let (t, types) ← read fun g => (g.types.intern name).mapError Error.edit
  modify fun g => { g with types }
  return t

/-- Adds a function with formal arguments of the given types. -/
def addFunc (name : String) (types : List TypeId) : Edit FuncId := do
  read fun g => types.forM g.requireType
  let f := (← get).nextFunc
  modify fun g => g.appendFunc name types
  return f

/-- Gives `v` its type, once. -/
def assignType (v : ValueId) (t : TypeId) : Edit Unit := do
  read fun g => g.requireAssignable v t
  modify fun g => g.assignType v t

/-- Makes each recorded reader of `old` read `new`, and counts the slots. -/
def redirect (old new : ValueId) : Edit Nat := do
  if old = new then return 0
  let uses ← read fun g => g.readers old new
  modify fun g => g.redirect old new
  return uses.length

/-- Makes the readers of `old` read `new`, if they may, and counts the slots. -/
def replace (old new : ValueId) : Edit Nat := do
  read fun g => g.requireReplaceable old new
  redirect old new

/-- Marks `n` dead and forgets what it read. A dead node stays as it is. -/
def retire (n : NodeId) : Edit Unit := do
  let node ← read fun g => g.readable n
  unless node.dead do modify fun g => g.retire n

/-- Appends a node to `f`, and returns its handle and its result. -/
def push (f : FuncId) (d : Draft) : Edit (NodeId × ValueId) := do
  read fun g => g.requireDraft f d
  let g ← get
  modify fun g => g.append f d
  return (g.nextNode, g.nextValue)

/-! ## Runs of the edits

Each edit is one read of the graph that may fail, then one write. -/

theorem run_internType {name : String} {g : Graph} :
    (internType name).run g =
      match g.types.intern name with
      | .ok (t, types) => .ok t { g with types }
      | .error e => .error (.edit e) g := by
  rw [internType, EStateM.run_bind, run_read]
  cases g.types.intern name <;> rfl

theorem run_addFunc {name : String} {types : List TypeId} {g : Graph} :
    (addFunc name types).run g =
      match types.forM g.requireType with
      | .ok () => .ok g.nextFunc (g.appendFunc name types)
      | .error e => .error e g := by
  rw [addFunc, EStateM.run_bind, run_read]
  cases types.forM g.requireType <;> rfl

theorem run_assignType {v : ValueId} {t : TypeId} {g : Graph} :
    (assignType v t).run g =
      match g.requireAssignable v t with
      | .ok () => .ok () (g.assignType v t)
      | .error e => .error e g := by
  rw [assignType, EStateM.run_bind, run_read]
  cases g.requireAssignable v t <;> rfl

theorem run_redirect {old new : ValueId} {g : Graph} :
    (redirect old new).run g =
      if old = new then .ok 0 g
      else
        match g.readers old new with
        | .ok uses => .ok uses.length (g.redirect old new)
        | .error e => .error (.fault e) g := by
  rw [redirect]
  split
  · rfl
  · rw [EStateM.run_bind, run_read]
    cases g.readers old new <;> rfl

theorem run_replace {old new : ValueId} {g : Graph} :
    (replace old new).run g =
      match g.requireReplaceable old new with
      | .ok () => (redirect old new).run g
      | .error e => .error e g := by
  rw [replace, EStateM.run_bind, run_read]
  cases g.requireReplaceable old new <;> rfl

theorem run_retire {n : NodeId} {g : Graph} :
    (retire n).run g =
      match g.readable n with
      | .ok node => .ok () (if node.dead then g else g.retire n)
      | .error e => .error (.fault e) g := by
  rw [retire, EStateM.run_bind, run_read]
  cases g.readable n with
  | error e => rfl
  | ok node => cases hd : node.dead <;> simp [hd]

theorem run_push {f : FuncId} {d : Draft} {g : Graph} :
    (push f d).run g =
      match g.requireDraft f d with
      | .ok () => .ok (g.nextNode, g.nextValue) (g.append f d)
      | .error e => .error e g := by
  rw [push, EStateM.run_bind, run_read]
  cases g.requireDraft f d <;> rfl

end Edit

end DeferredIR
