import DeferredIR.Fold.Rounds
import DeferredIR.Request

/-!
# Commands

The public edits of a graph as data. Running a command yields the graph after it also where the
command fails, so a script of commands has a graph after every step.
-/

namespace DeferredIR

inductive Command where
  | internType (name : String)
  | addFunc (name : String) (types : List TypeId)
  | build (func : FuncId) (options : FoldOptions) (request : Request)
  | assignType (value : ValueId) (type : TypeId)
  | replace (old new : ValueId)
  | foldAll (options : FoldOptions)

/-- What a command answers. -/
inductive Answer where
  | type (type : TypeId)
  | func (func : FuncId)
  | value (value : ValueId)
  | done
  | count (n : Nat)
  | folded (report : FoldReport)
deriving DecidableEq, Repr

namespace Command

/-- The edit that a command asks for. -/
def edit : Command → Edit Answer
  | internType name => Answer.type <$> Edit.internType name
  | addFunc name types => Answer.func <$> Edit.addFunc name types
  | build func options request => Answer.value <$> Edit.build func options request
  | assignType value type => do
      Edit.assignType value type
      return .done
  | replace old new => Answer.count <$> Edit.replace old new
  | foldAll options => Answer.folded <$> Edit.foldAll options

/-- The answer of a command on `g`, and the graph after it. -/
def run (c : Command) (g : Graph) : Except Error Answer × Graph :=
  match c.edit.run g with
  | .ok answer g' => (.ok answer, g')
  | .error e g' => (.error e, g')

end Command

namespace Graph

/-- The graph without functions over the types of `table`. -/
def ofTable (table : TypeTable) : Graph := { types := table }

/-- The graph after a script, in which each command may fail. -/
def after (g : Graph) (script : List Command) : Graph :=
  script.foldl (fun g c => (c.run g).2) g

/-- The graphs that commands can make. -/
def Reachable (g : Graph) : Prop := ∃ table script, g = (ofTable table).after script

end Graph

end DeferredIR
