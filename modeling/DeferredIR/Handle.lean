/-!
# Handles

A handle is the position of an entry in an arena of a graph, in order of creation. It means
something only for the graph that issued it.
-/

namespace DeferredIR

/-- A function of a graph. -/
structure FuncId where
  index : Nat
deriving DecidableEq, Repr

/-- A node of a graph. -/
structure NodeId where
  index : Nat
deriving DecidableEq, Repr

/-- A value of a graph. -/
structure ValueId where
  index : Nat
deriving DecidableEq, Repr

/-- A type of a type table. Handle zero is the undefined type of every table. -/
structure TypeId where
  index : Nat
deriving DecidableEq, Repr

def FuncId.text (f : FuncId) : String := "@f" ++ f.index.repr

def NodeId.text (n : NodeId) : String := "op" ++ n.index.repr

def ValueId.text (v : ValueId) : String := "%" ++ v.index.repr

/-- The type that is not known yet. -/
def TypeId.undefined : TypeId := ⟨0⟩

/-- Whether a type is not known yet. -/
def TypeId.isUndefined (t : TypeId) : Bool := t = undefined

end DeferredIR
