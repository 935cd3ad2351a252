import DeferredIR.Graph.Basic
import DeferredIR.Palette

/-!
# Listings

A listing shows a graph function by function, one line for each node. It is made as lines of
pieces that know their role, and only then painted.
-/

namespace DeferredIR

/-- A piece of a line. -/
structure Span where
  role : Role
  text : String
deriving DecidableEq, Repr

abbrev Line := List Span

/-- How a listing is shown. -/
structure ListingOptions where
  palette : Palette := .plain
  /-- Whether nodes that were folded away are shown, marked as such. -/
  showDead : Bool := false
deriving DecidableEq, Repr

def Palette.paintLine (p : Palette) (line : Line) : String :=
  String.join (line.map fun s => p.paint s.role s.text)

/-- The painted lines, each ended by a line break. -/
def Palette.paintLines (p : Palette) (lines : List Line) : String :=
  String.join (lines.map fun line => p.paintLine line ++ "\n")

namespace Node

/-- The operands of a node as its line shows them: those of a call in parentheses after the callee,
where keywords stand before their values. -/
def operandText (n : Node) : Except Fault String := do
  match ← n.callLayout with
  | some layout =>
      let arguments := layout.positional.map ValueId.text ++
        layout.keyword.map fun p => p.1 ++ " = " ++ p.2.text
      return " " ++ layout.callee.text ++ "(" ++ ", ".intercalate arguments ++ ")"
  | none =>
      if n.operands.isEmpty then return ""
      else return " " ++ ", ".intercalate (n.operands.map ValueId.text)

/-- The attributes of a node as its line shows them. -/
def attributeSpans (n : Node) : Line :=
  match n.opcode.attributes? with
  | some attributes => [⟨.plain, " "⟩, ⟨.muted, "\x7b" ++ attributes ++ "\x7d"⟩]
  | none => []

/-- What stands before the result of a node that was folded away. -/
def deadMark (n : Node) : Line := if n.dead then [⟨.muted, "✗"⟩, ⟨.plain, " "⟩] else []

end Node

namespace Graph

/-- The line of a node. -/
def nodeLine (g : Graph) (n : Node) : Except Fault Line := do
  let operands ← n.operandText
  let type ← g.typeText n.result
  return ⟨.plain, "  "⟩ :: n.deadMark ++
    [⟨.plain, n.result.text ++ " = "⟩, ⟨.op, n.opcode.mnemonic⟩, ⟨.plain, operands⟩] ++
    n.attributeSpans ++ [⟨.plain, " : "⟩, ⟨.type, type⟩]

/-- A formal argument with its type. -/
def formalSpans (g : Graph) (v : ValueId) : Except Fault Line := do
  return [⟨.plain, v.text ++ ": "⟩, ⟨.type, ← g.typeText v⟩]

/-- The nodes of `f` that are shown. -/
def shownNodes (g : Graph) (showDead : Bool) (f : Func) : Except Fault (List Node) := do
  return (← f.body.mapM g.node).filter fun n => showDead || !n.dead

/-- The lines of a function: its head, its nodes and a closing brace. -/
def funcLines (g : Graph) (showDead : Bool) (f : Func) : Except Fault (List Line) := do
  let formals ← f.formals.mapM g.formalSpans
  let nodes ← (← g.shownNodes showDead f).mapM g.nodeLine
  let head : Line := ⟨.plain, "func "⟩ :: ⟨.op, "@" ++ f.name⟩ :: ⟨.plain, "("⟩ ::
    [⟨.plain, ", "⟩].intercalate formals ++ [⟨.plain, ") \x7b"⟩]
  return head :: nodes ++ [[⟨.plain, "\x7d"⟩]]

/-- The lines of a graph, with an empty line between functions. -/
def lines (g : Graph) (showDead : Bool) : Except Fault (List Line) := do
  return [[]].intercalate (← g.functions.toList.mapM (g.funcLines showDead))

/-- The listing of a graph. -/
def listing (g : Graph) (options : ListingOptions := {}) : Except Fault String := do
  return options.palette.paintLines (← g.lines options.showDead)

end Graph

end DeferredIR
