import DeferredIR.Graph.Basic

/-!
# JSON export

The functions of a graph with their formal arguments and nodes, dead nodes included. Types are
exported in their written form, so the export does not depend on the numbering of a type table.
-/

namespace DeferredIR.Graph

/-- A value and its type. -/
def valueJson (g : Graph) (v : ValueId) : Except Fault Json := do
  return .obj [("id", .int v.index), ("type", .str (← g.typeText v))]

/-- A node. Only a dead node says whether it is dead. -/
def nodeJson (g : Graph) (n : NodeId) : Except Fault Json := do
  let node ← g.node n
  let result ← g.valueJson node.result
  return .obj <| ("id", .int n.index) :: node.opcode.members ++
    [("operands", .arr (node.operands.map fun v => .int v.index)), ("result", result)] ++
    if node.dead then [("dead", .bool true)] else []

def funcJson (g : Graph) (f : Func) : Except Fault Json := do
  let args ← f.formals.mapM g.valueJson
  let ops ← f.body.mapM g.nodeJson
  return .obj [("name", .str f.name), ("args", .arr args), ("ops", .arr ops)]

def toJson (g : Graph) : Except Fault Json := do
  return .obj [("functions", .arr (← g.functions.toList.mapM g.funcJson))]

/-- The text of the export, one item a line. -/
def jsonText (g : Graph) : Except Fault String := Json.pretty <$> g.toJson

end DeferredIR.Graph
