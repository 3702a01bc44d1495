import ObjectModel.Graph.Arena
import ObjectModel.Table
import ObjectModel.Evaluation.Stats

/-!
# Value graphs

The result of an evaluation: its arena, the class table that its objects belong to, and the
counters. A value is a position of a graph, and two values are the same when they are the same
position of the same graph.
-/

set_option autoImplicit false

namespace ObjectModel

/-- Which graph of a workspace. -/
structure GraphId where
  index : Nat
deriving DecidableEq, Repr, Inhabited

/-- The nodes that an evaluation leaves behind. -/
structure Graph where
  nodes : Arena
  /-- The class table of the objects; standalone values have none. -/
  table : Option TableId := none
  stats : Stats := {}
deriving Inhabited

/-- A position of a graph. -/
structure Value where
  graph : GraphId
  id : ValueId
deriving DecidableEq, Repr, Inhabited

/-- The inspection text of a graph. -/
def Graph.inspect (g : Graph) : String :=
  "ValueGraph \x7b nodes: " ++ toString g.nodes.size ++ ", stats: " ++ g.stats.inspect ++ ", .. \x7d"

namespace Graph

/-- A literal on its own. -/
def ofLiteral (l : Literal) : Graph := { nodes := #[.literal l] }

/-- A list of literals on its own: the literals, then the list. -/
def ofLiterals (elem : Ty) (ls : List Literal) : Graph where
  nodes := (ls.map Node.literal).toArray.push
    (.list elem ((List.range ls.length).map ValueId.mk))

end Graph

end ObjectModel
