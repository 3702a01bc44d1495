import ObjectModel.Graph.Basic
import ObjectModel.Graph.View

/-!
# Workspaces

A workspace owns the interners, the class tables and the value graphs that are in use, each under
its own identity. Interners grow; tables and graphs never change once they are there.
-/

set_option autoImplicit false

namespace ObjectModel

/-- The interners, class tables and graphs in use. -/
structure Workspace where
  interners : Array Interner := #[]
  tables : Array ClassTable := #[]
  graphs : Array Graph := #[]
deriving Inhabited

namespace Workspace

/-! ## Interners -/

/-- An interner. An identity that this workspace did not issue names the empty one. -/
def interner (w : Workspace) (id : InternerId) : Interner := (w.interners[id.index]?).getD .empty

/-- Add a new interner. -/
def addInterner (w : Workspace) : InternerId × Workspace :=
  (⟨w.interners.size⟩, { w with interners := w.interners.push .empty })

/-- Intern a string. -/
def intern (w : Workspace) (id : InternerId) (s : String) : Name × Workspace :=
  let (n, t) := (w.interner id).intern s
  (n, { w with interners := w.interners.setIfInBounds id.index t })

/-! ## Class tables -/

/-- A class table. An identity that this workspace did not issue names a table without classes. -/
def table (w : Workspace) (id : TableId) : ClassTable := (w.tables[id.index]?).getD (.empty ⟨0⟩)

/-- Add a finished class table. -/
def addTable (w : Workspace) (t : ClassTable) : TableId × Workspace :=
  (⟨w.tables.size⟩, { w with tables := w.tables.push t })

/-- The interner of a class table. -/
def tableNames (w : Workspace) (id : TableId) : Interner := w.interner (w.table id).interner

/-- Add a class to a table under construction, with the class's name in the words of its own
interner for the message. -/
def define (w : Workspace) (t : ClassTable) (c : ClassDef) : Except ClassError ClassTable :=
  t.define ((w.interner c.interner).text c.name) c

/-! ## Graphs -/

/-- A graph. An identity that this workspace did not issue names the graph without nodes. -/
def graph (w : Workspace) (id : GraphId) : Graph := (w.graphs[id.index]?).getD { nodes := #[] }

/-- Add a graph and give the value at a position of it. -/
def addGraph (w : Workspace) (g : Graph) (id : ValueId) : Value × Workspace :=
  (⟨⟨w.graphs.size⟩, g.nodes.resolve id⟩, { w with graphs := w.graphs.push g })

/-- A literal on its own, such as a top-level parameter. -/
def addLiteral (w : Workspace) (l : Literal) : Value × Workspace :=
  w.addGraph (.ofLiteral l) ⟨0⟩

/-- A list of literals on its own. -/
def addLiterals (w : Workspace) (elem : Ty) (ls : List Literal) : Value × Workspace :=
  w.addGraph (.ofLiterals elem ls) ⟨ls.length⟩

/-- What is needed to read a graph. -/
def view (w : Workspace) (id : GraphId) : View :=
  let g := w.graph id
  match g.table with
  | some t => { nodes := g.nodes, classes := w.table t, names := w.tableNames t }
  | none => { nodes := g.nodes, classes := .empty ⟨0⟩, names := .empty }

/-! ## What stays -/

/-- Adding a graph keeps the graphs there are. -/
theorem graph_addGraph {w : Workspace} {id : GraphId} (h : id.index < w.graphs.size) (g : Graph)
    (root : ValueId) : (w.addGraph g root).2.graph id = w.graph id := by
  simp [addGraph, graph, Array.getElem?_push_lt h, h]

/-- The value that is given for a new graph is one of that graph. -/
theorem graph_addGraph_new (w : Workspace) (g : Graph) (root : ValueId) :
    (w.addGraph g root).2.graph (w.addGraph g root).1.graph = g := by
  rw [addGraph, graph, Array.getElem?_push_size, Option.getD_some]

end Workspace

end ObjectModel
