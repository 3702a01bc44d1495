import ObjectModel.Workspace
import ObjectModel.Session.Basic

/-!
# Parameters from other graphs

A parameter is copied into the arena of the evaluation with everything that it leads to. Each node
is copied once per evaluation, however often and from however many parameters it is reached, so
sharing and cycles stay. Class names are carried over by their texts when the parameter belongs to
another class table; its classes must be defined in the table of the evaluation, and the class
names in its element types are interned there.
-/

set_option autoImplicit false

namespace ObjectModel

instance : Digest Value where
  digest v := v.id.index

/-- The nodes copied so far, and where the copy of each source node is. -/
structure Intake where
  nodes : Arena := #[]
  copies : Index Value ValueId := .empty

/-! ## Discovery -/

/-- The number of references in an arena. -/
def Arena.referenceCount (a : Arena) : Nat := (a.map fun n => n.children.length).foldl (· + ·) 0

/-- Collect what the waiting positions lead to and has no copy yet, depth first with the last child
first, and give each node the next free position. -/
def discover (source : Arena) (g : GraphId) :
    Nat → (waiting : List ValueId) → (next : Nat) → (order : Array ValueId) →
      Index Value ValueId → Array ValueId × Index Value ValueId
  | 0, _, _, order, copies => (order, copies)
  | _ + 1, [], _, order, copies => (order, copies)
  | n + 1, id :: waiting, next, order, copies =>
    let id := source.resolve id
    match copies.get? ⟨g, id⟩ with
    | some _ => discover source g n waiting next order copies
    | none =>
      let children := (source.node? id).elim [] Node.children
      discover source g n (children.reverse ++ waiting) (next + 1) (order.push id)
        (copies.insert ⟨g, id⟩ ⟨next⟩)

/-! ## Names -/

namespace Workspace

/-- A class name of a graph in the names of another table. -/
def translateClass (w : Workspace) (target : TableId) (source : Option TableId) (n : Name) :
    Except EvalError Name :=
  match source with
  | none => .error (.ofKind (.unknownClass ""))
  | some table =>
    if table = target then .ok n
    else
      let text := (w.tableNames table).text n
      match (w.table target).lookupText? (w.tableNames target) text with
      | some c => .ok c.name
      | none => .error (.ofKind (.unknownClass text))

/-- An element type of a graph in the names of another table. A class name that the table's
interner does not have joins it. -/
def translateType (w : Workspace) (target : TableId) (source : Option TableId) :
    Ty → Ty × Workspace
  | .cls n =>
    match source with
    | none => (.cls n, w)
    | some table =>
      if table = target then (.cls n, w)
      else
        let (m, w) := w.intern (w.table target).interner ((w.tableNames table).text n)
        (.cls m, w)
  | .list elem =>
    let (elem, w) := w.translateType target source elem
    (.list elem, w)
  | ty => (ty, w)

end Workspace

/-! ## Copies -/

/-- The copies of the nodes at some positions. -/
def copiesOf (copies : Index Value ValueId) (source : Arena) (g : GraphId) (ids : List ValueId) :
    Except Failure (List ValueId) :=
  match ids.mapM fun id => copies.get? ⟨g, source.resolve id⟩ with
  | some ids => .ok ids
  | none => .error .dangling

/-- The copy of a node. -/
def copyNode (w : Workspace) (target : TableId) (copies : Index Value ValueId) (g : GraphId)
    (n : Node) : Workspace × Except Failure Node :=
  let source := w.graph g
  let children := copiesOf copies source.nodes g n.children
  match n with
  | .literal l => (w, .ok (.literal l))
  | .object cls _ =>
    (w, do
      let cls ← (w.translateClass target source.table cls).mapError Failure.error
      return .object cls (← children))
  | .list elem _ =>
    let (elem, w) := w.translateType target source.table elem
    (w, children.map (Node.list elem))
  | .any _ =>
    (w, do
      match ← children with
      | [payload] => return .any payload
      | _ => .error .dangling)
  | .binding _ _ => (w, .error (.error (.custom "parameter value is not fully evaluated")))

/-- Append the copies of the nodes at the given positions, in order. -/
def copyNodes (target : TableId) (copies : Index Value ValueId) (g : GraphId) :
    List ValueId → Workspace → Arena → Workspace × Except Failure Arena
  | [], w, nodes => (w, .ok nodes)
  | id :: rest, w, nodes =>
    match (w.graph g).nodes.node? id with
    | none => (w, .error .dangling)
    | some n =>
      match copyNode w target copies g n with
      | (w, .ok n) => copyNodes target copies g rest w (nodes.push n)
      | (w, .error f) => (w, .error f)

namespace Intake

/-- Copy a value and give the position of its copy. -/
def add (target : TableId) (w : Workspace) (intake : Intake) (v : Value) :
    Workspace × Except Failure (ValueId × Intake) :=
  let source := (w.graph v.graph).nodes
  let root := source.resolve v.id
  match intake.copies.get? ⟨v.graph, root⟩ with
  | some id => (w, .ok (id, intake))
  | none =>
    let (order, copies) :=
      discover source v.graph (source.referenceCount + 2) [root] intake.nodes.size #[] intake.copies
    match copyNodes target copies v.graph order.toList w intake.nodes with
    | (w, .error f) => (w, .error f)
    | (w, .ok nodes) => (w, .ok (⟨intake.nodes.size⟩, { nodes, copies }))

/-- The type of a parameter; erased types report their payload. -/
def runtimeType (intake : Intake) (id : ValueId) : Ty :=
  let a := intake.nodes
  ((a.node? (a.narrow (a.resolve id))).map Node.type).getD .any

/-- Copy the parameters in order, each one checked against its declaration. -/
def addParams (target : TableId) :
    List (Decl × Value) → Workspace → Intake → Workspace × Except Failure (List ValueId × Intake)
  | [], w, intake => (w, .ok ([], intake))
  | (decl, v) :: rest, w, intake =>
    match intake.add target w v with
    | (w, .error f) => (w, .error f)
    | (w, .ok (id, intake)) =>
      let found := intake.runtimeType id
      if decl.type.accepts found then
        match addParams target rest w intake with
        | (w, .ok (ids, intake)) => (w, .ok (id :: ids, intake))
        | (w, .error f) => (w, .error f)
      else
        let names := w.tableNames target
        (w, .error (.error (.parameterTypeMismatch (names.text decl.name)
          (decl.type.render names) (found.render names))))

end Intake

end ObjectModel
