import ObjectModel.Graph.Arena
import ObjectModel.Table
import ObjectModel.Evaluation.Error

/-!
# Reading a graph

A `View` gathers what is needed to read a graph. The downcasts look through erased types; fields
are found by their names in the class of the object.
-/

set_option autoImplicit false

namespace ObjectModel

/-- What is needed to read a graph: its nodes, its class table and the strings of its names. A
standalone graph is read with a table without classes and an interner without names. -/
structure View where
  nodes : Arena
  classes : ClassTable
  names : Interner

namespace View

/-- The node at a position. -/
def node? (v : View) (id : ValueId) : Option Node := v.nodes.node? id

/-- The error of a value that is not what was asked for. -/
def mismatch (v : View) (expected : String) (id : ValueId) : EvalError :=
  .ofKind (.typeMismatch expected (v.nodes.kind id))

/-! ## Downcasts

Each one looks through erased types, except the one to an erased type. -/

/-- The literal behind a value. -/
def asLiteral (v : View) (id : ValueId) : Except EvalError Literal :=
  let id := v.nodes.narrow id
  match v.node? id with
  | some (.literal l) => .ok l
  | _ => .error (v.mismatch "attribute" id)

/-- The integer behind a value. -/
def asInt (v : View) (id : ValueId) : Except EvalError IntLit :=
  let id := v.nodes.narrow id
  match v.node? id with
  | some (.literal (.int i)) => .ok i
  | _ => .error (v.mismatch "integer" id)

/-- The object behind a value. -/
def asObject (v : View) (id : ValueId) : Except EvalError ValueId :=
  let id := v.nodes.narrow id
  match v.node? id with
  | some (.object _ _) => .ok id
  | _ => .error (v.mismatch "object" id)

/-- The list behind a value. -/
def asList (v : View) (id : ValueId) : Except EvalError ValueId :=
  let id := v.nodes.narrow id
  match v.node? id with
  | some (.list _ _) => .ok id
  | _ => .error (v.mismatch "list" id)

/-- The value itself, if its type is erased. -/
def asAny (v : View) (id : ValueId) : Except EvalError ValueId :=
  match v.node? id with
  | some (.any _) => .ok id
  | _ => .error (v.mismatch "any" id)

/-! ## Objects, lists and erased types -/

/-- The class name and the field values of an object. -/
def objectParts (v : View) (id : ValueId) : Name × List ValueId :=
  match v.node? id with
  | some (.object cls fields) => (cls, fields)
  | _ => (.empty, [])

/-- The class of an object. -/
def class? (v : View) (id : ValueId) : Option ClassDef := v.classes.lookup? (v.objectParts id).1

/-- The text of an object's class name. -/
def className (v : View) (id : ValueId) : String := v.names.text (v.objectParts id).1

/-- The value of a field of an object, by name. -/
def field (v : View) (id : ValueId) (n : Name) : Except EvalError ValueId :=
  let value? := do
    let cls ← v.class? id
    let index ← cls.fieldIndex? n
    (v.objectParts id).2[index]?
  match value? with
  | some value => .ok (v.nodes.resolve value)
  | none => .error (.ofKind (.unknownField (v.names.text n)))

/-- The value of a field of an object, by the text of its name. -/
def fieldOfText (v : View) (id : ValueId) (s : String) : Except EvalError ValueId :=
  match v.names.get? s with
  | some n => v.field id n
  | none => .error (.ofKind (.unknownField s))

/-- The field names of an object's class, in declaration order. -/
def fieldNames (v : View) (id : ValueId) : List Name :=
  ((v.class? id).map ClassDef.fieldNames).getD []

/-- The fields of an object with their values, in declaration order. -/
def fields (v : View) (id : ValueId) : List (Name × ValueId) :=
  (v.fieldNames id).zip ((v.objectParts id).2.map v.nodes.resolve)

/-- The elements of a list. -/
def elements (v : View) (id : ValueId) : List ValueId :=
  match v.node? id with
  | some (.list _ elements) => elements.map v.nodes.resolve
  | _ => []

/-- The payload of a value whose type is erased; any other value is its own. -/
def payload (v : View) (id : ValueId) : ValueId :=
  match v.node? id with
  | some (.any payload) => v.nodes.resolve payload
  | _ => id

/-- What a reader gets to from a value in one move: the declared fields, elements or payload. -/
def successors (v : View) (id : ValueId) : List ValueId :=
  match v.node? id with
  | some (.object _ _) => (v.fields id).map Prod.snd
  | some (.list _ _) => v.elements id
  | some (.any _) => [v.payload id]
  | _ => []

/-- The type of a value as it stands. -/
def typeOf (v : View) (id : ValueId) : Ty := ((v.node? id).map Node.type).getD .any

end View

end ObjectModel
