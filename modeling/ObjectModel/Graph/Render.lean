import ObjectModel.Graph.View

/-!
# The written form of a value

An object is written in full where it first occurs and as a back reference wherever it occurs
again. A list or an erased type inside itself is cut, so cyclic graphs have a finite form. The form
is a sequence of pieces, from which the text is put together.
-/

set_option autoImplicit false

namespace ObjectModel

/-- A piece of a written value. -/
inductive Piece where
  | literal (l : Literal)
  /-- The start of an object that is written in full. -/
  | objectStart (id : ValueId) (cls : String)
  /-- The label of the field at a position; a field without declaration has its position. -/
  | label (position : Nat) (name : Option String)
  /-- The end of an object with so many fields. -/
  | objectEnd (fieldCount : Nat)
  /-- An object that was written in full before. -/
  | backReference (id : ValueId) (cls : String)
  | listStart (id : ValueId)
  | separator
  | listEnd
  | anyStart (id : ValueId)
  | anyEnd
  /-- A list or an erased type inside itself. -/
  | cut (id : ValueId)
  | unresolved
deriving DecidableEq, Repr

/-- The text of a piece. -/
def Piece.text : Piece → String
  | .literal l => l.render
  | .objectStart _ cls => cls ++ " \x7b"
  | .label position name =>
    (if position = 0 then " " else ", ") ++ name.getD ("#" ++ toString position) ++ ": "
  | .objectEnd fieldCount => if fieldCount = 0 then "\x7d" else " \x7d"
  | .backReference id cls => "<" ++ cls ++ "#" ++ toString id.index ++ ">"
  | .listStart _ => "["
  | .separator => ", "
  | .listEnd => "]"
  | .anyStart _ => "any("
  | .anyEnd => ")"
  | .cut _ => "..."
  | .unresolved => "<unresolved>"

/-- What is written so far. -/
structure Writing where
  /-- The objects that are written in full. -/
  opened : List ValueId := []
  /-- The lists and erased types that are being written. -/
  active : List ValueId := []
  pieces : Array Piece := #[]

namespace Writing

/-- Write a piece. -/
def emit (w : Writing) (p : Piece) : Writing := { w with pieces := w.pieces.push p }

/-- Begin to write an object in full. -/
def openObject (w : Writing) (id : ValueId) (cls : String) : Writing :=
  { w with opened := id :: w.opened, pieces := w.pieces.push (.objectStart id cls) }

/-- Begin to write a list or an erased type. -/
def enter (w : Writing) (id : ValueId) (start : Piece) : Writing :=
  { w with active := id :: w.active, pieces := w.pieces.push start }

/-- End a list or an erased type. -/
def leave (w : Writing) (id : ValueId) (stop : Piece) : Writing :=
  { w with active := w.active.erase id, pieces := w.pieces.push stop }

end Writing

namespace View

/-- The label of an object's fields: the names that its class declares. -/
def label (v : View) (cls : Name) (position : Nat) : Piece :=
  .label position
    (((v.classes.lookup? cls).bind fun c => c.fields[position]?).map fun d => v.names.text d.name)

/-- The fields of an object in order, each one behind its label. -/
def labelled (v : View) (cls : Name) (fields : List ValueId) : List (List Piece × ValueId) :=
  fields.zipIdx.map fun (field, position) => ([v.label cls position], field)

/-- The elements of a list in order, each one but the first behind a separator. -/
def separated (elements : List ValueId) : List (List Piece × ValueId) :=
  elements.zipIdx.map fun (element, position) =>
    (if position = 0 then [] else [.separator], element)

/-- Write a value, at most so many levels deep. -/
def write (v : View) : Nat → ValueId → Writing → Writing
  | 0, _, w => w.emit .unresolved
  | depth + 1, id, w =>
    let id := v.nodes.resolve id
    match v.node? id with
    | none => w.emit .unresolved
    | some (.binding _ _) => w.emit .unresolved
    | some (.literal l) => w.emit (.literal l)
    | some (.object cls fields) =>
      if w.opened.contains id then w.emit (.backReference id (v.names.text cls))
      else
        let w := (v.labelled cls fields).foldl (fun w c => write v depth c.2 (c.1.foldl .emit w))
          (w.openObject id (v.names.text cls))
        w.emit (.objectEnd fields.length)
    | some (.list _ elements) =>
      if w.active.contains id then w.emit (.cut id)
      else
        let w := (separated elements).foldl (fun w c => write v depth c.2 (c.1.foldl .emit w))
          (w.enter id (.listStart id))
        w.leave id .listEnd
    | some (.any payload) =>
      if w.active.contains id then w.emit (.cut id)
      else (write v depth payload (w.enter id (.anyStart id))).leave id .anyEnd

/-- The pieces of a written value. No value is nested deeper than there are nodes. -/
def pieces (v : View) (id : ValueId) : Array Piece :=
  (v.write (v.nodes.size + 1) id {}).pieces

/-- The written form of a value. -/
def render (v : View) (id : ValueId) : String :=
  (v.pieces id).foldl (fun text p => text ++ p.text) ""

/-- The inspection text of a value in the role of that name. -/
def inspect (v : View) (role : String) (id : ValueId) : String := role ++ "(" ++ v.render id ++ ")"

end View

end ObjectModel
