import ObjectModel.Literal
import ObjectModel.Class.Instr

/-!
# Nodes

The values of one evaluation live in an arena and refer to each other by position, so sharing and
cycles are a matter of equal positions. A binding stands for the result of one instruction of one
frame and ends up naming the node of its value.
-/

set_option autoImplicit false

namespace ObjectModel

/-- A position in an arena. -/
structure ValueId where
  index : Nat
deriving DecidableEq, Repr, Inhabited

/-- The inspection text of a position. -/
def ValueId.inspect (id : ValueId) : String := "ValueId(" ++ toString id.index ++ ")"

/-- An instruction of a frame. -/
structure Slot where
  frame : Nat
  instr : Nat
deriving DecidableEq, Repr, Inhabited

/-- How far the value of a binding is. -/
inductive BindingState where
  | unstarted
  | inProgress
  | resolved (target : ValueId)
  | failed
deriving DecidableEq, Repr, Inhabited

/-- What a position of an arena holds. -/
inductive Node where
  | literal (l : Literal)
  /-- An instance of a class, one position per declared field. -/
  | object (cls : Name) (fields : List ValueId)
  | list (elem : Ty) (elements : List ValueId)
  /-- A value whose static type is erased. -/
  | any (payload : ValueId)
  /-- The result of an instruction. -/
  | binding (slot : Slot) (state : BindingState)
deriving DecidableEq, Repr, Inhabited

namespace Node

/-- The positions that a value refers to, in order. -/
def children : Node → List ValueId
  | .literal _ => []
  | .object _ fields => fields
  | .list _ elements => elements
  | .any payload => [payload]
  | .binding _ _ => []

/-- The value with every position replaced. A binding is left as it is. -/
def mapChildren (f : ValueId → ValueId) : Node → Node
  | .literal l => .literal l
  | .object cls fields => .object cls (fields.map f)
  | .list elem elements => .list elem (elements.map f)
  | .any payload => .any (f payload)
  | .binding slot state => .binding slot state

/-- The variant of a node, in words. -/
def kind : Node → String
  | .literal l => l.kind
  | .object _ _ => "object"
  | .list _ _ => "list"
  | .any _ => "any"
  | .binding _ _ => "unresolved value"

/-- The type of a node as it stands; an erased type is not looked through. -/
def type : Node → Ty
  | .literal l => l.type
  | .object cls _ => .cls cls
  | .list elem _ => .list elem
  | .any _ => .any
  | .binding _ _ => .any

/-- Whether the node is the result of an instruction and no value itself. -/
def isBinding : Node → Bool
  | .binding _ _ => true
  | _ => false

theorem children_mapChildren (f : ValueId → ValueId) (n : Node) :
    (n.mapChildren f).children = n.children.map f := by
  cases n <;> rfl

end Node

end ObjectModel
