import ObjectModel.Interner

/-!
# Declared types

The types of parameters, fields and list elements. `any` accepts every value, `integer` every exact
width, and lists are covariant; every other type accepts itself alone.
-/

set_option autoImplicit false

namespace ObjectModel

/-- A declared type. -/
inductive Ty where
  /-- An integer of any width. -/
  | integer
  /-- An integer of one exact width in bits. -/
  | int (width : Nat)
  | bool
  | string
  /-- A constant that is not interpreted, tagged with its kind. -/
  | tagged (kind : String)
  | list (elem : Ty)
  /-- An instance of the class with that name. -/
  | cls (name : Name)
  /-- Every value. -/
  | any
deriving DecidableEq, Repr, Inhabited

namespace Ty

/-- Whether a value of runtime type `found` may be bound where `declared` stands. -/
def accepts : (declared found : Ty) → Bool
  | .any, _ => true
  | .integer, .integer => true
  | .integer, .int _ => true
  | .list a, .list b => a.accepts b
  | a, b => a == b

/-- The element type of a list type. -/
def elem? : Ty → Option Ty
  | .list a => some a
  | _ => none

/-- The written form of a type, its class names read through `names`. -/
def render (names : Interner) : Ty → String
  | .integer => "integer"
  | .int width => "i" ++ toString width
  | .bool => "bool"
  | .string => "string"
  | .tagged kind => "opaque<" ++ kind ++ ">"
  | .list elem => "list<" ++ elem.render names ++ ">"
  | .cls name => "class<" ++ names.text name ++ ">"
  | .any => "any"

/-- The outline of a type: its written form with every class type shown as `class` alone. -/
def outline : Ty → String
  | .integer => "integer"
  | .int width => "i" ++ toString width
  | .bool => "bool"
  | .string => "string"
  | .tagged kind => "opaque<" ++ kind ++ ">"
  | .list elem => "list<" ++ elem.outline ++ ">"
  | .cls _ => "class"
  | .any => "any"

theorem any_accepts (a : Ty) : accepts .any a = true := by
  simp [accepts]

theorem list_accepts_list (a b : Ty) : accepts (.list a) (.list b) = accepts a b := by
  simp [accepts]

/-- Every type accepts itself. -/
theorem accepts_self (a : Ty) : a.accepts a = true := by
  induction a with
  | list elem ih => simpa [accepts] using ih
  | _ => simp [accepts]

end Ty

end ObjectModel
