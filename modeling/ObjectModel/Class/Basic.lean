import ObjectModel.Class.Instr

/-!
# Classes

A class has formal parameters, fields, a body of instructions and a terminator that yields one
local of the body per field. `ValidBody` says when these parts fit together, and a `ClassDef`
carries a proof of it.
-/

set_option autoImplicit false

namespace ObjectModel

/-- A declared parameter or field. -/
structure Decl where
  name : Name
  type : Ty
deriving DecidableEq, Repr, Inhabited

/-- The parts of a class fit together: parameter names and field names are distinct, every operand
and every yielded local exists, no concatenation is empty, and each field is yielded once. -/
structure ValidBody (params fields : List Decl) (instrs : Array Instr) (yields : List LocalRef) :
    Prop where
  params_nodup : (params.map Decl.name).Nodup
  fields_nodup : (fields.map Decl.name).Nodup
  operands_inRange : ∀ i ∈ instrs, ∀ r ∈ i.operands, r.InRange params.length instrs.size
  concat_nonempty : ∀ i ∈ instrs, i ≠ .concat []
  yields_length : yields.length = fields.length
  yields_inRange : ∀ r ∈ yields, r.InRange params.length instrs.size

/-- A class definition. Every name in it belongs to one interner. -/
structure ClassDef where
  interner : InternerId
  name : Name
  params : List Decl
  fields : List Decl
  instrs : Array Instr
  /-- The local that each field shows, in declaration order. -/
  yields : List LocalRef
  valid : ValidBody params fields instrs yields

namespace ClassDef

/-- The position of a field in declaration order. -/
def fieldIndex? (c : ClassDef) (n : Name) : Option Nat := c.fields.findIdx? (·.name == n)

/-- The field names in declaration order. -/
def fieldNames (c : ClassDef) : List Name := c.fields.map Decl.name

/-- The number of locals: parameters and instruction results. -/
def localCount (c : ClassDef) : Nat := c.params.length + c.instrs.size

/-- Whether two definitions agree in everything but the interner. -/
def agrees (a b : ClassDef) : Bool :=
  a.name == b.name && a.params == b.params && a.fields == b.fields && a.instrs == b.instrs &&
    a.yields == b.yields

end ClassDef

end ObjectModel
