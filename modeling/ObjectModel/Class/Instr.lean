import ObjectModel.Literal

/-!
# Body instructions

A class body is a list of instructions, each with one result. Operands refer to formal parameters
or to results of any instruction of the same body, declared before or after; order in the body
carries no meaning.
-/

set_option autoImplicit false

namespace ObjectModel

/-- A value that is local to a class body. -/
inductive LocalRef where
  /-- The formal parameter at that position. -/
  | param (index : Nat)
  /-- The result of the instruction at that position. -/
  | instr (index : Nat)
deriving DecidableEq, Repr, Inhabited

namespace LocalRef

/-- The reference in words. -/
def describe : LocalRef → String
  | .param i => "parameter " ++ toString i
  | .instr i => "instruction " ++ toString i

/-- Whether a body with `params` parameters and `instrs` instructions has this local. -/
def InRange (params instrs : Nat) : LocalRef → Prop
  | .param i => i < params
  | .instr i => i < instrs

instance (params instrs : Nat) (r : LocalRef) : Decidable (r.InRange params instrs) := by
  cases r <;> exact inferInstanceAs (Decidable (_ < _))

end LocalRef

/-- The integer operators. -/
inductive IntOp where
  | add
  | mul
  | shl
  | shr
deriving DecidableEq, Repr, Inhabited

/-- The name of an operator in messages. -/
def IntOp.mnemonic : IntOp → String
  | .add => "integer.add"
  | .mul => "integer.mul"
  | .shl => "integer.shl"
  | .shr => "integer.shr"

/-- One body instruction. -/
inductive Instr where
  | constant (literal : Literal)
  /-- Instantiate a class. Arguments are passed unevaluated. -/
  | object (target : Name) (args : List LocalRef)
  /-- Follow a path of fields from an object. -/
  | project (source : LocalRef) (path : List Name)
  | list (elem : Ty) (elements : List LocalRef)
  | concat (lists : List LocalRef)
  /-- Erase the static type of the operand. -/
  | any (operand : LocalRef)
  | binary (op : IntOp) (lhs rhs : LocalRef)
  /-- An instruction that this evaluator does not know. -/
  | unknown (op : Name)
deriving DecidableEq, Repr, Inhabited

namespace Instr

/-- All operands, in order. -/
def operands : Instr → List LocalRef
  | .constant _ => []
  | .object _ args => args
  | .project source _ => [source]
  | .list _ elements => elements
  | .concat lists => lists
  | .any operand => [operand]
  | .binary _ lhs rhs => [lhs, rhs]
  | .unknown _ => []

/-- The literal of a constant. -/
def literal? : Instr → Option Literal
  | .constant l => some l
  | _ => none

/-- The kind of an instruction, in one word. -/
def kind : Instr → String
  | .constant _ => "constant"
  | .object .. => "object"
  | .project .. => "object.field"
  | .list .. => "list.create"
  | .concat _ => "list.concat"
  | .any _ => "any.cast"
  | .binary op _ _ => op.mnemonic
  | .unknown _ => "unrecognized"

end Instr

end ObjectModel
