import ObjectModel.Class.Instr
import ObjectModel.Evaluation.Error

/-!
# Integer arithmetic

The operators on integer literals. Values are exact. The width of a result follows from the widths
of the operands and is widened where the value needs more bits; a result that would need more than
`widthLimit` bits is an error. A result is always signed.
-/

set_option autoImplicit false

namespace ObjectModel

namespace IntOp

/-- The widest result in bits. -/
def widthLimit : Nat := 65536

/-- Whether a width is within the limit. -/
def checkWidth (op : IntOp) (width : Nat) : Except EvalError Unit :=
  if width ≤ widthLimit then .ok ()
  else .error (.ofKind (.integerWidthExceeded op.mnemonic width widthLimit))

/-- The exact result, at least `nominal` bits wide. -/
def conclude (op : IntOp) (value : Int) (nominal : Nat) : Except EvalError IntLit := do
  let width := max nominal (IntLit.leastWidth value)
  op.checkWidth width
  return { value, width, signedness := .signed }

/-- A shift amount: not negative, and a number of 64 bits. -/
def shiftAmount (op : IntOp) (amount : Int) : Except EvalError Nat :=
  if amount < 0 then .error (.ofKind (.negativeShiftAmount op.mnemonic))
  else if amount < UInt64.size then .ok amount.toNat
  else .error (.ofKind (.shiftAmountTooLarge op.mnemonic))

/-- The width of a left shift, capped at the largest number of 64 bits. -/
def shiftedWidth (width amount : Nat) : Nat := min (width + amount) (UInt64.size - 1)

/-- Apply an operator. A right shift rounds toward negative infinity; a left shift that is too wide
is rejected before it is carried out. -/
def eval (op : IntOp) (lhs rhs : IntLit) : Except EvalError IntLit :=
  match op with
  | .add => op.conclude (lhs.value + rhs.value) (max lhs.width rhs.width + 1)
  | .mul => op.conclude (lhs.value * rhs.value) (lhs.width + rhs.width)
  | .shl => do
    let amount ← op.shiftAmount rhs.value
    let width := shiftedWidth lhs.width amount
    op.checkWidth width
    op.conclude (lhs.value <<< amount) width
  | .shr => do
    let amount ← op.shiftAmount rhs.value
    op.conclude (lhs.value >>> amount) lhs.width

end IntOp

end ObjectModel
