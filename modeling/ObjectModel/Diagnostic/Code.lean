/-!
# Diagnostic codes

One stable code per kind of failure. The first digit of a code tells the phase that reports it:
1 for the construction of class tables, 6 for evaluation, 9 for the evaluator itself.
-/

set_option autoImplicit false

namespace ObjectModel

/-- The phase that reports a failure. -/
inductive Phase where
  | classTable
  | evaluation
  | internal
deriving DecidableEq, Repr, Inhabited

/-- The kinds of failure that carry a code. -/
inductive Code where
  | duplicateClass
  | duplicateParam
  | duplicateField
  | undefinedSlot
  | operandOutOfRange
  | missingTerminator
  | fieldCountMismatch
  | emptyConcat
  | foreignInterner
  | integerOperation
  | negativeShift
  | shiftTooLarge
  | integerTooWide
  | typeMismatch
  | parameterType
  | unknownClass
  | unknownField
  | unknownInstruction
  | parameterCount
  | nullParameter
  | depthLimit
  | instanceLimit
  | dataflowCycle
  | uncategorized
  | internal
deriving DecidableEq, Repr, Inhabited

namespace Code

/-- Every code, in ascending order. -/
def all : List Code :=
  [.duplicateClass, .duplicateParam, .duplicateField, .undefinedSlot, .operandOutOfRange,
    .missingTerminator, .fieldCountMismatch, .emptyConcat, .foreignInterner, .integerOperation,
    .negativeShift, .shiftTooLarge, .integerTooWide, .typeMismatch, .parameterType, .unknownClass,
    .unknownField, .unknownInstruction, .parameterCount, .nullParameter, .depthLimit,
    .instanceLimit, .dataflowCycle, .uncategorized, .internal]

/-- The written code. -/
def text : Code → String
  | .duplicateClass => "E1001"
  | .duplicateParam => "E1002"
  | .duplicateField => "E1003"
  | .undefinedSlot => "E1004"
  | .operandOutOfRange => "E1005"
  | .missingTerminator => "E1006"
  | .fieldCountMismatch => "E1007"
  | .emptyConcat => "E1008"
  | .foreignInterner => "E1009"
  | .integerOperation => "E6001"
  | .negativeShift => "E6002"
  | .shiftTooLarge => "E6003"
  | .integerTooWide => "E6004"
  | .typeMismatch => "E6010"
  | .parameterType => "E6011"
  | .unknownClass => "E6020"
  | .unknownField => "E6021"
  | .unknownInstruction => "E6022"
  | .parameterCount => "E6030"
  | .nullParameter => "E6031"
  | .depthLimit => "E6032"
  | .instanceLimit => "E6033"
  | .dataflowCycle => "E6040"
  | .uncategorized => "E6099"
  | .internal => "E9001"

/-- One line that explains the code. -/
def description : Code → String
  | .duplicateClass => "duplicate class name"
  | .duplicateParam => "duplicate parameter name"
  | .duplicateField => "duplicate field name"
  | .undefinedSlot => "reserved body slot never defined"
  | .operandOutOfRange => "operand out of range"
  | .missingTerminator => "missing fields terminator"
  | .fieldCountMismatch => "fields terminator arity mismatch"
  | .emptyConcat => "list concatenation without operands"
  | .foreignInterner => "class from a different interner"
  | .integerOperation => "failed to evaluate integer operation"
  | .negativeShift => "negative shift amount"
  | .shiftTooLarge => "shift amount too large"
  | .integerTooWide => "integer result too wide"
  | .typeMismatch => "type mismatch"
  | .parameterType => "parameter type mismatch"
  | .unknownClass => "unknown class"
  | .unknownField => "unknown field"
  | .unknownInstruction => "unknown instruction"
  | .parameterCount => "parameter count mismatch"
  | .nullParameter => "null parameter"
  | .depthLimit => "demand depth limit exceeded"
  | .instanceLimit => "instance limit exceeded"
  | .dataflowCycle => "dataflow cycle"
  | .uncategorized => "evaluation error"
  | .internal => "internal evaluator error"

/-- The phase that reports the code. -/
def phase : Code → Phase
  | .duplicateClass | .duplicateParam | .duplicateField | .undefinedSlot | .operandOutOfRange
  | .missingTerminator | .fieldCountMismatch | .emptyConcat | .foreignInterner => .classTable
  | .internal => .internal
  | _ => .evaluation

/-- The code with the given text. -/
def ofText? (s : String) : Option Code := all.find? (·.text == s)

/-- The listing is complete. -/
theorem mem_all (c : Code) : c ∈ all := by
  cases c <;> decide

/-- Reading a written code gives it back, so no two codes share a text. -/
theorem ofText?_text (c : Code) : ofText? c.text = some c := by
  cases c <;> decide

end Code

end ObjectModel
