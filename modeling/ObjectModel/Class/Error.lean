import ObjectModel.Diagnostic.Basic

/-!
# Rejected classes

Why a class definition, or its addition to a table, is rejected. Every reason names the class by
its text and has one message and one code.
-/

set_option autoImplicit false

namespace ObjectModel

/-- The reason for a rejected class. -/
inductive ClassError where
  | duplicateClass (cls : String)
  | duplicateParam (cls param : String)
  | duplicateField (cls field : String)
  | undefinedSlot (cls : String) (index : Nat)
  | operandOutOfRange (cls : String) (index : Nat) (operand : String)
  | missingTerminator (cls : String)
  | fieldCountMismatch (cls : String) (declared yielded : Nat)
  | emptyConcat (cls : String) (index : Nat)
  | foreignInterner (cls : String)
deriving DecidableEq, Repr

namespace ClassError

/-- The class a reason is about. -/
def cls : ClassError → String
  | duplicateClass c | duplicateParam c _ | duplicateField c _ | undefinedSlot c _
  | operandOutOfRange c _ _ | missingTerminator c | fieldCountMismatch c _ _ | emptyConcat c _
  | foreignInterner c => c

/-- The reason in words, without the class. -/
def reason : ClassError → String
  | duplicateClass _ => "is defined more than once"
  | duplicateParam _ param => "declares parameter \"" ++ param ++ "\" more than once"
  | duplicateField _ field => "declares field \"" ++ field ++ "\" more than once"
  | undefinedSlot _ index => "reserves instruction " ++ toString index ++ " but never defines it"
  | operandOutOfRange _ index operand =>
    "instruction " ++ toString index ++ " refers to " ++ operand ++ ", which does not exist"
  | missingTerminator _ => "has no fields terminator"
  | fieldCountMismatch _ declared yielded =>
    "declares " ++ toString declared ++ " fields but its terminator yields " ++ toString yielded
  | emptyConcat _ index => "instruction " ++ toString index ++ " concatenates no lists"
  | foreignInterner _ => "was built against a different interner than this table"

/-- The message: the class in double quotes, then the reason. -/
def message (e : ClassError) : String := "class \"" ++ e.cls ++ "\" " ++ e.reason

def code : ClassError → Code
  | duplicateClass _ => .duplicateClass
  | duplicateParam _ _ => .duplicateParam
  | duplicateField _ _ => .duplicateField
  | undefinedSlot _ _ => .undefinedSlot
  | operandOutOfRange _ _ _ => .operandOutOfRange
  | missingTerminator _ => .missingTerminator
  | fieldCountMismatch _ _ _ => .fieldCountMismatch
  | emptyConcat _ _ => .emptyConcat
  | foreignInterner _ => .foreignInterner

def toDiagnostic (e : ClassError) : Diagnostic := { code := e.code, message := e.message }

/-- Rejected classes are reported by the phase that builds class tables. -/
theorem phase_code (e : ClassError) : e.code.phase = .classTable := by
  cases e <;> rfl

end ClassError

end ObjectModel
