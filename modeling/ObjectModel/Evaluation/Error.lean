import ObjectModel.Diagnostic.Basic

/-!
# Evaluation errors

Why an evaluation fails. The kind of an error holds the data of its message; notes give context,
outermost first. An error may wrap another one as its cause, so an error is a chain that starts
with itself and ends with its root cause, and its diagnostic lists the whole chain.
-/

set_option autoImplicit false

namespace ObjectModel

/-- What went wrong. -/
inductive ErrorKind where
  /-- An arithmetic failure, told by the cause. -/
  | integerOperationFailed
  | negativeShiftAmount (op : String)
  | shiftAmountTooLarge (op : String)
  | integerWidthExceeded (op : String) (width limit : Nat)
  | typeMismatch (expected got : String)
  | parameterTypeMismatch (param : String)
  | unknownClass (name : String)
  | unknownField (field : String)
  | unknownInstruction (op : String)
  | parameterCountMismatch (actual formal : Nat)
  | nullParameter (param : String)
  | recursionLimit (depth : Nat)
  | instanceLimit (limit : Nat)
  /-- The class owns the value that was demanded while it was being computed. -/
  | dataflowCycle (cls : String)
  | custom (message : String)
deriving DecidableEq, Repr

namespace ErrorKind

/-- The message of an error of this kind. -/
def message : ErrorKind → String
  | integerOperationFailed => "failed to evaluate integer operation"
  | negativeShiftAmount op => "'" ++ op ++ "' op shift amount must be non-negative"
  | shiftAmountTooLarge op => "'" ++ op ++ "' op shift amount must be representable in 64 bits"
  | integerWidthExceeded op width limit =>
    "'" ++ op ++ "' op result needs " ++ toString width ++ " bits, more than the limit of " ++
      toString limit
  | typeMismatch expected got => "type mismatch: expected " ++ expected ++ ", got " ++ got
  | parameterTypeMismatch param => "actual parameter for \"" ++ param ++ "\" has invalid type"
  | unknownClass name => "unknown class name \"" ++ name ++ "\""
  | unknownField field => "field \"" ++ field ++ "\" does not exist"
  | unknownInstruction op => "unknown instruction '" ++ op ++ "'"
  | parameterCountMismatch actual formal =>
    "actual parameter list length (" ++ toString actual ++
      ") does not match formal parameter list length (" ++ toString formal ++ ")"
  | nullParameter param => "actual parameter for \"" ++ param ++ "\" is null"
  | recursionLimit depth => "maximum evaluation depth exceeded (limit: " ++ toString depth ++ ")"
  | instanceLimit limit =>
    "maximum number of object instances exceeded (limit: " ++ toString limit ++ ")"
  | dataflowCycle _ =>
    "failed to finalize evaluation. Probably the class contains a dataflow cycle"
  | custom message => message

def code : ErrorKind → Code
  | integerOperationFailed => .integerOperation
  | negativeShiftAmount _ => .negativeShift
  | shiftAmountTooLarge _ => .shiftTooLarge
  | integerWidthExceeded _ _ _ => .integerTooWide
  | typeMismatch _ _ => .typeMismatch
  | parameterTypeMismatch _ => .parameterType
  | unknownClass _ => .unknownClass
  | unknownField _ => .unknownField
  | unknownInstruction _ => .unknownInstruction
  | parameterCountMismatch _ _ => .parameterCount
  | nullParameter _ => .nullParameter
  | recursionLimit _ => .depthLimit
  | instanceLimit _ => .instanceLimit
  | dataflowCycle _ => .dataflowCycle
  | custom _ => .uncategorized

end ErrorKind

/-- One error of a chain of causes. -/
structure ErrorLink where
  kind : ErrorKind
  /-- The text of the error, that of its kind if nothing else is said. -/
  message : String := kind.message
  notes : List String := []
deriving DecidableEq, Repr

/-- An evaluation error with the errors it wraps, the root cause last. -/
structure EvalError extends ErrorLink where
  causes : List ErrorLink := []
deriving DecidableEq, Repr

namespace EvalError

/-- An error of a kind, with the message of that kind and without notes or cause. -/
def ofKind (kind : ErrorKind) : EvalError := { kind }

/-- An error that has a message only. -/
def custom (message : String) : EvalError := ofKind (.custom message)

def code (e : EvalError) : Code := e.kind.code

/-- Add a last note. -/
def withNote (e : EvalError) (note : String) : EvalError := { e with notes := e.notes ++ [note] }

/-- Wrap `cause`, in place of any cause so far. -/
def withCause (e cause : EvalError) : EvalError :=
  { e with causes := cause.toErrorLink :: cause.causes }

/-- The error that this one wraps. -/
def cause? (e : EvalError) : Option EvalError :=
  match e.causes with
  | [] => none
  | link :: rest => some { toErrorLink := link, causes := rest }

/-- The innermost error of the chain, the error itself if it wraps none. -/
def rootCause (e : EvalError) : EvalError :=
  { toErrorLink := e.causes.getLast?.getD e.toErrorLink }

/-- The note that announces a cause. -/
def causeNote (link : ErrorLink) : String :=
  "caused by [" ++ link.kind.code.text ++ "]: " ++ link.message

/-- Add the notes on a wrapped error: the one that announces it, then its own. -/
def tellCause (d : Diagnostic) (cause : ErrorLink) : Diagnostic :=
  cause.notes.foldl Diagnostic.withNote (d.withNote (causeNote cause))

/-- The error as a diagnostic: its own notes, then every cause with its notes. -/
def toDiagnostic (e : EvalError) : Diagnostic :=
  e.causes.foldl tellCause
    (e.notes.foldl Diagnostic.withNote (Diagnostic.withMessage { code := e.code } e.message))

/-! ## The errors of the evaluator -/

/-- An arithmetic failure. -/
def integerOperationFailed (cause : EvalError) : EvalError :=
  (ofKind .integerOperationFailed).withCause cause

/-- A parameter whose type is not accepted, with both types in a note. -/
def parameterTypeMismatch (param expected found : String) : EvalError :=
  (ofKind (.parameterTypeMismatch param)).withNote
    ("expected `" ++ expected ++ "`, found `" ++ found ++ "`")

/-- A value that was demanded while it was being computed. -/
def dataflowCycle (cls : String) : EvalError :=
  (ofKind (.dataflowCycle cls)).withNote ("while evaluating class \"" ++ cls ++ "\"")

end EvalError

end ObjectModel
