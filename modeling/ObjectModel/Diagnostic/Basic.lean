import ObjectModel.Diagnostic.Code

/-!
# Diagnostics

A diagnostic is a code with a severity, a message and notes. It has no position: class tables come
without text, so all context travels in the notes.
-/

set_option autoImplicit false

namespace ObjectModel

inductive Severity where
  | error
  | warning
  | note
deriving DecidableEq, Repr, Inhabited

def Severity.text : Severity → String
  | .error => "error"
  | .warning => "warning"
  | .note => "note"

/-- A report with a code, its notes outermost first. -/
structure Diagnostic where
  code : Code
  severity : Severity := .error
  message : String := ""
  notes : List String := []
deriving DecidableEq, Repr

namespace Diagnostic

/-- Replace the message. -/
def withMessage (d : Diagnostic) (message : String) : Diagnostic := { d with message }

/-- Add a last note. -/
def withNote (d : Diagnostic) (note : String) : Diagnostic := { d with notes := d.notes ++ [note] }

/-- Notes that are added one after the other stand in that order, and nothing else changes. -/
theorem foldl_withNote (d : Diagnostic) (notes : List String) :
    notes.foldl withNote d = { d with notes := d.notes ++ notes } := by
  induction notes generalizing d with
  | nil => simp
  | cons note rest ih => simp [ih, withNote]

/-- Whether the diagnostic reports an error. -/
def isError (d : Diagnostic) : Bool := d.severity == .error

/-- The written form: a head line, then one line per note. -/
def render (d : Diagnostic) : String :=
  d.notes.foldl (fun text note => text ++ "\n  = note: " ++ note)
    (d.severity.text ++ " [" ++ d.code.text ++ "]: " ++ d.message)

end Diagnostic

end ObjectModel
