import ObjectModel.Type
import ObjectModel.Graph.Node
import ObjectModel.Evaluation.Error

/-!
# List concatenation

Typed lists are joined left to right. All of them must have one element type; the result refers to
the same elements as its operands.
-/

set_option autoImplicit false

namespace ObjectModel

/-- The elements of a list with their declared type. -/
structure TypedList where
  elem : Ty
  elements : List ValueId
deriving DecidableEq, Repr

namespace TypedList

/-- The outline of a list's type. -/
def outline (l : TypedList) : String := "list<" ++ l.elem.outline ++ ">"

/-- Join the lists. The first list whose element type differs from that of the very first one is
reported. -/
def concat : List TypedList → Except EvalError TypedList
  | [] => .error (.custom "list concatenation needs at least one list")
  | first :: rest =>
    match rest.find? fun l => l.elem != first.elem with
    | some l => .error (.ofKind (.typeMismatch first.outline l.outline))
    | none => .ok { first with elements := first.elements ++ rest.flatMap TypedList.elements }

/-- Joining lists of which there is at least one succeeds exactly if they share one element type. -/
theorem concat_eq_ok_iff (first : TypedList) (rest : List TypedList) :
    (∃ l, concat (first :: rest) = .ok l) ↔ ∀ l ∈ rest, l.elem = first.elem := by
  have key : rest.find? (fun l => l.elem != first.elem) = none ↔
      ∀ l ∈ rest, l.elem = first.elem := by simp
  rw [← key, concat]
  split
  · rename_i l h
    simp [h]
  · rename_i h
    simp [h]

end TypedList

end ObjectModel
