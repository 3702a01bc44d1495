import ObjectModel.Interner
import ObjectModel.Evaluation.Error

/-!
# Demands

The chain of values that are being computed, each one demanded by the instruction before it. The
chain is bounded by a depth limit, which is checked where a demand joins it.
-/

set_option autoImplicit false

namespace ObjectModel

/-- An instruction of an instance of a class, whose value is being computed. -/
structure Demand where
  cls : Name
  instr : Nat
deriving DecidableEq, Repr, Inhabited

/-- The demand in words. -/
def Demand.describe (names : Interner) (d : Demand) : String :=
  "demanded by instruction " ++ toString d.instr ++ " of class \"" ++ names.text d.cls ++ "\""

/-- A chain of demands, the most recent first, with its length at hand. -/
structure DemandChain (α : Type) where
  entries : List α
  depth : Nat
  depth_eq : depth = entries.length

namespace DemandChain

variable {α : Type}

/-- The chain without demands. -/
def empty : DemandChain α := ⟨[], 0, rfl⟩

instance : Inhabited (DemandChain α) := ⟨empty⟩

/-- Add a demand, unless the chain is as long as the limit. -/
def push (limit : Option Nat) (a : α) (c : DemandChain α) : Except EvalError (DemandChain α) :=
  match limit with
  | some max =>
    if c.depth < max then .ok ⟨a :: c.entries, c.depth + 1, by simp [c.depth_eq]⟩
    else .error (.ofKind (.recursionLimit max))
  | none => .ok ⟨a :: c.entries, c.depth + 1, by simp [c.depth_eq]⟩

/-- Drop the most recent demand. -/
def pop (c : DemandChain α) : DemandChain α :=
  ⟨c.entries.tail, c.depth - 1, by simp [c.depth_eq]⟩

/-- Change the most recent demand. -/
def modifyTop (f : α → α) (c : DemandChain α) : DemandChain α :=
  ⟨c.entries.modifyHead f, c.depth, by simp [c.depth_eq]⟩

/-- Whether no value is being computed. -/
def isEmpty (c : DemandChain α) : Bool := c.entries.isEmpty

theorem entries_pop (c : DemandChain α) : c.pop.entries = c.entries.tail := rfl

/-- A push that is within the limit puts the demand in front. -/
theorem entries_of_push_eq_ok {limit : Option Nat} {a : α} {c d : DemandChain α}
    (h : c.push limit a = .ok d) : d.entries = a :: c.entries := by
  cases limit with
  | none => cases h; rfl
  | some max =>
    simp only [push] at h
    split at h
    · cases h; rfl
    · cases h

/-- A push fails at the limit only. -/
theorem push_eq_error {limit : Option Nat} {a : α} {c : DemandChain α} {e : EvalError}
    (h : c.push limit a = .error e) :
    ∃ max, limit = some max ∧ max ≤ c.depth ∧ e = .ofKind (.recursionLimit max) := by
  cases limit with
  | none => cases h
  | some max =>
    simp only [push] at h
    split at h
    · cases h
    · rename_i hle
      cases h
      exact ⟨max, rfl, Nat.le_of_not_lt hle, rfl⟩

end DemandChain

/-- The chain in words, the most recent demand first. -/
def DemandChain.describe (names : Interner) (c : DemandChain Demand) : List String :=
  c.entries.map (Demand.describe names)

end ObjectModel
