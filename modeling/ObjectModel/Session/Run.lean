import ObjectModel.Session.Step
import ObjectModel.Graph.Basic

/-!
# Running a session

A session is run until every binding of every frame is evaluated, and then sealed: each reference
of its values is replaced by the value that it stands for. A run need not end without a limit on
instances, so it is carried out for so many steps at most; how many plays no part in a run that ends
(`Session.Ends.unique`).
-/

set_option autoImplicit false

namespace ObjectModel

/-! ## Running and sealing -/

namespace Session

/-- Run a session for so many steps at most. -/
def runFor (env : Environment) : Nat → Session → Option (Except Failure Session)
  | 0, _ => none
  | n + 1, s =>
    match s.step env with
    | .running s => runFor env n s
    | .finished s => some (.ok s)
    | .stopped f _ => some (.error f)

/-- The run of a session comes to an end. -/
def Ends (env : Environment) (s : Session) (r : Except Failure Session) : Prop :=
  ∃ n, s.runFor env n = some r

/-- A run that has ended stays as it is when it may go on for longer. -/
theorem runFor_of_le {env : Environment} {n m : Nat} (h : n ≤ m) {s : Session}
    {r : Except Failure Session} (hr : s.runFor env n = some r) : s.runFor env m = some r := by
  induction n generalizing m s with
  | zero => cases hr
  | succ n ih =>
    obtain ⟨m, rfl⟩ : ∃ k, m = k + 1 := ⟨m - 1, by omega⟩
    rw [runFor] at hr ⊢
    cases hs : s.step env with
    | running next =>
      simp only [hs] at hr ⊢
      exact ih (by omega) hr
    | finished final =>
      simp only [hs] at hr ⊢
      exact hr
    | stopped f last =>
      simp only [hs] at hr ⊢
      exact hr

/-- A run has one end. -/
theorem Ends.unique {env : Environment} {s : Session} {r r' : Except Failure Session}
    (h : s.Ends env r) (h' : s.Ends env r') : r = r' := by
  obtain ⟨n, hn⟩ := h
  obtain ⟨m, hm⟩ := h'
  have hn' := runFor_of_le (Nat.le_max_left n m) hn
  rw [runFor_of_le (Nat.le_max_right n m) hm] at hn'
  exact (Option.some.inj hn').symm

end Session

namespace Arena

/-- Whether a position stands for a value. -/
def settled (a : Arena) (id : ValueId) : Bool :=
  (a.node? (a.resolve id)).elim false fun n => !n.isBinding

/-- Whether every reference of a value is a position of the arena. -/
def closed (a : Arena) : Bool := a.all fun n => n.children.all fun c => decide (c.index < a.size)

/-- Replace every reference by the value that it stands for. Every binding must have one. -/
def sealed (a : Arena) : Except Failure Arena :=
  if (List.range a.size).all fun i => a.settled ⟨i⟩ then
    if a.closed then .ok (a.map fun n => n.mapChildren a.resolve) else .error .dangling
  else
    .error (.error (.custom "failed to finalize evaluation: a value was left unresolved"))

end Arena

namespace Environment

/-- Instantiate a class in a session that starts with the given nodes and evaluate everything that
it creates, in so many steps: the position of the object, and the session at the end. -/
def complete (env : Environment) (nodes : Arena) (target : Name) (args : List ValueId)
    (steps : Nat) : Except Failure (ValueId × Session) := do
  let (root, s) ← Session.createObject env { nodes } target args
  let s ← (s.runFor env steps).getD (.error .exhausted)
  return (root, s)

/-- Instantiate a class in a session that starts with the given nodes, evaluate everything that it
creates in so many steps, and seal the result. -/
def evaluate (env : Environment) (table : TableId) (nodes : Arena) (target : Name)
    (args : List ValueId) (steps : Nat) : Except Failure (Graph × ValueId) := do
  let (root, s) ← env.complete nodes target args steps
  let nodes ← s.nodes.sealed
  return ({ nodes, table := some table, stats := s.stats }, root)

end Environment

end ObjectModel
