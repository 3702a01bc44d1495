import ObjectModel.Graph.Node

/-!
# Arenas

Reading an arena: following resolved bindings to the value they stand for, and looking through
erased types to the payload. A wrapper may wrap itself; then looking through it ends on a wrapper.
-/

set_option autoImplicit false

namespace ObjectModel

/-- The nodes of one evaluation. -/
abbrev Arena := Array Node

namespace Arena

/-- The node at a position. -/
def node? (a : Arena) (id : ValueId) : Option Node := a[id.index]?

/-- Follow at most so many resolved bindings. -/
def follow (a : Arena) : Nat → ValueId → ValueId
  | 0, id => id
  | n + 1, id =>
    match a.node? id with
    | some (.binding _ (.resolved target)) => follow a n target
    | _ => id

/-- The position of the value that a position stands for. No chain of resolved bindings is longer
than the arena. -/
def resolve (a : Arena) (id : ValueId) : ValueId := a.follow a.size id

/-- Look through at most so many erased types. -/
def unwrap (a : Arena) : Nat → ValueId → ValueId
  | 0, id => id
  | n + 1, id =>
    match a.node? id with
    | some (.any payload) => unwrap a n (a.resolve payload)
    | _ => id

/-- The first value behind the erased types around a value. One look per node is enough to reach
it, and one more shows that a wrapper wraps itself. -/
def narrow (a : Arena) (id : ValueId) : ValueId := a.unwrap (a.size + 1) id

/-- The kind of what a position holds. -/
def kind (a : Arena) (id : ValueId) : String :=
  match a.node? id with
  | some n => n.kind
  | none => "unresolved value"

/-- A position that holds a value stands for itself. -/
theorem resolve_of_isBinding_eq_false {a : Arena} {id : ValueId} {n : Node}
    (h : a.node? id = some n) (hn : n.isBinding = false) : a.resolve id = id := by
  unfold resolve
  cases a.size with
  | zero => rfl
  | succ k =>
    rw [follow, h]
    cases n <;> simp_all [Node.isBinding]

end Arena

end ObjectModel
