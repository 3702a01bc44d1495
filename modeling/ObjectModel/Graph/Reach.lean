import ObjectModel.Graph.View

/-!
# Reachable values

The values that a reader gets to from a value through declared fields, elements and payloads, in
breadth-first order.
-/

set_option autoImplicit false

namespace ObjectModel.View

/-- Breadth first, at most so many values: the waiting ones, then what they lead to. -/
def reachableFrom (v : View) : Nat → (seen waiting : List ValueId) → List ValueId
  | 0, _, _ => []
  | _ + 1, _, [] => []
  | n + 1, seen, id :: rest =>
    let fresh := ((v.successors id).filter fun c => !seen.contains c).eraseDups
    id :: reachableFrom v n (fresh ++ seen) (rest ++ fresh)

/-- Every value that a value leads to, itself first and each one once. -/
def reachable (v : View) (id : ValueId) : List ValueId :=
  v.reachableFrom (v.nodes.size + 1) [id] [id]

end ObjectModel.View
