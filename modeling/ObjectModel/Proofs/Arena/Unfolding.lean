import ObjectModel.Graph.Arena
import ObjectModel.Proofs.Traversal

/-!
# Unfoldings

What a reader of a graph sees who goes from a position down to some depth, without asking which
positions are the same (`Arena.unfolding?`). Positions of two arenas have equal unfoldings to every
depth if some relation between them leads from each pair to nodes that are alike with related
children (`Arena.exists_unfolding?`).
-/

set_option autoImplicit false

namespace ObjectModel

/-! ## Nodes that are alike -/

/-- The nodes have one shape, one class or element type, and related children. -/
inductive Node.Alike (R : ValueId → ValueId → Prop) : Node → Node → Prop
  | literal (l : Literal) : Alike R (.literal l) (.literal l)
  | object {cls : Name} {xs ys : List ValueId} : List.Forall₂ R xs ys →
      Alike R (.object cls xs) (.object cls ys)
  | list {elem : Ty} {xs ys : List ValueId} : List.Forall₂ R xs ys →
      Alike R (.list elem xs) (.list elem ys)
  | any {x y : ValueId} : R x y → Alike R (.any x) (.any y)

namespace Node.Alike

variable {R S T : ValueId → ValueId → Prop} {n m o : Node}

theorem imp (h : n.Alike R m) (hRS : ∀ x y, R x y → S x y) : n.Alike S m := by
  cases h with
  | literal l => exact .literal l
  | object hall => exact .object (hall.imp hRS)
  | list hall => exact .list (hall.imp hRS)
  | any hx => exact .any (hRS _ _ hx)

/-- Nodes that are alike with a third one between them are alike. -/
theorem comp (h : n.Alike R m) (h' : m.Alike S o) (hRST : ∀ x y z, R x y → S y z → T x z) :
    n.Alike T o := by
  cases h with
  | literal l =>
    cases h'
    exact .literal l
  | object hxy =>
    cases h' with
    | object hyz => exact .object (forall₂_trans hRST hxy hyz)
  | list hxy =>
    cases h' with
    | list hyz => exact .list (forall₂_trans hRST hxy hyz)
  | any hx =>
    cases h' with
    | any hy => exact .any (hRST _ _ _ hx hy)

/-- Nodes stay alike when their children are replaced by related ones. -/
theorem mapChildren (h : n.Alike R m) {f g : ValueId → ValueId}
    (hRS : ∀ x y, R x y → S (f x) (g y)) : (n.mapChildren f).Alike S (m.mapChildren g) := by
  have hall : ∀ {xs ys}, List.Forall₂ R xs ys → List.Forall₂ S (xs.map f) (ys.map g) := by
    intro xs ys hxy
    rw [List.forall₂_map_left_iff, List.forall₂_map_right_iff]
    exact hxy.imp hRS
  cases h with
  | literal l => exact .literal l
  | object hxy => exact .object (hall hxy)
  | list hxy => exact .list (hall hxy)
  | any hx => exact .any (hRS _ _ hx)

end Node.Alike

/-! ## Unfolding a position -/

/-- What can be seen of a value down to some depth. -/
inductive Unfolding where
  /-- Whatever lies deeper. -/
  | cut
  | literal (l : Literal)
  | object (cls : Name) (fields : List Unfolding)
  | list (elem : Ty) (elements : List Unfolding)
  | any (payload : Unfolding)
deriving Repr

namespace Arena

/-- What can be seen at a position down to a depth. A binding is no value, so it shows nothing. -/
def unfolding? (a : Arena) : ℕ → ValueId → Option Unfolding
  | 0, _ => some .cut
  | depth + 1, x =>
    match a.node? x with
    | some (.literal l) => some (.literal l)
    | some (.object cls fields) => (fields.mapM (a.unfolding? depth)).map (.object cls)
    | some (.list elem elements) => (elements.mapM (a.unfolding? depth)).map (.list elem)
    | some (.any payload) => (a.unfolding? depth payload).map .any
    | some (.binding _ _) => none
    | none => none

/-- Related positions have one unfolding, if related positions hold nodes that are alike. -/
theorem exists_unfolding? {a b : Arena} {R : ValueId → ValueId → Prop}
    (hR : ∀ {x y}, R x y → ∃ n m, a.node? x = some n ∧ b.node? y = some m ∧ n.Alike R m)
    (depth : ℕ) {x y : ValueId} (hxy : R x y) :
    ∃ u, a.unfolding? depth x = some u ∧ b.unfolding? depth y = some u := by
  induction depth generalizing x y with
  | zero => exact ⟨.cut, rfl, rfl⟩
  | succ depth ih =>
    obtain ⟨n, m, hn, hm, halike⟩ := hR hxy
    rw [unfolding?, unfolding?, hn, hm]
    cases halike with
    | literal l => exact ⟨.literal l, rfl, rfl⟩
    | object hall =>
      obtain ⟨us, hxs, hys⟩ := exists_mapM_of_forall₂ hall fun _ _ h => ih h
      exact ⟨_, congrArg (Option.map _) hxs, congrArg (Option.map _) hys⟩
    | list hall =>
      obtain ⟨us, hxs, hys⟩ := exists_mapM_of_forall₂ hall fun _ _ h => ih h
      exact ⟨_, congrArg (Option.map _) hxs, congrArg (Option.map _) hys⟩
    | any hxy =>
      obtain ⟨u, hx, hy⟩ := ih hxy
      exact ⟨_, congrArg (Option.map _) hx, congrArg (Option.map _) hy⟩

end Arena

end ObjectModel
