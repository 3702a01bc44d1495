import ObjectModel.Proofs.Intake.Discovery
import Mathlib.Logic.Relation

/-!
# What parameters lead to

The values that a parameter leads to, in its own graph and through any number of references
(`Workspace.reached`). A discovery adds nothing else (`discover_leadsTo`), and once it is complete
everything that a copied value leads to is copied (`Explored.leadsTo`). A value is not copied
exactly when it leads to an object whose class has no counterpart
(`Intake.Complete.add_eq_error`).
-/

set_option autoImplicit false

namespace ObjectModel

namespace Arena

/-- A node refers to the values that its references stand for. -/
def Refers (a : Arena) (x y : ValueId) : Prop :=
  ∃ n, a.node? x = some n ∧ ∃ c ∈ n.children, a.resolve c = y

/-- A value leads to itself, and through any number of references to others. -/
abbrev LeadsTo (a : Arena) : ValueId → ValueId → Prop := Relation.ReflTransGen a.Refers

end Arena

/-- The values that some values lead to, each in its own graph. -/
def Workspace.reached (w : Workspace) (vs : List Value) : Set Value :=
  {x | ∃ v ∈ vs, v.graph = x.graph ∧ (w.graph x.graph).nodes.LeadsTo v.id x.id}

/-! ## Discovery -/

/-- A discovery adds only what the waiting positions lead to: whatever property their values have
and references pass on, every node that is added has it. -/
theorem discover_leadsTo {source : Arena} {g : GraphId} {Q : ValueId → Prop}
    (hclosed : ∀ {x y : ValueId}, Q x → source.Refers x y → Q y) (fuel : Nat)
    (waiting : List ValueId) (next : Nat) (order : Array ValueId) (copies : Index Value ValueId)
    (hwaiting : ∀ x ∈ waiting, Q (source.resolve x)) {k : Value} {c : ValueId}
    (hk : (discover source g fuel waiting next order copies).2.get? k = some c) :
    copies.get? k = some c ∨ Q k.id := by
  -- The induction keeps `Q` of whatever the waiting positions resolve to: the children of a node
  -- that is added wait from then on, and the references to them pass `Q` on.
  induction fuel generalizing waiting next order copies with
  | zero => exact Or.inl hk
  | succ fuel ih =>
    cases waiting with
    | nil => exact Or.inl hk
    | cons x waiting =>
      have hx := hwaiting x List.mem_cons_self
      have hrest := fun y hy => hwaiting y (List.mem_cons_of_mem _ hy)
      rw [discover] at hk
      dsimp only at hk
      split at hk
      · exact ih waiting next order copies hrest hk
      · have hchildren : ∀ y ∈ ((source.node? (source.resolve x)).elim [] Node.children).reverse ++
            waiting, Q (source.resolve y) := by
          intro y hy
          rcases List.mem_append.1 hy with hy | hy
          · cases hn : source.node? (source.resolve x) with
            | none =>
              rw [hn] at hy
              cases hy
            | some n =>
              rw [hn, Option.elim_some, List.mem_reverse] at hy
              exact hclosed hx ⟨n, hn, y, hy, rfl⟩
          · exact hrest y hy
        rcases ih _ _ _ _ hchildren hk with hk | hk
        · rw [Index.get?_insert] at hk
          split at hk
          · rename_i heq
            subst heq
            exact Or.inr hx
          · exact Or.inl hk
        · exact Or.inr hk

/-- What a copied value leads to is copied once nothing waits any more. -/
theorem Explored.leadsTo {source : Arena} {g : GraphId} {copies : Index Value ValueId}
    (h : Explored source g [] copies) {x y : ValueId} (hxy : source.LeadsTo x y)
    (hx : ∃ c, copies.get? ⟨g, x⟩ = some c) : ∃ c, copies.get? ⟨g, y⟩ = some c := by
  induction hxy with
  | refl => exact hx
  | tail _ hrefers ih =>
    obtain ⟨c, hc⟩ := ih
    obtain ⟨n, hn, z, hz, rfl⟩ := hrefers
    rcases h.closed hc hn z hz with hcopied | hwaits
    · exact hcopied
    · cases hwaits

end ObjectModel
