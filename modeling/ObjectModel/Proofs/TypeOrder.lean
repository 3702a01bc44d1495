import Mathlib.Order.BoundedOrder.Basic
import ObjectModel.Proofs.Intake.Copies

/-!
# The order of types

What a declared type accepts is derived by four rules (`Ty.Covers`), whose derivations compose. So
types are ordered, the wider above the narrower, with `any` as the top (`Ty.accepts_iff_le`), and a
list is as wide as its elements. Parameters that are accepted are accepted, and copied alike, under
declarations with wider types (`Intake.addParams_of_wider`).
-/

set_option autoImplicit false

namespace ObjectModel

namespace Ty

variable {a b c : Ty}

/-! ## Rules -/

/-- The rules by which a declared type covers another one: `any` covers every type, `integer` every
exact width, a list the lists of what its elements cover, and every type itself. -/
inductive Covers : (declared found : Ty) → Prop
  | any (found : Ty) : Covers .any found
  | width (w : Nat) : Covers .integer (.int w)
  | list {a b : Ty} : Covers a b → Covers (.list a) (.list b)
  | self (a : Ty) : Covers a a

/-- What a type accepts is what the rules derive. -/
theorem accepts_iff_covers : a.accepts b = true ↔ a.Covers b := by
  constructor
  · intro h
    induction a generalizing b with
    | any => exact .any b
    | integer =>
      cases b with
      | integer => exact .self .integer
      | int w => exact .width w
      | _ => simp [accepts] at h
    | list elem ih =>
      cases b with
      | list elem' =>
        rw [list_accepts_list] at h
        exact .list (ih h)
      | _ => simp [accepts] at h
    -- The other types are compared with what is found.
    | _ =>
      simp only [accepts, beq_iff_eq] at h
      exact h ▸ .self _
  · intro h
    induction h with
    | any b => exact any_accepts b
    | width w => rfl
    | list _ ih => exact (list_accepts_list _ _).trans ih
    | self a => exact accepts_self a

theorem Covers.trans (hab : a.Covers b) (hbc : b.Covers c) : a.Covers c := by
  -- On the wider derivation: only `integer` and lists leave anything to do for the other one.
  induction hab generalizing c with
  | any b => exact .any c
  | width w =>
    cases hbc with
    | self => exact .width w
  | @list a b hab ih =>
    cases hbc with
    | list hbc => exact .list (ih hbc)
    | self => exact .list hab
  | self a => exact hbc

theorem Covers.antisymm (hab : a.Covers b) (hba : b.Covers a) : a = b := by
  induction hab with
  | any b =>
    cases hba with
    | any => rfl
    | self => rfl
  | width w => cases hba
  | list _ ih =>
    cases hba with
    | list hba => exact congrArg Ty.list (ih hba)
    | self => rfl
  | self a => rfl

/-! ## The order -/

/-- A type is below those that accept it. -/
instance : PartialOrder Ty where
  le found declared := declared.Covers found
  le_refl := .self
  le_trans _ _ _ hab hbc := hbc.trans hab
  le_antisymm _ _ hab hba := hba.antisymm hab

instance : OrderTop Ty where
  top := .any
  le_top := .any

/-- A declared type accepts just the types below it. -/
theorem accepts_iff_le : a.accepts b = true ↔ b ≤ a := accepts_iff_covers

/-- Below a list are just the lists of what is below its elements. -/
theorem le_list_iff : b ≤ .list a ↔ ∃ c, b = .list c ∧ c ≤ a := by
  constructor
  · intro h
    cases h with
    | @list _ c h => exact ⟨c, rfl, h⟩
    | self => exact ⟨a, rfl, le_rfl⟩
  · rintro ⟨c, rfl, h⟩
    exact .list h

end Ty

/-! ## Parameters under wider declarations -/

namespace Intake

/-- The second parameter has the same value, under a declaration whose type is at least as wide. -/
structure Wider (p q : Decl × Value) : Prop where
  value : q.2 = p.2
  type : q.1.type.accepts p.1.type = true

/-- Parameters that are accepted are copied alike under wider declarations. -/
theorem addParams_of_wider {target : TableId} {ps qs : List (Decl × Value)} {w w' : Workspace}
    {intake intake' : Intake} {ids : List ValueId} (h : List.Forall₂ Wider ps qs)
    (hadd : addParams target ps w intake = (w', .ok (ids, intake'))) :
    addParams target qs w intake = (w', .ok (ids, intake')) := by
  -- A declaration plays no part in copying; each value is checked against the wider type instead.
  induction h generalizing w intake ids with
  | nil => exact hadd
  | @cons p q ps qs hpq _ ih =>
    obtain ⟨decl, v⟩ := p
    obtain ⟨decl', v'⟩ := q
    obtain ⟨rfl, hwider⟩ := hpq
    obtain ⟨w₁, id, intake₁, ids', hv, haccepts, hrest, rfl⟩ := addParams_cons_eq_ok hadd
    have haccepts' : decl'.type.accepts (intake₁.runtimeType id) = true := by
      rw [Ty.accepts_iff_le] at *
      exact haccepts.trans hwider
    rw [addParams, hv]
    simp only [haccepts', if_true, ih hrest]

end Intake

/-- Acceptance is a partial order of types. `any` accepts every type and nothing else accepts it,
and a list accepts just the lists of what its elements accept. What may be bound where a type is
declared may be bound where a wider one is. -/
theorem Ty.accepts_partialOrder :
    (∀ a : Ty, a.accepts a = true) ∧
    (∀ a b c : Ty, a.accepts b = true → b.accepts c = true → a.accepts c = true) ∧
    (∀ a b : Ty, a.accepts b = true ∧ b.accepts a = true ↔ a = b) ∧
    (∀ a : Ty, Ty.any.accepts a = true) ∧
    (∀ a : Ty, a.accepts .any = true ↔ a = .any) ∧
    (∀ a b : Ty, (Ty.list a).accepts b = true ↔ ∃ c, b = .list c ∧ a.accepts c = true) ∧
    ∀ {target : TableId} {ps qs : List (Decl × Value)} {w w' : Workspace} {intake intake' : Intake}
      {ids : List ValueId}, List.Forall₂ Intake.Wider ps qs →
        Intake.addParams target ps w intake = (w', .ok (ids, intake')) →
          Intake.addParams target qs w intake = (w', .ok (ids, intake')) := by
  simp only [accepts_iff_le]
  refine ⟨le_refl, ?_, ?_, ?_, ?_, ?_, Intake.addParams_of_wider⟩
  · intro a b c hba hcb
    exact hcb.trans hba
  · intro a b
    rw [and_comm, le_antisymm_iff]
  · intro a
    exact le_top
  · intro a
    exact top_le_iff
  · intro a b
    exact le_list_iff

namespace Sample

/-- A workspace with a list of numbers on its own. -/
def counting : Workspace :=
  (({} : Workspace).addLiterals (.int 8) [.int ⟨5, 8, .signed⟩, .int ⟨7, 8, .signed⟩]).2

/-- The list of numbers, declared with a type. -/
def counted (type : Ty) : List (Decl × Value) := [(⟨⟨1⟩, type⟩, ⟨⟨0⟩, ⟨2⟩⟩)]

/-- A list of numbers of eight bits is accepted as a list of numbers of any width, and so as
anything. -/
theorem counted_accepted :
    (Ty.list .integer).accepts (.list (.int 8)) = true ∧
    Ty.any.accepts (.list .integer) = true ∧ Ty.any.accepts (.list (.int 8)) = true ∧
    List.Forall₂ Intake.Wider (counted (.list (.int 8))) (counted (.list .integer)) ∧
    ∃ w ids intake,
      Intake.addParams ⟨0⟩ (counted (.list (.int 8))) counting {} = (w, .ok (ids, intake)) ∧
      Intake.addParams ⟨0⟩ (counted (.list .integer)) counting {} = (w, .ok (ids, intake)) := by
  obtain ⟨-, htrans, -, -, -, -, hwider⟩ := Ty.accepts_partialOrder
  have hnumbers : (Ty.list .integer).accepts (.list (.int 8)) = true := by decide
  have hlist : Ty.any.accepts (.list .integer) = true := by decide
  have hcounted : List.Forall₂ Intake.Wider (counted (.list (.int 8))) (counted (.list .integer)) :=
    .cons ⟨rfl, hnumbers⟩ .nil
  have hok : (Intake.addParams ⟨0⟩ (counted (.list (.int 8))) counting {}).2.isOk = true := by
    decide +kernel
  rcases hadd : Intake.addParams ⟨0⟩ (counted (.list (.int 8))) counting {} with
    ⟨w, f | ⟨ids, intake⟩⟩
  · rw [hadd] at hok
    cases hok
  · exact ⟨hnumbers, hlist, htrans _ _ _ hlist hnumbers, hcounted, w, ids, intake, rfl,
      hwider hcounted hadd⟩

end Sample

end ObjectModel
