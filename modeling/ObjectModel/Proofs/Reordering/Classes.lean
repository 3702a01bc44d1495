import ObjectModel.Session.Basic
import Mathlib.Data.List.Forall2
import Mathlib.Logic.Equiv.Basic

/-!
# Reordered classes

A class body may be written down in another order: the instructions change places, and every operand
and every yielded local follows its instruction (`ClassDef.Reorders`). Two tables are reorderings of
each other if their classes are, one by one (`ClassTable.Reorders`). Both relations are reflexive
and symmetric, and whatever the first table has under a name the second one has reordered
(`ClassTable.Reorders.lookup?`).
-/

set_option autoImplicit false

namespace ObjectModel

/-! ## Moving instructions -/

/-- The local that is meant when the instruction at `i` has moved to `σ i`. -/
def LocalRef.move (σ : Equiv.Perm ℕ) : LocalRef → LocalRef
  | .param i => .param i
  | .instr i => .instr (σ i)

/-- The instruction with the locals that its operands have become. -/
def Instr.move (σ : Equiv.Perm ℕ) : Instr → Instr
  | .constant l => .constant l
  | .object target args => .object target (args.map (LocalRef.move σ))
  | .project source path => .project (source.move σ) path
  | .list elem elements => .list elem (elements.map (LocalRef.move σ))
  | .concat lists => .concat (lists.map (LocalRef.move σ))
  | .any operand => .any (operand.move σ)
  | .binary op lhs rhs => .binary op (lhs.move σ) (rhs.move σ)
  | .unknown op => .unknown op

/-- The second class is the first one with the instruction at `i` moved to `σ i`. -/
structure ClassDef.Reorders (σ : Equiv.Perm ℕ) (c d : ClassDef) : Prop where
  interner : d.interner = c.interner
  name : d.name = c.name
  params : d.params = c.params
  fields : d.fields = c.fields
  instr : ∀ i, d.instrs[σ i]? = (c.instrs[i]?).map (Instr.move σ)
  yields : d.yields = c.yields.map (LocalRef.move σ)

/-- The classes of the second table are those of the first one, the class named `n` reordered by
`σ n`. -/
structure ClassTable.Reorders (σ : Name → Equiv.Perm ℕ) (t u : ClassTable) : Prop where
  interner : u.interner = t.interner
  classes : List.Forall₂ (fun c d => c.Reorders (σ c.name) d) t.classes u.classes

/-- Two evaluations differ in the order of instructions only. Their demands are not limited, and
both of them share what was instantiated before. -/
structure Environment.Reorders (σ : Name → Equiv.Perm ℕ) (env env' : Environment) : Prop where
  classes : env.classes.Reorders σ env'.classes
  instances : env'.limits.instances = env.limits.instances
  depth : env.limits.depth = none
  depth' : env'.limits.depth = none
  shares : env.shares = true
  shares' : env'.shares = true

/-! ## Moving back -/

namespace LocalRef

variable (σ : Equiv.Perm ℕ)

theorem move_symm_move (r : LocalRef) : (r.move σ).move σ.symm = r := by
  cases r with
  | param i => rfl
  | instr i => exact congrArg LocalRef.instr (σ.symm_apply_apply i)

theorem map_move_symm_move (rs : List LocalRef) :
    (rs.map (move σ)).map (move σ.symm) = rs := by
  rw [List.map_map]
  refine (List.map_congr_left fun r _ => ?_).trans (List.map_id rs)
  exact move_symm_move σ r

theorem move_refl (r : LocalRef) : r.move (.refl ℕ) = r := by
  cases r <;> rfl

theorem map_move_refl (rs : List LocalRef) : rs.map (move (.refl ℕ)) = rs := by
  refine (List.map_congr_left fun r _ => ?_).trans (List.map_id rs)
  exact move_refl r

end LocalRef

namespace Instr

variable (σ : Equiv.Perm ℕ)

theorem move_symm_move (i : Instr) : (i.move σ).move σ.symm = i := by
  cases i with
  | constant l => rfl
  | object target args => exact congrArg (Instr.object target) (LocalRef.map_move_symm_move σ args)
  | project source path =>
    exact congrArg (Instr.project · path) (LocalRef.move_symm_move σ source)
  | list elem elements => exact congrArg (Instr.list elem) (LocalRef.map_move_symm_move σ elements)
  | concat lists => exact congrArg Instr.concat (LocalRef.map_move_symm_move σ lists)
  | any operand => exact congrArg Instr.any (LocalRef.move_symm_move σ operand)
  | binary op lhs rhs =>
    exact congrArg₂ (Instr.binary op) (LocalRef.move_symm_move σ lhs)
      (LocalRef.move_symm_move σ rhs)
  | unknown op => rfl

/-- Without a move an instruction stays what it is. -/
theorem move_refl (i : Instr) : i.move (.refl ℕ) = i := by
  cases i with
  | constant l => rfl
  | object target args => exact congrArg (Instr.object target) (LocalRef.map_move_refl args)
  | project source path => exact congrArg (Instr.project · path) (LocalRef.move_refl source)
  | list elem elements => exact congrArg (Instr.list elem) (LocalRef.map_move_refl elements)
  | concat lists => exact congrArg Instr.concat (LocalRef.map_move_refl lists)
  | any operand => exact congrArg Instr.any (LocalRef.move_refl operand)
  | binary op lhs rhs =>
    exact congrArg₂ (Instr.binary op) (LocalRef.move_refl lhs) (LocalRef.move_refl rhs)
  | unknown op => rfl

/-- A constant stays the constant that it is, and nothing else becomes one. -/
theorem literal?_move (i : Instr) : (i.move σ).literal? = i.literal? := by
  cases i <;> rfl

end Instr

/-! ## Reorderings -/

namespace ClassDef.Reorders

variable {σ : Equiv.Perm ℕ} {c d : ClassDef}

/-- Moving the instructions back gives the first class again. -/
theorem symm (h : c.Reorders σ d) : d.Reorders σ.symm c where
  interner := h.interner.symm
  name := h.name.symm
  params := h.params.symm
  fields := h.fields.symm
  instr := by
    intro j
    obtain ⟨i, rfl⟩ := σ.surjective j
    rw [σ.symm_apply_apply, h.instr i, Option.map_map]
    cases c.instrs[i]? with
    | none => rfl
    | some instr => exact congrArg some (Instr.move_symm_move σ instr).symm
  yields := by rw [h.yields, LocalRef.map_move_symm_move]

/-- A class is a reordering of itself. -/
theorem refl (c : ClassDef) : c.Reorders (.refl ℕ) c where
  interner := rfl
  name := rfl
  params := rfl
  fields := rfl
  instr := by
    intro i
    rw [Equiv.refl_apply]
    cases c.instrs[i]? with
    | none => rfl
    | some instr => rw [Option.map_some, Instr.move_refl]
  yields := (LocalRef.map_move_refl c.yields).symm

/-- Nothing but the class itself is a reordering in which nothing has moved. -/
theorem eq_of_refl (h : c.Reorders (.refl ℕ) d) : d = c := by
  have hinstrs : d.instrs = c.instrs := by
    apply Array.ext_getElem?
    intro i
    have hi := h.instr i
    rw [Equiv.refl_apply] at hi
    rw [hi]
    cases c.instrs[i]? with
    | none => rfl
    | some instr => rw [Option.map_some, Instr.move_refl]
  have hyields := h.yields
  rw [LocalRef.map_move_refl] at hyields
  have hinterner := h.interner
  have hname := h.name
  have hparams := h.params
  have hfields := h.fields
  cases c
  cases d
  cases hinterner
  cases hname
  cases hparams
  cases hfields
  cases hinstrs
  cases hyields
  rfl

/-- An instruction of the first class is found in the second one where it has moved. -/
theorem instr_eq_some (h : c.Reorders σ d) {i : ℕ} {instr : Instr}
    (hi : c.instrs[i]? = some instr) : d.instrs[σ i]? = some (instr.move σ) := by
  rw [h.instr i, hi]
  rfl

theorem lt_size (h : c.Reorders σ d) {i : ℕ} (hi : i < c.instrs.size) :
    σ i < d.instrs.size :=
  (Array.getElem?_eq_some_iff.1 (h.instr_eq_some (Array.getElem?_eq_getElem hi))).1

theorem fieldIndex? (h : c.Reorders σ d) (n : Name) : d.fieldIndex? n = c.fieldIndex? n := by
  rw [ClassDef.fieldIndex?, ClassDef.fieldIndex?, h.fields]

end ClassDef.Reorders

namespace ClassTable.Reorders

variable {σ : Name → Equiv.Perm ℕ} {t u : ClassTable}

/-- A table is a reordering of itself. -/
theorem refl (t : ClassTable) : t.Reorders (fun _ => .refl ℕ) t where
  interner := rfl
  classes := List.forall₂_same.2 fun c _ => ClassDef.Reorders.refl c

theorem symm (h : t.Reorders σ u) : u.Reorders (fun n => (σ n).symm) t where
  interner := h.interner.symm
  classes := by
    have hall := h.classes.imp fun (c d : ClassDef) hcd =>
      show flip (fun d c => d.Reorders (σ d.name).symm c) c d from by
        rw [flip, hcd.name]
        exact hcd.symm
    exact hall.flip

/-- What the first table has under a name, the second one has reordered. -/
theorem lookup? (h : t.Reorders σ u) {n : Name} {c : ClassDef} (hc : t.lookup? n = some c) :
    ∃ d, u.lookup? n = some d ∧ c.Reorders (σ n) d := by
  have hall := h.classes
  rw [ClassTable.lookup?] at hc ⊢
  generalize t.classes = cs at hall hc
  generalize u.classes = ds at hall
  -- Both searches stop at the same place, since reordered classes have one name.
  induction hall with
  | nil => cases hc
  | @cons a b as bs hab _ ih =>
    rw [List.find?_cons] at hc ⊢
    rw [hab.name]
    cases hname : a.name == n with
    | true =>
      rw [hname] at hc
      cases hc
      refine ⟨b, rfl, ?_⟩
      rw [← beq_iff_eq.1 hname]
      exact hab
    | false =>
      rw [hname] at hc
      exact ih hc

theorem lookup?_eq_none (h : t.Reorders σ u) {n : Name} (hn : t.lookup? n = none) :
    u.lookup? n = none := by
  cases hd : u.lookup? n with
  | none => rfl
  | some d =>
    obtain ⟨c, hc, -⟩ := h.symm.lookup? hd
    rw [hn] at hc
    cases hc

end ClassTable.Reorders

/-- Either of the two evaluations may be taken for the first one. -/
theorem Environment.Reorders.symm {σ : Name → Equiv.Perm ℕ} {env env' : Environment}
    (h : env.Reorders σ env') : env'.Reorders (fun n => (σ n).symm) env where
  classes := h.classes.symm
  instances := h.instances.symm
  depth := h.depth'
  depth' := h.depth
  shares := h.shares'
  shares' := h.shares

end ObjectModel
