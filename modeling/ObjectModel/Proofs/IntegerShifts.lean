import ObjectModel.Proofs.IntegerOperators

/-!
# Integer shifts

A shift to the left is exact, so a shift to the right by the same amount undoes it, and shifts to
the left add up (`IntOp.shr_undoes_shl`). The width of the first result never stands in the way:
it holds the shifted value, and a second shift widens it by its amount and no more.
-/

set_option autoImplicit false

namespace ObjectModel

namespace IntOp

/-! ## Shifted values -/

/-- A shift to the right by the amount of a shift to the left has nothing to round. -/
theorem exact_shr_shl (a s : ℤ) : exact .shr (exact .shl a s) s = a := by
  have hpos : (2 : ℤ) ^ s.toNat ≠ 0 := pow_ne_zero _ (by decide)
  rw [exact_shr, exact, Int.shiftRight_eq_div_pow]
  exact_mod_cast Int.mul_ediv_cancel a hpos

theorem exact_shl_shl (a : ℤ) {s t : ℤ} (hs : 0 ≤ s) (ht : 0 ≤ t) :
    exact .shl (exact .shl a s) t = exact .shl a (s + t) := by
  rw [exact, exact, exact, Int.toNat_add hs ht, pow_add, mul_assoc]

/-! ## Widths of shifts -/

section Widths

variable {op : IntOp} {l r a b d s t u v : IntLit}

/-- A result fits its width, whether or not the operands do. -/
theorem fitsIn_of_eval (h : op.eval l r = .ok v) : FitsIn v.value v.width := by
  obtain ⟨-, -, rfl⟩ := eval_eq_ok_iff.1 h
  exact IntLit.leastWidth_le_iff.1 (Nat.le_max_right _ _)

/-- A shift of a result is decided by its nominal width. -/
theorem operandsFit_of_eval (h : op.eval l r = .ok b) {shift : IntOp} (hop : shift.shifts = true)
    (ht : shift.TakesRight t.value) : shift.OperandsFit b t where
  left := fitsIn_of_eval h
  right hno := Bool.noConfusion (hno.symm.trans hop)
  amount := ht

theorem resultWidth_shl (h : resultWidth .shl a s ≤ 65536) :
    resultWidth .shl a s =
      max (a.width + s.value.toNat) (IntLit.leastWidth (exact .shl a.value s.value)) := by
  have hstart : startWidth .shl a s ≤ 65536 := (Nat.le_max_left _ _).trans h
  rw [resultWidth, startWidth_eq (startWidth_le_iff.1 hstart)]
  rfl

/-- Within the limit, a shift to the left adds its amount to the bits that the width or the value
needs. A zero of width 0 is left out: the bit it needs may be an added one. -/
theorem resultWidth_shl_eq_add (h : resultWidth .shl a s ≤ 65536) (ha : 1 ≤ a.width) :
    resultWidth .shl a s = max a.width (IntLit.leastWidth a.value) + s.value.toNat := by
  rw [resultWidth_shl h, exact]
  by_cases hzero : a.value = 0
  · have hleast : IntLit.leastWidth 0 = 1 := rfl
    rw [hzero, zero_mul, hleast]
    omega
  · rw [IntLit.leastWidth_mul_two_pow hzero, Nat.add_max_add_right]

end Widths

/-! ## Shifts that undo and that add up -/

section Shifts

variable {a b d s t u : IntLit}

theorem eval_shr_of_shl (h : eval .shl a s = .ok b) :
    eval .shr b s = .ok ⟨a.value, b.width, .signed⟩ := by
  obtain ⟨hs, hw, hb⟩ := eval_eq_ok_iff.1 h
  have hfit : OperandsFit .shr b s := operandsFit_of_eval h rfl fun _ => hs rfl
  have hvalue : exact .shr b.value s.value = a.value := by rw [hb, exact_shr_shl]
  rw [hfit.eval_eq_ok_iff, hvalue]
  refine ⟨?_, rfl⟩
  rw [hb]
  exact hw

/-- Two shifts to the left that succeed one after the other succeed at once. -/
theorem eval_shl_of_shl_shl (hb : eval .shl a s = .ok b) (hd : eval .shl b t = .ok d)
    (hu : u.value = s.value + t.value) :
    ∃ d', eval .shl a u = .ok d' ∧ d'.value = d.value ∧ (1 ≤ a.width → d' = d) := by
  obtain ⟨hs, hbw, hb'⟩ := eval_eq_ok_iff.1 hb
  obtain ⟨ht, -⟩ := eval_eq_ok_iff.1 hd
  obtain ⟨hdw, rfl⟩ := (operandsFit_of_eval hb rfl ht).eval_eq_ok_iff.1 hd
  obtain ⟨hs0, -⟩ := hs rfl
  obtain ⟨ht0, -⟩ := ht rfl
  have hvalue : exact .shl a.value u.value = exact .shl b.value t.value := by
    rw [hu, hb', exact_shl_shl a.value hs0 ht0]
  have hamount : u.value.toNat = s.value.toNat + t.value.toNat := by rw [hu, Int.toNat_add hs0 ht0]
  have hbwidth : b.width = resultWidth .shl a s := by rw [hb']
  rw [nominalWidth] at hdw
  -- The first shift made room for its amount, and the second one for its own.
  have hwidth : a.width + u.value.toNat ≤ b.width + t.value.toNat := by
    rw [hbwidth, resultWidth_shl hbw, hamount]
    omega
  have hleast : IntLit.leastWidth (exact .shl a.value u.value) ≤ b.width + t.value.toNat := by
    rw [hvalue]
    exact IntLit.leastWidth_le_iff.2 (fitsIn_of_eval hd)
  have huw : resultWidth .shl a u ≤ 65536 :=
    Nat.max_le.2 ⟨startWidth_le_iff.2 (hwidth.trans hdw), hleast.trans hdw⟩
  have htakes : TakesRight .shl u.value := fun _ => by omega
  refine ⟨_, eval_eq_ok_iff.2 ⟨htakes, huw, rfl⟩, hvalue, fun ha => ?_⟩
  have hsum : resultWidth .shl a u = b.width + t.value.toNat := by
    rw [resultWidth_shl_eq_add huw ha, hbwidth, resultWidth_shl_eq_add hbw ha, hamount,
      Nat.add_assoc]
  rw [hvalue, hsum, nominalWidth]

end Shifts

/-- A shift to the right undoes a shift to the left that succeeds: it gives the value back and keeps
the width. A further shift to the left that succeeds yields the value of a single shift by both
amounts, which succeeds too, with the same width unless a zero of width 0 is shifted. -/
theorem shr_undoes_shl {a s b : IntLit} (hb : eval .shl a s = .ok b) :
    eval .shr b s = .ok ⟨a.value, b.width, .signed⟩ ∧
    ∀ {t d u : IntLit}, eval .shl b t = .ok d → u.value = s.value + t.value →
      ∃ d', eval .shl a u = .ok d' ∧ d'.value = d.value ∧ (1 ≤ a.width → d' = d) :=
  ⟨eval_shr_of_shl hb, eval_shl_of_shl_shl hb⟩

/-- A zero of width 0 gets the bit it needs from the first shift, though an added one serves. -/
example :
    eval .shl ⟨0, 0, .signed⟩ ⟨0, 1, .signed⟩ = .ok ⟨0, 1, .signed⟩ ∧
    eval .shl ⟨0, 1, .signed⟩ ⟨1, 2, .signed⟩ = .ok ⟨0, 2, .signed⟩ ∧
    eval .shl ⟨0, 0, .signed⟩ ⟨1, 2, .signed⟩ = .ok ⟨0, 1, .signed⟩ := ⟨rfl, rfl, rfl⟩

end IntOp

namespace Sample

/-- A negative number that does not fit its width. -/
def debt : IntLit := ⟨-9, 2, .unsigned⟩

theorem debt_shifted :
    IntOp.eval .shl debt ⟨3, 1, .signless⟩ = .ok ⟨-72, 8, .signed⟩ ∧
    IntOp.eval .shr ⟨-72, 8, .signed⟩ ⟨3, 1, .signless⟩ = .ok ⟨-9, 8, .signed⟩ ∧
    IntOp.eval .shl ⟨-72, 8, .signed⟩ ⟨4, 4, .signed⟩ = .ok ⟨-1152, 12, .signed⟩ ∧
    IntOp.eval .shl debt ⟨7, 4, .unsigned⟩ = .ok ⟨-1152, 12, .signed⟩ := by
  have hshift : IntOp.eval .shl debt ⟨3, 1, .signless⟩ = .ok ⟨-72, 8, .signed⟩ := by rfl
  have hagain : IntOp.eval .shl ⟨-72, 8, .signed⟩ ⟨4, 4, .signed⟩ = .ok ⟨-1152, 12, .signed⟩ := by
    rfl
  obtain ⟨hback, hsum⟩ := IntOp.shr_undoes_shl hshift
  obtain ⟨d, hd, -, heq⟩ := hsum hagain (u := ⟨7, 4, .unsigned⟩) rfl
  refine ⟨hshift, hback, hagain, ?_⟩
  rw [hd, heq (by decide)]

end Sample

end ObjectModel
