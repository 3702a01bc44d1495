import Mathlib.Data.Rat.Floor
import ObjectModel.Evaluation.Arithmetic
import ObjectModel.Proofs.TwosComplement

/-!
# Results of integer operators

What an operator yields for any two literals, whether or not their values fit their widths: the
exact result, or the one error that applies (`IntOp.eval_eq_iff_yields`). Where the operands fit
their widths, the result fits the width that follows from theirs, so no result is widened, also
where operations are nested (`IntOp.widths_suffice`).
-/

set_option autoImplicit false

namespace ObjectModel

namespace IntOp

/-! ## Values and widths -/

/-- Whether the right operand says how far to shift. -/
def shifts : IntOp → Bool
  | .add | .mul => false
  | .shl | .shr => true

/-- A shift takes an amount of 64 bits that is not negative, any other operator takes any value. -/
def TakesRight (op : IntOp) (b : ℤ) : Prop := op.shifts = true → 0 ≤ b ∧ b < 2 ^ 64

/-- The result of the operator on numbers. A quotient is rounded toward negative infinity. -/
def exact (op : IntOp) (a b : ℤ) : ℤ :=
  match op with
  | .add => a + b
  | .mul => a * b
  | .shl => a * 2 ^ b.toNat
  | .shr => ⌊(a : ℚ) / 2 ^ b.toNat⌋

/-- The width that follows from the widths of the operands, in a shift from the amount `b`. -/
def nominalWidth (op : IntOp) (wl wr : ℕ) (b : ℤ) : ℕ :=
  match op with
  | .add => max wl wr + 1
  | .mul => wl + wr
  | .shl => wl + b.toNat
  | .shr => wl

/-- The nominal width for two literals. That of a left shift is kept in 64 bits. -/
def startWidth (op : IntOp) (l r : IntLit) : ℕ :=
  match op with
  | .shl => min (nominalWidth .shl l.width r.width r.value) (2 ^ 64 - 1)
  | _ => op.nominalWidth l.width r.width r.value

/-- The width of the exact result. It is widened to the bits that its value needs
(`IntLit.leastWidth_le_iff`). -/
def resultWidth (op : IntOp) (l r : IntLit) : ℕ :=
  max (op.startWidth l r) (IntLit.leastWidth (op.exact l.value r.value))

/-- The outcome of an operator on two literals. -/
inductive Yields (op : IntOp) (l r : IntLit) : Except EvalError IntLit → Prop where
  | negativeAmount (hop : op.shifts = true) (hr : r.value < 0) :
      Yields op l r (.error (.ofKind (.negativeShiftAmount op.mnemonic)))
  | amountTooLarge (hop : op.shifts = true) (hr : 2 ^ 64 ≤ r.value) :
      Yields op l r (.error (.ofKind (.shiftAmountTooLarge op.mnemonic)))
  /-- A left shift is rejected for its amount, whatever bits the value needs. -/
  | shiftTooWide (hop : op = .shl) (hr : op.TakesRight r.value) (hw : 65536 < op.startWidth l r) :
      Yields op l r
        (.error (.ofKind (.integerWidthExceeded op.mnemonic (op.startWidth l r) 65536)))
  | tooWide (hr : op.TakesRight r.value) (hstart : op = .shl → op.startWidth l r ≤ 65536)
      (hw : 65536 < op.resultWidth l r) :
      Yields op l r
        (.error (.ofKind (.integerWidthExceeded op.mnemonic (op.resultWidth l r) 65536)))
  | result (hr : op.TakesRight r.value) (hw : op.resultWidth l r ≤ 65536) :
      Yields op l r (.ok ⟨op.exact l.value r.value, op.resultWidth l r, .signed⟩)

/-! ## The parts of an operator -/

section Parts

variable {op : IntOp}

theorem checkWidth_of_le {width : ℕ} (h : width ≤ 65536) : op.checkWidth width = .ok () :=
  if_pos h

theorem checkWidth_of_gt {width : ℕ} (h : 65536 < width) :
    op.checkWidth width = .error (.ofKind (.integerWidthExceeded op.mnemonic width 65536)) :=
  if_neg (Nat.not_le.2 h)

theorem conclude_of_le {value : ℤ} {nominal : ℕ}
    (h : max nominal (IntLit.leastWidth value) ≤ 65536) :
    op.conclude value nominal = .ok ⟨value, max nominal (IntLit.leastWidth value), .signed⟩ := by
  rw [conclude, checkWidth_of_le h]
  rfl

theorem conclude_of_gt {value : ℤ} {nominal : ℕ}
    (h : 65536 < max nominal (IntLit.leastWidth value)) :
    op.conclude value nominal = .error (.ofKind
      (.integerWidthExceeded op.mnemonic (max nominal (IntLit.leastWidth value)) 65536)) := by
  rw [conclude, checkWidth_of_gt h]
  rfl

theorem shiftAmount_of_neg {b : ℤ} (h : b < 0) :
    op.shiftAmount b = .error (.ofKind (.negativeShiftAmount op.mnemonic)) :=
  if_pos h

theorem shiftAmount_of_large {b : ℤ} (h : 2 ^ 64 ≤ b) :
    op.shiftAmount b = .error (.ofKind (.shiftAmountTooLarge op.mnemonic)) := by
  have hsize : (UInt64.size : ℤ) = 2 ^ 64 := rfl
  rw [shiftAmount, if_neg (by omega), if_neg (by omega)]

theorem shiftAmount_of_takes {b : ℤ} (hop : op.shifts = true) (h : op.TakesRight b) :
    op.shiftAmount b = .ok b.toNat := by
  have hsize : (UInt64.size : ℤ) = 2 ^ 64 := rfl
  obtain ⟨hneg, hlarge⟩ := h hop
  rw [shiftAmount, if_neg (by omega), if_pos (by omega)]

end Parts

theorem exact_shl (a b : ℤ) : exact .shl a b = a <<< b.toNat := (Int.shiftLeft_eq a b.toNat).symm

/-- Shifting the digits of two's complement to the right rounds a quotient down. -/
theorem exact_shr (a b : ℤ) : exact .shr a b = a >>> b.toNat := by
  have hfloor := Rat.floor_intCast_div_natCast a (2 ^ b.toNat)
  push_cast at hfloor
  rw [exact, hfloor, Int.shiftRight_eq_div_pow]
  norm_cast

/-! ## The outcome -/

section Outcome

variable {op : IntOp} {l r : IntLit}

/-- A shift fails where its amount does. -/
theorem eval_of_amount_error {e : EvalError} (hop : op.shifts = true)
    (h : op.shiftAmount r.value = .error e) : op.eval l r = .error e := by
  cases op with
  | add => cases hop
  | mul => cases hop
  | shl => rw [eval, h]; rfl
  | shr => rw [eval, h]; rfl

theorem eval_of_shiftTooWide (hop : op = .shl) (hr : op.TakesRight r.value)
    (hw : 65536 < op.startWidth l r) :
    op.eval l r =
      .error (.ofKind (.integerWidthExceeded op.mnemonic (op.startWidth l r) 65536)) := by
  subst hop
  have hcheck : checkWidth .shl (shiftedWidth l.width r.value.toNat) = _ := checkWidth_of_gt hw
  rw [eval, shiftAmount_of_takes rfl hr]
  dsimp only [bind, Except.bind]
  rw [hcheck]
  rfl

/-- Where no check comes first, the exact result is concluded with the width it starts from. -/
theorem eval_of_takes (hr : op.TakesRight r.value)
    (hstart : op = .shl → op.startWidth l r ≤ 65536) :
    op.eval l r = op.conclude (op.exact l.value r.value) (op.startWidth l r) := by
  cases op with
  | add => rfl
  | mul => rfl
  | shl =>
    have hcheck : checkWidth .shl (shiftedWidth l.width r.value.toNat) = _ :=
      checkWidth_of_le (hstart rfl)
    rw [eval, shiftAmount_of_takes rfl hr, exact_shl]
    dsimp only [bind, Except.bind]
    rw [hcheck]
    rfl
  | shr =>
    rw [eval, shiftAmount_of_takes rfl hr, exact_shr]
    rfl

theorem Yields.eval_eq {outcome : Except EvalError IntLit} (h : op.Yields l r outcome) :
    op.eval l r = outcome := by
  cases h with
  | negativeAmount hop hr => exact eval_of_amount_error hop (shiftAmount_of_neg hr)
  | amountTooLarge hop hr => exact eval_of_amount_error hop (shiftAmount_of_large hr)
  | shiftTooWide hop hr hw => exact eval_of_shiftTooWide hop hr hw
  | tooWide hr hstart hw => exact (eval_of_takes hr hstart).trans (conclude_of_gt hw)
  | result hr hw =>
    exact (eval_of_takes hr fun _ => (Nat.le_max_left _ _).trans hw).trans (conclude_of_le hw)

/-- For any two literals some outcome is described. -/
theorem exists_yields (op : IntOp) (l r : IntLit) : ∃ outcome, op.Yields l r outcome := by
  by_cases hr : op.TakesRight r.value
  · rcases Nat.lt_or_ge 65536 (op.resultWidth l r) with hw | hw
    · -- A left shift is checked before its value is known, so it may fail with a lesser width.
      by_cases hshl : op = .shl ∧ 65536 < op.startWidth l r
      · exact ⟨_, .shiftTooWide hshl.1 hr hshl.2⟩
      · exact ⟨_, .tooWide hr (fun hop => Nat.not_lt.1 fun h => hshl ⟨hop, h⟩) hw⟩
    · exact ⟨_, .result hr hw⟩
  · obtain ⟨hop, hamount⟩ := Classical.not_imp.1 hr
    rcases lt_or_ge r.value 0 with hneg | hneg
    · exact ⟨_, .negativeAmount hop hneg⟩
    · exact ⟨_, .amountTooLarge hop (not_lt.1 fun h => hamount ⟨hneg, h⟩)⟩

theorem yields_eval (op : IntOp) (l r : IntLit) : op.Yields l r (op.eval l r) := by
  obtain ⟨outcome, h⟩ := exists_yields op l r
  rwa [h.eval_eq]

/-- An operator yields the exact result with a width that holds it, unless an amount or a width is
out of bounds. -/
theorem eval_eq_iff_yields (op : IntOp) (l r : IntLit) (outcome : Except EvalError IntLit) :
    op.eval l r = outcome ↔ op.Yields l r outcome :=
  ⟨fun h => h ▸ yields_eval op l r, Yields.eval_eq⟩

/-- A value that does not fit its width widens the result, here the floor of a half. -/
example : IntOp.eval .shr ⟨-9, 2, .unsigned⟩ ⟨1, 1, .signless⟩ = .ok ⟨-5, 4, .signed⟩ := by rfl

/-- A left shift is rejected before its value is computed. -/
example : IntOp.eval .shl ⟨1, 8, .signed⟩ ⟨2 ^ 64 - 1, 65, .signed⟩ =
    .error (.ofKind (.integerWidthExceeded "integer.shl" (2 ^ 64 - 1) 65536)) := by rfl

theorem eval_eq_ok_iff {v : IntLit} :
    op.eval l r = .ok v ↔ op.TakesRight r.value ∧ op.resultWidth l r ≤ 65536 ∧
      v = ⟨op.exact l.value r.value, op.resultWidth l r, .signed⟩ := by
  constructor
  · intro h
    have hyields := yields_eval op l r
    rw [h] at hyields
    cases hyields with
    | result hr hw => exact ⟨hr, hw, rfl⟩
  · rintro ⟨hr, hw, rfl⟩
    exact (Yields.result hr hw).eval_eq

end Outcome

/-! ## Operands that fit -/

/-- The operands fit their widths. An amount need not, but it is one that a shift takes. -/
structure OperandsFit (op : IntOp) (l r : IntLit) : Prop where
  left : FitsIn l.value l.width
  right : op.shifts = false → FitsIn r.value r.width
  amount : op.TakesRight r.value

/-- The nominal width holds the exact result. -/
theorem exact_fitsIn {op : IntOp} {a b : ℤ} {m n : ℕ} (ha : FitsIn a m)
    (hb : op.shifts = false → FitsIn b n) : FitsIn (op.exact a b) (op.nominalWidth m n b) := by
  cases op with
  | add => exact ha.add (hb rfl)
  | mul => exact ha.mul (hb rfl)
  | shl => exact ha.mul_two_pow _
  | shr =>
    rw [exact_shr, Int.shiftRight_eq_div_pow]
    exact_mod_cast ha.ediv_two_pow b.toNat

section Widths

variable {op : IntOp} {l r : IntLit}

/-- Keeping a width in 64 bits makes no difference within the limit. -/
theorem startWidth_le_iff :
    op.startWidth l r ≤ 65536 ↔ op.nominalWidth l.width r.width r.value ≤ 65536 := by
  cases op with
  | shl => rw [startWidth]; omega
  | add | mul | shr => exact Iff.rfl

theorem startWidth_eq (h : op.nominalWidth l.width r.width r.value ≤ 65536) :
    op.startWidth l r = op.nominalWidth l.width r.width r.value := by
  cases op with
  | shl => rw [startWidth]; omega
  | add | mul | shr => rfl

end Widths

namespace OperandsFit

variable {op : IntOp} {l r : IntLit}

theorem fitsIn (h : op.OperandsFit l r) :
    FitsIn (op.exact l.value r.value) (op.nominalWidth l.width r.width r.value) :=
  exact_fitsIn h.left h.right

theorem resultWidth_eq (h : op.OperandsFit l r)
    (hw : op.nominalWidth l.width r.width r.value ≤ 65536) :
    op.resultWidth l r = op.nominalWidth l.width r.width r.value := by
  rw [resultWidth, startWidth_eq hw]
  exact Nat.max_eq_left (IntLit.leastWidth_le_iff.2 h.fitsIn)

theorem resultWidth_le_iff (h : op.OperandsFit l r) :
    op.resultWidth l r ≤ 65536 ↔ op.nominalWidth l.width r.width r.value ≤ 65536 :=
  ⟨fun hw => startWidth_le_iff.1 ((Nat.le_max_left _ _).trans hw),
    fun hw => (h.resultWidth_eq hw).trans_le hw⟩

/-- On operands that fit, an operation is decided by its nominal width, which its result has. -/
theorem eval_eq_ok_iff (h : op.OperandsFit l r) {v : IntLit} :
    op.eval l r = .ok v ↔ op.nominalWidth l.width r.width r.value ≤ 65536 ∧
      v = ⟨op.exact l.value r.value, op.nominalWidth l.width r.width r.value, .signed⟩ := by
  rw [IntOp.eval_eq_ok_iff, h.resultWidth_le_iff]
  constructor
  · rintro ⟨-, hw, rfl⟩
    exact ⟨hw, by rw [h.resultWidth_eq hw]⟩
  · rintro ⟨hw, rfl⟩
    exact ⟨h.amount, hw, by rw [h.resultWidth_eq hw]⟩

end OperandsFit

end IntOp

/-! ## Nested operations -/

/-- Operations on literals, nested to any depth. -/
inductive IntExpr where
  | literal (i : IntLit)
  | binary (op : IntOp) (lhs rhs : IntExpr)

namespace IntExpr

/-- Carry out the operations from the inside out. The first that fails is the result. -/
def eval : IntExpr → Except EvalError IntLit
  | literal i => .ok i
  | binary op lhs rhs => do
    let l ← lhs.eval
    let r ← rhs.eval
    op.eval l r

/-- The value of the operations on numbers. -/
def value : IntExpr → ℤ
  | literal i => i.value
  | binary op lhs rhs => op.exact lhs.value rhs.value

/-- The width that follows from the widths of the literals. -/
def width : IntExpr → ℕ
  | literal i => i.width
  | binary op lhs rhs => op.nominalWidth lhs.width rhs.width rhs.value

/-- No operation has a nominal width above the limit. -/
def WithinLimit : IntExpr → Prop
  | literal _ => True
  | binary op lhs rhs =>
    lhs.WithinLimit ∧ rhs.WithinLimit ∧ op.nominalWidth lhs.width rhs.width rhs.value ≤ 65536

/-- The literals fit their widths, save those that are amounts of shifts, and shifts take their
amounts. -/
inductive Fitting : IntExpr → Prop where
  | literal {i : IntLit} (h : FitsIn i.value i.width) : Fitting (.literal i)
  | binary {op : IntOp} {lhs rhs : IntExpr} (hl : Fitting lhs) (hr : Fitting rhs)
      (hamount : op.TakesRight rhs.value) : Fitting (.binary op lhs rhs)
  | shift {op : IntOp} {lhs : IntExpr} {i : IntLit} (hop : op.shifts = true) (hl : Fitting lhs)
      (hamount : op.TakesRight i.value) : Fitting (.binary op lhs (.literal i))

/-- The operations succeed within the limit only, with the exact value and the nominal width. -/
structure Exact (e : IntExpr) : Prop where
  succeeds : (∃ v, e.eval = .ok v) ↔ e.WithinLimit
  result {v : IntLit} : e.eval = .ok v → v.value = e.value ∧ v.width = e.width

variable {op : IntOp} {lhs rhs e : IntExpr}

theorem eval_binary_eq_ok_iff {v : IntLit} :
    (binary op lhs rhs).eval = .ok v ↔
      ∃ l r, lhs.eval = .ok l ∧ rhs.eval = .ok r ∧ op.eval l r = .ok v := by
  rw [eval]
  cases hl : lhs.eval with
  | error e => simp [bind, Except.bind]
  | ok l =>
    cases hr : rhs.eval with
    | error e => simp [bind, Except.bind]
    | ok r => simp [bind, Except.bind]

theorem exact_literal (i : IntLit) : (literal i).Exact where
  succeeds := iff_of_true ⟨i, rfl⟩ trivial
  result h := by cases h; exact ⟨rfl, rfl⟩

theorem Exact.binary (hl : lhs.Exact) (hr : rhs.Exact) (hfl : FitsIn lhs.value lhs.width)
    (hfr : op.shifts = false → FitsIn rhs.value rhs.width) (hamount : op.TakesRight rhs.value) :
    (binary op lhs rhs).Exact := by
  -- What operands evaluate to fits as the operands do.
  have hop {l r : IntLit} (hlv : lhs.eval = .ok l) (hrv : rhs.eval = .ok r) {v : IntLit} :
      op.eval l r = .ok v ↔ op.nominalWidth lhs.width rhs.width rhs.value ≤ 65536 ∧
        v = ⟨op.exact lhs.value rhs.value, op.nominalWidth lhs.width rhs.width rhs.value,
          .signed⟩ := by
    obtain ⟨hlvalue, hlwidth⟩ := hl.result hlv
    obtain ⟨hrvalue, hrwidth⟩ := hr.result hrv
    have hfit : op.OperandsFit l r :=
      ⟨by rwa [hlvalue, hlwidth], by rwa [hrvalue, hrwidth], by rwa [hrvalue]⟩
    rw [← hlvalue, ← hlwidth, ← hrvalue, ← hrwidth]
    exact hfit.eval_eq_ok_iff
  constructor
  · constructor
    · rintro ⟨v, hv⟩
      obtain ⟨l, r, hlv, hrv, hv⟩ := eval_binary_eq_ok_iff.1 hv
      exact ⟨hl.succeeds.1 ⟨l, hlv⟩, hr.succeeds.1 ⟨r, hrv⟩, ((hop hlv hrv).1 hv).1⟩
    · rintro ⟨hlw, hrw, hw⟩
      obtain ⟨l, hlv⟩ := hl.succeeds.2 hlw
      obtain ⟨r, hrv⟩ := hr.succeeds.2 hrw
      exact ⟨_, eval_binary_eq_ok_iff.2 ⟨l, r, hlv, hrv, (hop hlv hrv).2 ⟨hw, rfl⟩⟩⟩
  · intro v hv
    obtain ⟨l, r, hlv, hrv, hv⟩ := eval_binary_eq_ok_iff.1 hv
    rw [((hop hlv hrv).1 hv).2]
    exact ⟨rfl, rfl⟩

namespace Fitting

/-- The nominal width holds the value, however deep the operations are nested. -/
theorem fitsIn (h : e.Fitting) : FitsIn e.value e.width := by
  induction h with
  | literal h => exact h
  | binary hl hr hamount ihl ihr => exact IntOp.exact_fitsIn ihl fun _ => ihr
  | shift hop hl hamount ihl =>
    exact IntOp.exact_fitsIn ihl fun h => Bool.noConfusion (h.symm.trans hop)

theorem exact (h : e.Fitting) : e.Exact := by
  -- On the literals that fit; an amount that does not fit is exact all the same.
  induction h with
  | literal h => exact exact_literal _
  | binary hl hr hamount ihl ihr => exact ihl.binary ihr hl.fitsIn (fun _ => hr.fitsIn) hamount
  | shift hop hl hamount ihl =>
    exact ihl.binary (exact_literal _) hl.fitsIn (fun h => Bool.noConfusion (h.symm.trans hop))
      hamount

end Fitting

end IntExpr

/-- An operation on operands that fit succeeds exactly if its nominal width is within the limit;
the result has that width and fits it. The same holds of nested operations. -/
theorem IntOp.widths_suffice :
    (∀ (op : IntOp) (l r : IntLit), op.OperandsFit l r →
      ((∃ v, op.eval l r = .ok v) ↔ op.nominalWidth l.width r.width r.value ≤ 65536) ∧
      ∀ v, op.eval l r = .ok v →
        v.value = op.exact l.value r.value ∧
        v.width = op.nominalWidth l.width r.width r.value ∧ FitsIn v.value v.width) ∧
    ∀ e : IntExpr, e.Fitting →
      ((∃ v, e.eval = .ok v) ↔ e.WithinLimit) ∧
      ∀ v, e.eval = .ok v → v.value = e.value ∧ v.width = e.width ∧ FitsIn v.value v.width := by
  constructor
  · intro op l r h
    constructor
    · simp only [h.eval_eq_ok_iff, exists_and_left, exists_eq, and_true]
    · intro v hv
      rw [(h.eval_eq_ok_iff.1 hv).2]
      exact ⟨rfl, rfl, h.fitsIn⟩
  · intro e h
    refine ⟨h.exact.succeeds, fun v hv => ?_⟩
    obtain ⟨hvalue, hwidth⟩ := h.exact.result hv
    exact ⟨hvalue, hwidth, hvalue ▸ hwidth ▸ h.fitsIn⟩

namespace Sample

/-- The square of the least value of four bits. -/
def leastSquare : IntExpr := .binary .mul (.literal ⟨-8, 4, .signed⟩) (.literal ⟨-8, 4, .signed⟩)

/-- That square shifted to the left, by an amount that does not fit its own width. -/
def shiftedSquare (amount : ℤ) : IntExpr :=
  .binary .shl leastSquare (.literal ⟨amount, 1, .signless⟩)

theorem leastSquare_fitting : leastSquare.Fitting :=
  .binary (.literal (by decide)) (.literal (by decide)) nofun

theorem shiftedSquare_fitting {amount : ℤ} (h : 0 ≤ amount ∧ amount < 2 ^ 64) :
    (shiftedSquare amount).Fitting :=
  .shift rfl leastSquare_fitting fun _ => h

/-- Eight bits hold the square, and every bit of the shift adds one, up to the limit. -/
theorem square_widths :
    (∃ v, IntOp.eval .mul ⟨-8, 4, .signed⟩ ⟨-8, 4, .signed⟩ = .ok v ∧ v.value = 64 ∧ v.width = 8) ∧
    (∃ v, (shiftedSquare 65528).eval = .ok v ∧ v.width = 65536) ∧
    ¬ ∃ v, (shiftedSquare 65529).eval = .ok v := by
  obtain ⟨hoperation, hnested⟩ := IntOp.widths_suffice
  obtain ⟨hsquare, hsquare'⟩ := hoperation .mul ⟨-8, 4, .signed⟩ ⟨-8, 4, .signed⟩
    ⟨by decide, fun _ => by decide, nofun⟩
  obtain ⟨hshift, hshift'⟩ := hnested (shiftedSquare 65528) (shiftedSquare_fitting (by decide))
  obtain ⟨hlimit, -⟩ := hnested (shiftedSquare 65529) (shiftedSquare_fitting (by decide))
  obtain ⟨v, hv⟩ := hsquare.2 (by decide)
  obtain ⟨u, hu⟩ := hshift.2 ⟨⟨trivial, trivial, by decide⟩, trivial, by decide⟩
  refine ⟨⟨v, hv, (hsquare' v hv).1, (hsquare' v hv).2.1⟩, ⟨u, hu, (hshift' u hu).2.1⟩, fun h => ?_⟩
  exact absurd (hlimit.1 h).2.2 (by decide)

end Sample

end ObjectModel
