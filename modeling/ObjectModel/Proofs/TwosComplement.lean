import Mathlib.Algebra.Order.Ring.Abs
import Mathlib.Algebra.Order.Ring.Int
import Mathlib.Order.Bounds.Defs
import Mathlib.Tactic.Ring
import ObjectModel.Literal

/-!
# Two's complement

The values that a number of bits holds in two's complement (`FitsIn`) are those that are read back
from a bit vector of that width (`toInt_ofInt_eq_self_iff`). `IntLit.leastWidth` is the least such
number (`IntLit.leastWidth_le_iff`, `IntLit.isLeast_leastWidth`), and sums, products and shifts of
values that fit their widths fit widths that follow from these.
-/

set_option autoImplicit false

namespace ObjectModel

/-- That many bits hold the value in two's complement. -/
def FitsIn (v : ℤ) (w : ℕ) : Prop := 1 ≤ w ∧ -2 ^ (w - 1) ≤ v ∧ v < 2 ^ (w - 1)

instance (v : ℤ) (w : ℕ) : Decidable (FitsIn v w) :=
  inferInstanceAs (Decidable (1 ≤ w ∧ -2 ^ (w - 1) ≤ v ∧ v < 2 ^ (w - 1)))

theorem fitsIn_succ_iff {v : ℤ} {n : ℕ} : FitsIn v (n + 1) ↔ -2 ^ n ≤ v ∧ v < 2 ^ n := by
  simp [FitsIn]

theorem not_fitsIn_zero (v : ℤ) : ¬ FitsIn v 0 := fun h => Nat.not_lt_zero _ h.1

/-! ## The least width -/

theorem bitLength_le_iff {n k : ℕ} : bitLength n ≤ k ↔ n < 2 ^ k := by
  rw [bitLength]
  split
  · rename_i hn
    rw [hn]
    exact iff_of_true (Nat.zero_le k) (Nat.two_pow_pos k)
  · rename_i hn
    rw [Nat.succ_le_iff, Nat.log2_lt hn]

/-- The bits that hold a value are those from its least width on. -/
theorem IntLit.leastWidth_le_iff {v : ℤ} {w : ℕ} : leastWidth v ≤ w ↔ FitsIn v w := by
  cases w with
  | zero =>
    refine iff_of_false ?_ (not_fitsIn_zero v)
    cases v <;> simp [leastWidth]
  | succ k =>
    have hcast : ((2 ^ k : ℕ) : ℤ) = 2 ^ k := Nat.cast_pow 2 k
    rw [fitsIn_succ_iff]
    cases v with
    | ofNat n =>
      rw [leastWidth, Nat.succ_le_succ_iff, bitLength_le_iff, Int.ofNat_eq_natCast]
      omega
    | negSucc n =>
      -- `-(n + 1)` is at least `-2 ^ k` exactly if `n` is below `2 ^ k`.
      rw [leastWidth, Nat.succ_le_succ_iff, bitLength_le_iff, Int.negSucc_eq]
      omega

/-! ## Values that fit -/

namespace FitsIn

variable {a b : ℤ} {m n : ℕ}

theorem exists_succ (h : FitsIn a m) : ∃ k, m = k + 1 ∧ -2 ^ k ≤ a ∧ a < 2 ^ k :=
  ⟨m - 1, (Nat.sub_add_cancel h.1).symm, h.2⟩

/-- A sum needs one bit more than the wider summand. -/
theorem add (ha : FitsIn a m) (hb : FitsIn b n) : FitsIn (a + b) (max m n + 1) := by
  obtain ⟨i, rfl, hai, hai'⟩ := ha.exists_succ
  obtain ⟨j, rfl, hbj, hbj'⟩ := hb.exists_succ
  have hi : (2 : ℤ) ^ i ≤ 2 ^ max i j := pow_le_pow_right₀ (by decide) (Nat.le_max_left i j)
  have hj : (2 : ℤ) ^ j ≤ 2 ^ max i j := pow_le_pow_right₀ (by decide) (Nat.le_max_right i j)
  rw [Nat.succ_max_succ, fitsIn_succ_iff, pow_succ]
  omega

/-- A product needs as many bits as both factors together. Two least values need them all. -/
theorem mul (ha : FitsIn a m) (hb : FitsIn b n) : FitsIn (a * b) (m + n) := by
  obtain ⟨i, rfl, hai, hai'⟩ := ha.exists_succ
  obtain ⟨j, rfl, hbj, hbj'⟩ := hb.exists_succ
  -- The greatest product is that of two least values; it is not negative, so it needs one bit more.
  have habs : |a * b| ≤ 2 ^ (i + j) := by
    rw [abs_mul, pow_add]
    exact mul_le_mul (abs_le.2 ⟨hai, hai'.le⟩) (abs_le.2 ⟨hbj, hbj'.le⟩) (abs_nonneg b)
      (pow_nonneg (by decide) i)
  have hlt : (2 : ℤ) ^ (i + j) < 2 ^ (i + j + 1) :=
    pow_lt_pow_right₀ (by decide) (Nat.lt_succ_self _)
  obtain ⟨hlower, hupper⟩ := abs_le.1 habs
  rw [show i + 1 + (j + 1) = i + j + 1 + 1 by omega, fitsIn_succ_iff]
  exact ⟨(neg_le_neg hlt.le).trans hlower, hupper.trans_lt hlt⟩

/-- A shift to the left needs as many bits more as it shifts by. -/
theorem mul_two_pow (ha : FitsIn a m) (k : ℕ) : FitsIn (a * 2 ^ k) (m + k) := by
  obtain ⟨i, rfl, hai, hai'⟩ := ha.exists_succ
  have hpos : (0 : ℤ) < 2 ^ k := pow_pos (by decide) k
  rw [Nat.succ_add, fitsIn_succ_iff, pow_add, ← neg_mul]
  exact ⟨mul_le_mul_of_nonneg_right hai hpos.le, mul_lt_mul_of_pos_right hai' hpos⟩

/-- A shift to the left takes away no more bits than it adds. -/
theorem mul_two_pow_iff (hm : 1 ≤ m) {k : ℕ} : FitsIn (a * 2 ^ k) (m + k) ↔ FitsIn a m := by
  refine ⟨fun h => ?_, fun h => h.mul_two_pow k⟩
  obtain ⟨i, rfl⟩ : ∃ i, m = i + 1 := ⟨m - 1, (Nat.sub_add_cancel hm).symm⟩
  have hpos : (0 : ℤ) < 2 ^ k := pow_pos (by decide) k
  rw [Nat.succ_add, fitsIn_succ_iff, pow_add, ← neg_mul] at h
  exact fitsIn_succ_iff.2 ⟨le_of_mul_le_mul_right h.1 hpos, lt_of_mul_lt_mul_right h.2 hpos.le⟩

/-- The bits that a shift adds hold no value but zero. -/
theorem lt_of_mul_two_pow {k : ℕ} (h : FitsIn (a * 2 ^ k) m) (ha : a ≠ 0) : k < m := by
  obtain ⟨i, rfl, hlower, hupper⟩ := h.exists_succ
  by_contra hki
  have hlt : (2 : ℤ) ^ i < 2 ^ k := pow_lt_pow_right₀ (by decide) (by omega)
  rcases Int.lt_or_gt_of_ne ha with hneg | hpos
  · have hle : a * 2 ^ k ≤ -1 * 2 ^ k := mul_le_mul_of_nonneg_right (by omega) (by omega)
    omega
  · have hle : 1 * 2 ^ k ≤ a * 2 ^ k := mul_le_mul_of_nonneg_right (by omega) (by omega)
    omega

/-- A shift to the right needs no more bits than the value. -/
theorem ediv_two_pow (ha : FitsIn a m) (k : ℕ) : FitsIn (a / 2 ^ k) m := by
  obtain ⟨i, rfl, hai, hai'⟩ := ha.exists_succ
  have hpos : (0 : ℤ) < 2 ^ k := pow_pos (by decide) k
  have hle : (2 : ℤ) ^ i ≤ 2 ^ i * 2 ^ k :=
    le_mul_of_one_le_right (pow_nonneg (by decide) i) hpos
  rw [fitsIn_succ_iff, Int.le_ediv_iff_mul_le hpos, Int.ediv_lt_iff_lt_mul hpos, neg_mul]
  exact ⟨(neg_le_neg hle).trans hai, hai'.trans_le hle⟩

end FitsIn

/-- A shift to the left adds its amount to the least width of a value other than zero. -/
theorem IntLit.leastWidth_mul_two_pow {a : ℤ} (ha : a ≠ 0) (k : ℕ) :
    leastWidth (a * 2 ^ k) = leastWidth a + k := by
  refine eq_of_forall_ge_iff fun w => ?_
  rw [leastWidth_le_iff]
  constructor
  · intro h
    have hk : k < w := h.lt_of_mul_two_pow ha
    obtain ⟨m, rfl⟩ := Nat.exists_eq_add_of_le' hk.le
    have hm : 1 ≤ m := by omega
    exact Nat.add_le_add_right (leastWidth_le_iff.2 ((FitsIn.mul_two_pow_iff hm).1 h)) k
  · intro h
    obtain ⟨m, rfl⟩ := Nat.exists_eq_add_of_le' ((Nat.le_add_left k _).trans h)
    exact (leastWidth_le_iff.1 (Nat.le_of_add_le_add_right h)).mul_two_pow k

/-! ## Bit vectors -/

/-- A value that a number of bits holds is read back from their pattern. -/
theorem toInt_ofInt_eq_self_iff {v : ℤ} {n : ℕ} (hn : 1 ≤ n) :
    (BitVec.ofInt n v).toInt = v ↔ FitsIn v n := by
  constructor
  · intro h
    -- What a pattern stands for is within the bounds.
    have hlower := BitVec.le_toInt (BitVec.ofInt n v)
    have hupper := BitVec.toInt_lt (x := BitVec.ofInt n v)
    rw [h] at hlower hupper
    exact ⟨hn, hlower, hupper⟩
  · rintro ⟨-, hlower, hupper⟩
    exact BitVec.toInt_ofInt_eq_self hn hlower hupper

/-- The least width of a value is the least number of bits that hold it in two's complement: the
value is within the bounds of just the widths from there on, and it is the least width of a bit
vector from which the value is read back. -/
theorem IntLit.isLeast_leastWidth (v : ℤ) :
    1 ≤ leastWidth v ∧
    (∀ n : ℕ, 1 ≤ n → (leastWidth v ≤ n ↔ -2 ^ (n - 1) ≤ v ∧ v < 2 ^ (n - 1))) ∧
    IsLeast {n : ℕ | 1 ≤ n ∧ (BitVec.ofInt n v).toInt = v} (leastWidth v) := by
  have hfits : FitsIn v (leastWidth v) := leastWidth_le_iff.1 le_rfl
  refine ⟨hfits.1, ?_, ?_, ?_⟩
  · intro n hn
    rw [leastWidth_le_iff]
    exact ⟨fun h => h.2, fun h => ⟨hn, h⟩⟩
  · exact ⟨hfits.1, (toInt_ofInt_eq_self_iff hfits.1).2 hfits⟩
  -- A bit vector from which the value is read back holds it, so it is no narrower.
  · rintro n ⟨hn, hback⟩
    exact leastWidth_le_iff.2 ((toInt_ofInt_eq_self_iff hn).1 hback)

namespace Sample

/-- Eight bits hold the values from -128 to 127. -/
theorem octet_bounds :
    IntLit.leastWidth (-128) ≤ 8 ∧ ¬ IntLit.leastWidth (-129) ≤ 8 ∧
    IntLit.leastWidth 127 ≤ 8 ∧ ¬ IntLit.leastWidth 128 ≤ 8 := by
  have hwidth (v : ℤ) : IntLit.leastWidth v ≤ 8 ↔ -2 ^ (8 - 1) ≤ v ∧ v < 2 ^ (8 - 1) :=
    (IntLit.isLeast_leastWidth v).2.1 8 (by decide)
  simp only [hwidth]
  decide

end Sample

end ObjectModel
