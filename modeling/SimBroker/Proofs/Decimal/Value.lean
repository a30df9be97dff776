import SimBroker.Decimal.Arithmetic
import Mathlib.Algebra.Order.Field.Rat
import Mathlib.Tactic.FieldSimp
import Mathlib.Tactic.Linarith
import Mathlib.Tactic.Positivity
import Mathlib.Tactic.Ring

/-!
# The value of a decimal

`toRat` is the number that a decimal stands for, whatever its scale.  Comparisons of decimals are
comparisons of these numbers, which `lt_iff`, `le_iff` and `sameValue_iff` say; so facts about order
are proved over `ℚ`.

## Main definitions

* `toRat a`: the coefficient over the power of ten

## Main results

* `lt_iff`, `le_iff`, `sameValue_iff`, `isZero_iff`: comparisons are those of the values
* `pos_iff`, `nonneg_iff`: and so are comparisons with zero
* `toRat_neg`, `abs_toRat`: the sign and the magnitude of a value
-/

namespace SimBroker

namespace Decimal

variable {a b : Decimal}

/-- The number that a decimal stands for. -/
def toRat (a : Decimal) : ℚ := a.coefficient / (tenPow a.scale : ℕ)

theorem tenPow_pos (k : ℕ) : 0 < tenPow k := Nat.pow_pos (by decide)

theorem tenPow_cast_pos (k : ℕ) : (0 : ℚ) < (tenPow k : ℕ) := Nat.cast_pos.mpr (tenPow_pos k)

/-! ## Comparisons -/

theorem lt_iff : a < b ↔ a.toRat < b.toRat := by
  show a.coefficient * (tenPow b.scale : ℕ) < b.coefficient * (tenPow a.scale : ℕ) ↔ _
  -- two decimals are compared with their scales multiplied crosswise
  rw [toRat, toRat, div_lt_div_iff₀ (tenPow_cast_pos _) (tenPow_cast_pos _)]
  exact_mod_cast Iff.rfl

theorem le_iff : a ≤ b ↔ a.toRat ≤ b.toRat := by
  show a.coefficient * (tenPow b.scale : ℕ) ≤ b.coefficient * (tenPow a.scale : ℕ) ↔ _
  rw [toRat, toRat, div_le_div_iff₀ (tenPow_cast_pos _) (tenPow_cast_pos _)]
  exact_mod_cast Iff.rfl

theorem sameValue_iff : a.SameValue b ↔ a.toRat = b.toRat := by
  show a.coefficient * (tenPow b.scale : ℕ) = b.coefficient * (tenPow a.scale : ℕ) ↔ _
  rw [toRat, toRat, div_eq_div_iff (tenPow_cast_pos _).ne' (tenPow_cast_pos _).ne']
  exact_mod_cast Iff.rfl

theorem SameValue.refl (a : Decimal) : a.SameValue a := rfl

theorem not_lt_iff : ¬ a < b ↔ b ≤ a := by rw [lt_iff, le_iff, not_lt]

theorem not_le_iff : ¬ a ≤ b ↔ b < a := by rw [lt_iff, le_iff, not_le]

theorem not_lt_of_lt (h : a < b) : ¬ b < a := by
  rw [lt_iff] at h ⊢
  exact h.not_gt

theorem SameValue.not_lt (h : a.SameValue b) : ¬ a < b := by
  rw [lt_iff, sameValue_iff.mp h]
  exact lt_irrefl _

theorem not_sameValue_of_lt (h : a < b) : ¬ a.SameValue b := fun hsame => hsame.not_lt h

theorem coefficient_eq_zero_iff : a.coefficient = 0 ↔ a.mantissa = 0 := by
  unfold coefficient
  cases a.negative <;> simp

theorem isZero_iff : a.isZero = true ↔ a.toRat = 0 := by
  have h : (a.coefficient : ℚ) = 0 ↔ a.mantissa = 0 := by
    rw [Int.cast_eq_zero, coefficient_eq_zero_iff]
  simp [isZero, toRat, h]

/-! ## Sign and magnitude -/

@[simp] theorem toRat_zero : (0 : Decimal).toRat = 0 := by decide +kernel

theorem pos_iff : 0 < a ↔ 0 < a.toRat := by rw [lt_iff, toRat_zero]

theorem nonneg_iff : 0 ≤ a ↔ 0 ≤ a.toRat := by rw [le_iff, toRat_zero]

theorem nonneg_of_pos (h : 0 < a) : 0 ≤ a := nonneg_iff.mpr (pos_iff.mp h).le

@[simp] theorem toRat_one : (1 : Decimal).toRat = 1 := by decide +kernel

@[simp] theorem coefficient_neg (a : Decimal) : (-a).coefficient = -a.coefficient := by
  show (if !a.negative then -(a.mantissa : ℤ) else a.mantissa) = -a.coefficient
  unfold coefficient
  cases a.negative <;> simp

@[simp] theorem toRat_neg (a : Decimal) : (-a).toRat = -a.toRat := by
  rw [toRat, coefficient_neg, Int.cast_neg, neg_div]
  rfl

theorem natAbs_coefficient (a : Decimal) : a.coefficient.natAbs = a.mantissa := by
  unfold coefficient
  cases a.negative <;> simp

theorem abs_toRat (a : Decimal) : |a.toRat| = a.mantissa / (tenPow a.scale : ℕ) := by
  rw [toRat, abs_div, abs_of_pos (tenPow_cast_pos _), ← Int.cast_abs, Int.abs_eq_natAbs,
    natAbs_coefficient, Int.cast_natCast]

theorem toRat_nonneg_of_not_negative (h : a.negative = false) : 0 ≤ a.toRat := by
  rw [toRat, coefficient, h]
  exact div_nonneg (by simp) (tenPow_cast_pos _).le

/-- The smaller of two decimals is one of them: the second if it is less, else the first. -/
theorem min_eq (a b : Decimal) : a.min b = if b < a then b else a := rfl

end Decimal

end SimBroker
