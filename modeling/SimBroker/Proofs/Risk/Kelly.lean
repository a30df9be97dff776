import SimBroker.Proofs.Decimal.Divisors
import SimBroker.Proofs.Decimal.Monotone
import SimBroker.Proofs.Risk.Sizing

/-!
# The Kelly fraction of a history

The Kelly fraction is divided by the ratio of the average profit to the average loss.  It is asked
before whether there is a loss and a profit, but not whether their ratio is rounded to zero.

## Main definitions

* `RiskSettings.averageWin`, `RiskSettings.averageLoss`: the averages of a history
* `RiskSettings.VanishingRatio`: the ratio of the averages is rounded to zero

## Main results

* `RiskSettings.kellyFraction_eq_error_iff`, `RiskSettings.kellyOfHistory_eq_error_iff`: the Kelly
  fraction divides by zero exactly if this ratio vanishes
* `RiskSettings.VanishingRatio.average_le`: how small the average profit is then
-/

namespace SimBroker

open Calc (DividesSafely ok_bind)

namespace Decimal

theorem toRat_min (a b : Decimal) : (a.min b).toRat = min a.toRat b.toRat := by
  rw [min_eq]
  split
  · next h => exact (min_eq_right (lt_iff.mp h).le).symm
  · next h => exact (min_eq_left (le_iff.mp (not_lt_iff.mp h))).symm

/-- What is left of one is calculated. -/
theorem exists_one_sub {p : Decimal} (hp : 0 ≤ p.toRat) (hp1 : p.toRat ≤ 1) :
    ∃ q, sub 1 p = .ok q := by
  obtain ⟨n, hn⟩ := (whole_toRat 1).add (whole_toRat p).neg
  rw [toRat_one, ← sub_eq_add_neg, eq_div_iff (ten_pow_pos 28).ne'] at hn
  have hlower : 0 ≤ n := by
    have : (0 : ℚ) ≤ n := hn ▸ mul_nonneg (sub_nonneg.mpr hp1) (ten_pow_pos 28).le
    exact_mod_cast this
  have hupper : n ≤ 10 ^ 28 := by
    have : (n : ℚ) ≤ 10 ^ 28 := hn ▸ mul_le_of_le_one_left (ten_pow_pos 28).le (by linarith)
    exact_mod_cast this
  have hbound : n.toNat < coefficientBound := by
    have : (10 : ℤ) ^ 28 < coefficientBound := by decide
    omega
  -- the difference is within the format, with all places
  obtain ⟨q, hq, -⟩ := exists_sub_of_rounded (a := 1) (b := p)
    (c := ⟨false, n.toNat, 28, hbound, Nat.le_refl 28⟩) (.of_eq (by
      rw [toRat_eq, toRat_one]
      show ((n.toNat : ℤ) : ℚ) / 10 ^ 28 = 1 - p.toRat
      rw [Int.toNat_of_nonneg hlower, div_eq_iff (ten_pow_pos 28).ne', hn]))
  exact ⟨q, hq⟩

end Decimal

open Decimal

namespace RiskSettings

variable {limits : RiskSettings}

/-- The Kelly fraction divides by the ratio of the averages, which may have been rounded to zero. -/
theorem kellyFraction_eq_error_iff {winRate win loss : Decimal} :
    limits.kellyFraction winRate win loss = .error .divisionByZero ↔
      0 < win ∧ ∃ ratio, win.div loss.abs = .ok ratio ∧ ratio.isZero = true := by
  unfold kellyFraction
  dsimp only
  split
  · next h =>
    -- without a loss or a win there is no ratio
    refine iff_of_false nofun ?_
    rintro ⟨hwin, ratio, hratio, -⟩
    rcases h with hzero | hle
    · exact nomatch hratio.symm.trans (div_eq_error_iff.mpr hzero)
    · exact not_le_iff.mpr hwin hle
  · next h =>
    rw [not_or, not_le_iff] at h
    obtain ⟨hloss, hwin⟩ := h
    have hp : 0 ≤ ((winRate.max 0).min 1).toRat ∧ ((winRate.max 0).min 1).toRat ≤ 1 := by
      rw [toRat_min, toRat_max, toRat_zero, toRat_one]
      exact ⟨le_min (le_max_right _ _) zero_le_one, min_le_right _ _⟩
    obtain ⟨q, hq⟩ := exists_one_sub hp.1 hp.2
    rw [hq, ok_bind, (dividesSafely_div hloss).bind_eq_error, and_iff_right hwin]
    refine exists_congr fun ratio => and_congr_right fun hratio => ?_
    -- the ratio is also a factor of the dividend, which is then calculated if the ratio is zero
    have hrest (y : Decimal) : DividesSafely do
        return ((← y.mul half).max 0).min limits.maxPositionSize :=
      .bind (dividesSafely_mul ..) fun _ => .pure _
    constructor
    · intro h
      obtain ⟨x, -, h⟩ := (dividesSafely_mul ..).bind_eq_error.mp h
      obtain ⟨y, -, h⟩ := (dividesSafely_sub ..).bind_eq_error.mp h
      exact div_eq_error_iff.mp ((DividesSafely.bind_eq_error_left hrest).mp h)
    · intro hzero
      have hproduct : ((winRate.max 0).min 1).mul ratio = .ok 0 := by
        rw [mul, hzero, Bool.or_true, if_pos rfl]
      have hdividend : sub 0 q = .ok (if q.isZero then q else -q) := rfl
      rw [hproduct, ok_bind, hdividend, ok_bind, DividesSafely.bind_eq_error_left hrest]
      exact div_eq_error_iff.mpr hzero

/-! ## The averages of a history -/

open kellyOfHistory (countOf)

/-- The results that are profits. -/
def winsOf (pnls : List Decimal) : List Decimal := pnls.filter fun p => decide (0 < p)

/-- The results that are losses. -/
def lossesOf (pnls : List Decimal) : List Decimal := pnls.filter fun p => decide (p < 0)

/-- The average of the profits. -/
def averageWin (pnls : List Decimal) : Calc Decimal := do
  (← Decimal.total (winsOf pnls)).div (countOf (winsOf pnls))

/-- The average of the losses, without their sign. -/
def averageLoss (pnls : List Decimal) : Calc Decimal := do
  (← Decimal.total (lossesOf pnls)).abs.div (countOf (lossesOf pnls))

/-- There are profits and losses, and the average profit is so small beside the average loss that
their ratio is rounded to zero. -/
def VanishingRatio (pnls : List Decimal) : Prop :=
  ∃ winRate win loss ratio, (countOf (winsOf pnls)).div (countOf pnls) = .ok winRate ∧
    averageWin pnls = .ok win ∧ averageLoss pnls = .ok loss ∧
      0 < win ∧ win.div loss.abs = .ok ratio ∧ ratio.isZero = true

/-- The average profit is then one part in `2 * 10 ^ 28` of the average loss at most. -/
theorem VanishingRatio.average_le {pnls : List Decimal} (h : VanishingRatio pnls) :
    ∃ win loss, averageWin pnls = .ok win ∧ averageLoss pnls = .ok loss ∧ 0 < win ∧
      2 * 10 ^ 28 * win.toRat ≤ loss.abs.toRat := by
  obtain ⟨-, win, loss, ratio, -, hwin, hloss, hpos, hratio, hzero⟩ := h
  -- there is a ratio, so the average loss is not zero
  have hdivisor : 0 < loss.abs.toRat := by
    rw [toRat_abs, abs_pos]
    intro hloss
    have hloss : loss.isZero = true := isZero_iff.mpr hloss
    have hdivides : win.div loss.abs = .error .divisionByZero := div_eq_error_iff.mpr hloss
    exact nomatch hratio.symm.trans hdivides
  exact ⟨win, loss, hwin, hloss, hpos, le_of_isZero_div hratio hzero hpos hdivisor⟩

theorem kellyOfHistory_eq (limits : RiskSettings) (pnls : List Decimal) :
    limits.kellyOfHistory pnls =
      if (winsOf pnls).isEmpty ∨ (lossesOf pnls).isEmpty then return limits.defaultFraction
      else (do
        let winRate ← (countOf (winsOf pnls)).div (countOf pnls)
        let win ← averageWin pnls
        let loss ← averageLoss pnls
        limits.kellyFraction winRate win loss) := by
  simp only [averageWin, averageLoss, bind_assoc]
  rfl

theorem isZero_countOf {xs : List Decimal} (h : xs ≠ []) (hlength : xs.length < coefficientBound) :
    ¬ (countOf xs).isZero = true := by
  have hpos := List.length_pos_iff.mpr h
  rw [countOf, ofParts?, dif_pos ⟨hlength, Nat.zero_le _⟩]
  exact fun hzero => hpos.ne' (beq_iff_eq.mp hzero)

/-- The Kelly fraction of a history divides by zero where the ratio of its averages vanishes. -/
theorem kellyOfHistory_eq_error_iff {pnls : List Decimal}
    (hlength : pnls.length < coefficientBound) :
    limits.kellyOfHistory pnls = .error .divisionByZero ↔ VanishingRatio pnls := by
  have hfilter (p : Decimal → Bool) : (pnls.filter p).length < coefficientBound :=
    Nat.lt_of_le_of_lt (List.length_filter_le p pnls) hlength
  rw [kellyOfHistory_eq]
  split
  · next h =>
    refine iff_of_false nofun ?_
    rintro ⟨winRate, win, loss, ratio, -, hwin, hloss, -⟩
    -- there is no average of nothing
    rcases h with h | h
    · rw [averageWin, List.isEmpty_iff.mp h] at hwin
      exact nomatch hwin
    · rw [averageLoss, List.isEmpty_iff.mp h] at hloss
      exact nomatch hloss
  · next h =>
    rw [not_or, List.isEmpty_iff, List.isEmpty_iff] at h
    obtain ⟨hwins, hlosses⟩ := h
    have hpnls : pnls ≠ [] := by
      rintro rfl
      exact hwins rfl
    have hrate := dividesSafely_div (a := countOf (winsOf pnls)) (isZero_countOf hpnls hlength)
    have hwin : (averageWin pnls).DividesSafely := .bind (dividesSafely_total _) fun _ =>
      dividesSafely_div (isZero_countOf hwins (hfilter _))
    have hloss : (averageLoss pnls).DividesSafely := .bind (dividesSafely_total _) fun _ =>
      dividesSafely_div (isZero_countOf hlosses (hfilter _))
    simp only [hrate.bind_eq_error, hwin.bind_eq_error, hloss.bind_eq_error,
      kellyFraction_eq_error_iff, VanishingRatio, exists_and_left]

end RiskSettings

end SimBroker
