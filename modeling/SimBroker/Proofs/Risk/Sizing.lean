import SimBroker.Proofs.Calc
import SimBroker.Proofs.Decimal.Division
import SimBroker.Risk.Sizing

/-!
# Caps on the size of a position

Every cap leaves a size or makes it smaller, in spite of rounding, because rounding is faithful.
So the cap on what is lost at the stop holds of what the later caps leave.

## Main definitions

* `Sizing.Valued`: the value and the risk of a sizing are those of its size
* `Sizing.Cut`: the same trade with no greater size
* `Sizing.Within`: the cap on the risk has been applied

## Main results

* `RiskSettings.applyLimits_eq_ok`: the caps never raise a size, and leave no more of it than the
  cap on the risk has left
* `Sizing.Within.le`: what is lost at the stop within a cap is no more than the cap, up to rounding
* `RiskSettings.roundToStep_le`: rounding down to steps raises a size by its rounding error only
-/

namespace SimBroker

open Calc (bind_eq_ok pure_eq_ok)
open Decimal (faithful_div faithful_mul)

namespace Decimal

variable {a b c : Decimal}

theorem toRat_max (a b : Decimal) : (a.max b).toRat = max a.toRat b.toRat := by
  unfold Decimal.max
  split
  · next h => exact (max_eq_right (lt_iff.mp h).le).symm
  · next h => exact (max_eq_left (le_iff.mp (not_lt_iff.mp h))).symm

theorem toRat_abs (a : Decimal) : a.abs.toRat = |a.toRat| := by
  rw [← abs_of_nonneg (toRat_nonneg_of_not_negative (a := a.abs) rfl), abs_toRat, abs_toRat]
  rfl

theorem mantissa_eq_zero (hneg : a.negative = true) (ha : 0 ≤ a.toRat) : a.mantissa = 0 := by
  rw [toRat_eq_mantissa, if_pos hneg, le_div_iff₀ (ten_pow_pos _), zero_mul, neg_nonneg] at ha
  exact Nat.le_zero.mp (by exact_mod_cast ha)

/-- The floor of a number that is not negative is the greatest natural number that is not
greater. -/
theorem floor_of_nonneg (h : a.floor = .ok c) (ha : 0 ≤ a.toRat) :
    ∃ n : ℕ, c.toRat = n ∧ (n : ℚ) ≤ a.toRat ∧ a.toRat < n + 1 := by
  unfold floor at h
  split at h
  · next hneg =>
    obtain ⟨hneg, hmod⟩ := hneg
    rw [mantissa_eq_zero hneg ha, Nat.zero_mod] at hmod
    exact absurd rfl hmod
  · cases h
    have htrunc : a.trunc.toRat = if a.negative then -((a.mantissa / tenPow a.scale : ℕ) : ℚ)
        else (a.mantissa / tenPow a.scale : ℕ) := by
      rw [toRat_eq_mantissa]
      exact div_one _
    cases hneg : a.negative with
    | true =>
      have hzero : a.toRat = 0 := by
        rw [toRat_eq_mantissa, mantissa_eq_zero hneg ha, Nat.cast_zero, neg_zero, ite_self,
          zero_div]
      refine ⟨0, ?_, by rwa [Nat.cast_zero], by rw [hzero]; norm_num⟩
      rw [htrunc, mantissa_eq_zero hneg ha, Nat.zero_div, Nat.cast_zero, neg_zero, ite_self]
    | false =>
      refine ⟨a.mantissa / tenPow a.scale, by rw [htrunc, hneg, if_neg Bool.false_ne_true], ?_⟩
      rw [toRat_eq_mantissa, hneg, if_neg Bool.false_ne_true, ← tenPow_cast,
        le_div_iff₀ (tenPow_cast_pos _), div_lt_iff₀' (tenPow_cast_pos _)]
      exact ⟨by exact_mod_cast Nat.div_mul_le_self _ _,
        by exact_mod_cast Nat.lt_mul_div_succ _ (tenPow_pos _)⟩

end Decimal

namespace Sizing

variable {s s' s'' : Sizing} {size most z : Decimal} {limit : SizeLimit}

/-- The value and the risk of a sizing are those of its size, which is not negative. -/
structure Valued (s : Sizing) : Prop where
  size_nonneg : 0 ≤ s.size.toRat
  value_eq : s.size.mul s.entryPrice = .ok s.value
  riskAmount_eq : s.size.mul s.stopDistance = .ok s.riskAmount

/-- The same trade with no greater size. -/
structure Cut (s s' : Sizing) : Prop where
  entryPrice_eq : s'.entryPrice = s.entryPrice
  stopPrice_eq : s'.stopPrice = s.stopPrice
  stopDistance_eq : s'.stopDistance = s.stopDistance
  size_le : s'.size.toRat ≤ s.size.toRat

theorem Cut.refl (s : Sizing) : s.Cut s := ⟨rfl, rfl, rfl, le_rfl⟩

theorem Cut.trans (h : s.Cut s') (h' : s'.Cut s'') : s.Cut s'' :=
  ⟨h'.entryPrice_eq.trans h.entryPrice_eq, h'.stopPrice_eq.trans h.stopPrice_eq,
    h'.stopDistance_eq.trans h.stopDistance_eq, h'.size_le.trans h.size_le⟩

/-- Another size for the same trade. -/
theorem withSize_eq_ok (h : s.withSize size = .ok s') :
    s'.Valued ∧ s'.entryPrice = s.entryPrice ∧ s'.stopPrice = s.stopPrice ∧
      s'.stopDistance = s.stopDistance ∧ s'.size.toRat = max size.toRat 0 := by
  simp only [withSize, bind_eq_ok, pure_eq_ok] at h
  obtain ⟨value, hvalue, risk, hrisk, rfl⟩ := h
  have hsize : (size.max 0).toRat = max size.toRat 0 := by
    rw [Decimal.toRat_max, Decimal.toRat_zero]
  exact ⟨⟨hsize ▸ le_max_right _ _, hvalue, hrisk⟩, rfl, rfl, rfl, hsize⟩

/-- A size that is cut by a cap is the quotient of the cap, if that is not negative. -/
theorem cut_eq_ok (hs : s.Valued) (h : s.cut z limit = .ok s') (hz : z.toRat ≤ s.size.toRat) :
    s'.Valued ∧ s.Cut s' ∧ s'.size.toRat = max z.toRat 0 := by
  simp only [cut, bind_eq_ok, pure_eq_ok] at h
  obtain ⟨s₁, hs₁, rfl⟩ := h
  obtain ⟨hvalued, hentry, hstop, hdistance, hsize⟩ := withSize_eq_ok hs₁
  refine ⟨⟨hvalued.size_nonneg, hvalued.value_eq, hvalued.riskAmount_eq⟩,
    ⟨hentry, hstop, hdistance, ?_⟩, hsize⟩
  show s₁.size.toRat ≤ _
  rw [hsize]
  exact max_le hz hs.size_nonneg

/-- What is lost at the stop is within the cap, or the size is what the cap allows. -/
def Within (most : Decimal) (s : Sizing) : Prop :=
  s.riskAmount ≤ most ∨ ∃ z, most.div s.stopDistance = .ok z ∧ s.size.toRat = max z.toRat 0

/-- What is lost at the stop within a cap is no more than the cap, up to rounding. -/
theorem Within.le (h : Within most s) (hs : s.Valued) (hsize : 0 < s.size.toRat)
    (hdistance : 0 < s.stopDistance.toRat) :
    0 ≤ most.toRat ∧ s.size.toRat * s.stopDistance.toRat ≤ most.toRat +
      (1 + s.size.toRat * s.stopDistance.toRat + s.stopDistance.toRat + most.toRat) / 10 ^ 28 := by
  have hrisk : 0 ≤ s.size.toRat * s.stopDistance.toRat := by positivity
  rcases h with hle | ⟨z, hz, hmax⟩
  · -- the rounded risk is within the cap
    have hle := Decimal.le_iff.mp hle
    have hnonneg := (faithful_mul hs.riskAmount_eq).nonneg hrisk
    have hnear := (abs_le.mp (Decimal.nearest_mul hs.riskAmount_eq).abs_sub_le).1
    rw [abs_of_nonneg hrisk] at hnear
    exact ⟨hnonneg.trans hle, by linarith⟩
  · -- the size is the rounded quotient of the cap
    have hsize_eq : s.size.toRat = z.toRat := by
      rcases max_choice z.toRat 0 with heq | heq <;> rw [heq] at hmax
      · exact hmax
      · exact absurd hmax hsize.ne'
    have hmost : 0 ≤ most.toRat := by
      by_contra hneg
      have := (faithful_div hz).le (d := 0) (by
        rw [Decimal.toRat_zero]
        exact div_nonpos_of_nonpos_of_nonneg (not_le.mp hneg).le hdistance.le)
      rw [Decimal.toRat_zero, ← hsize_eq] at this
      linarith
    have hnear := (abs_le.mp (Decimal.nearest_div hz).abs_sub_le).2
    have hquotient : most.toRat / s.stopDistance.toRat * s.stopDistance.toRat = most.toRat :=
      div_mul_cancel₀ _ hdistance.ne'
    rw [abs_of_nonneg (by positivity), ← hsize_eq] at hnear
    refine ⟨hmost, ?_⟩
    have := mul_le_mul_of_nonneg_right hnear hdistance.le
    rw [sub_mul, hquotient, div_mul_eq_mul_div, add_mul, one_mul, hquotient] at this
    linarith

end Sizing

namespace RiskSettings

variable {limits : RiskSettings} {equity most y v z size step : Decimal} {s s' : Sizing}
  {limit : SizeLimit}

open Sizing

/-! ## The caps one by one -/

/-- A cap that is exceeded by the product of the size with `y` gives a smaller size when it is
divided by `y`. -/
theorem div_le_size (hv : s.size.mul y = .ok v) (hmost : most < v) (hy : 0 < y)
    (hz : most.div y = .ok z) : z.toRat ≤ s.size.toRat := by
  rw [Decimal.pos_iff] at hy
  refine (faithful_div hz).le ?_
  rw [div_le_iff₀ hy]
  -- otherwise the rounded product would not exceed the cap either
  by_contra hlt
  have := (faithful_mul hv).le (not_le.mp hlt).le
  exact absurd (Decimal.lt_iff.mp hmost) (not_lt.mpr this)

/-- A cap on the value leaves a size or makes it smaller. -/
theorem cut_by_value (hs : s.Valued) (hentry : 0 < s.entryPrice)
    (h : (if most < s.value then (do s.cut (← most.div s.entryPrice) limit) else return s) =
      .ok s') : s'.Valued ∧ s.Cut s' := by
  split at h
  · next hmost =>
    obtain ⟨z, hz, h⟩ := bind_eq_ok.mp h
    obtain ⟨hvalued, hcut, -⟩ := cut_eq_ok hs h (div_le_size hs.value_eq hmost hentry hz)
    exact ⟨hvalued, hcut⟩
  · obtain rfl := pure_eq_ok.mp h
    exact ⟨hs, .refl s⟩

theorem cut_capPositionSize (hs : s.Valued) (hentry : 0 < s.entryPrice)
    (h : limits.capPositionSize equity s = .ok s') : s'.Valued ∧ s.Cut s' := by
  obtain ⟨most, -, h⟩ := bind_eq_ok.mp h
  exact cut_by_value hs hentry h

theorem cut_capPositionValue (hs : s.Valued) (hentry : 0 < s.entryPrice)
    (h : limits.capPositionValue s = .ok s') : s'.Valued ∧ s.Cut s' :=
  cut_by_value hs hentry h

theorem cut_capLeverage (hs : s.Valued) (hentry : 0 < s.entryPrice)
    (h : limits.capLeverage equity s = .ok s') : s'.Valued ∧ s.Cut s' := by
  obtain ⟨most, -, h⟩ := bind_eq_ok.mp h
  exact cut_by_value hs hentry h

theorem cut_capRiskPerTrade (hs : s.Valued) (h : limits.capRiskPerTrade equity s = .ok s') :
    s'.Valued ∧ s.Cut s' ∧ (0 < s.stopDistance →
      ∃ most, equity.mul limits.maxRiskPerTrade = .ok most ∧ Within most s') := by
  obtain ⟨most, hmost, h⟩ := bind_eq_ok.mp h
  split at h
  · next hexceeds =>
    obtain ⟨hdistance, hexceeds⟩ := hexceeds
    obtain ⟨z, hz, h⟩ := bind_eq_ok.mp h
    obtain ⟨hvalued, hcut, hsize⟩ :=
      cut_eq_ok hs h (div_le_size hs.riskAmount_eq hexceeds hdistance hz)
    refine ⟨hvalued, hcut, fun _ => ⟨most, hmost, .inr ⟨z, ?_, hsize⟩⟩⟩
    rw [hcut.stopDistance_eq]
    exact hz
  · next hwithin =>
    obtain rfl := pure_eq_ok.mp h
    refine ⟨hs, .refl s, fun hdistance => ⟨most, hmost, .inl ?_⟩⟩
    exact Decimal.not_lt_iff.mp fun hexceeds => hwithin ⟨hdistance, hexceeds⟩

/-! ## All caps -/

/-- The caps never raise a size, and what they leave of it is no more than the cap on the risk has
left. -/
theorem applyLimits_eq_ok (hs : s.Valued) (h : limits.applyLimits s equity = .ok s') :
    s'.Valued ∧ s.Cut s' ∧ (0 < s'.size.toRat → 0 < s.stopDistance →
      ∃ most s₁, equity.mul limits.maxRiskPerTrade = .ok most ∧ s₁.Valued ∧ s.Cut s₁ ∧ s₁.Cut s' ∧
        Within most s₁) := by
  unfold applyLimits at h
  split at h
  · -- nothing is left
    obtain ⟨hvalued, hentry, hstop, hdistance, hsize⟩ := withSize_eq_ok h
    rw [Decimal.toRat_zero, max_self] at hsize
    refine ⟨hvalued, ⟨hentry, hstop, hdistance, hsize ▸ hs.size_nonneg⟩, fun hpos => ?_⟩
    exact absurd hsize hpos.ne'
  · next hpositive =>
    have hentry : 0 < s.entryPrice := Decimal.not_le_iff.mp fun hle => hpositive (.inr hle)
    obtain ⟨s₁, h₁, h⟩ := bind_eq_ok.mp h
    obtain ⟨s₂, h₂, h⟩ := bind_eq_ok.mp h
    obtain ⟨s₃, h₃, h₄⟩ := bind_eq_ok.mp h
    obtain ⟨hv₁, hcut₁⟩ := cut_capPositionSize hs hentry h₁
    obtain ⟨hv₂, hcut₂⟩ := cut_capPositionValue hv₁ (hcut₁.entryPrice_eq ▸ hentry) h₂
    have hcut₂ := hcut₁.trans hcut₂
    obtain ⟨hv₃, hcut₃, hwithin⟩ := cut_capRiskPerTrade hv₂ h₃
    have hcut₃ := hcut₂.trans hcut₃
    obtain ⟨hv₄, hcut₄⟩ := cut_capLeverage hv₃ (hcut₃.entryPrice_eq ▸ hentry) h₄
    refine ⟨hv₄, hcut₃.trans hcut₄, fun _ hdistance => ?_⟩
    obtain ⟨most, hmost, hwithin⟩ := hwithin (hcut₂.stopDistance_eq ▸ hdistance)
    exact ⟨most, s₃, hmost, hv₃, hcut₃, hcut₄, hwithin⟩

/-! ## Rounding to steps -/

/-- Rounding down to a whole number of steps, of which there is at least one, raises a size by its
rounding error only. -/
theorem roundToStep_le (h : roundToStep size step = .ok z) (hsize : 0 ≤ size.toRat)
    (hz : 0 < z.toRat) :
    0 < size.toRat ∧ z.toRat ≤ size.toRat + (1 + 5 * size.toRat) / 10 ^ 28 := by
  unfold roundToStep at h
  split at h
  · obtain rfl := pure_eq_ok.mp h
    exact ⟨hz, le_add_of_nonneg_right (by positivity)⟩
  next hstep =>
  have hstep : 0 < step.toRat := by rw [← Decimal.pos_iff, ← Decimal.not_le_iff]; exact hstep
  simp only [bind_eq_ok] at h
  obtain ⟨quotient, hquotient, steps, hsteps, hz'⟩ := h
  have hq : 0 ≤ size.toRat / step.toRat := by positivity
  obtain ⟨n, hn, hle, -⟩ := Decimal.floor_of_nonneg hsteps ((faithful_div hquotient).nonneg hq)
  have hnear := (abs_le.mp (Decimal.nearest_div hquotient).abs_sub_le).2
  have hmul := (abs_le.mp (Decimal.nearest_mul hz').abs_sub_le).2
  have hn1 : (1 : ℚ) ≤ n := by
    rcases Nat.eq_zero_or_pos n with rfl | hpos
    · -- no step at all would be no size
      have := (faithful_mul hz').le (d := 0) (by
        rw [hn, Nat.cast_zero, zero_mul, Decimal.toRat_zero])
      rw [Decimal.toRat_zero] at this
      exact absurd hz (not_lt.mpr this)
    · exact_mod_cast hpos
  rw [abs_of_nonneg hq] at hnear
  rw [hn, abs_of_nonneg (by positivity)] at hmul
  have hqs : size.toRat / step.toRat * step.toRat = size.toRat := div_mul_cancel₀ _ hstep.ne'
  generalize size.toRat / step.toRat = q at hq hnear hqs
  -- at least one step makes the error of the quotient a small part of it
  have hhalf : 1 / 2 ≤ q := by linarith
  have hpos : 0 < size.toRat := by
    rw [← hqs]
    exact mul_pos (by linarith) hstep
  have hsteps : (n : ℚ) ≤ q * (1 + 3 / 10 ^ 28) := by linarith
  have hwhole : n * step.toRat ≤ size.toRat * (1 + 3 / 10 ^ 28) := by
    calc n * step.toRat ≤ q * (1 + 3 / 10 ^ 28) * step.toRat :=
          mul_le_mul_of_nonneg_right hsteps hstep.le
      _ = size.toRat * (1 + 3 / 10 ^ 28) := by rw [mul_right_comm, hqs]
  exact ⟨hpos, by linarith⟩

end RiskSettings

end SimBroker
