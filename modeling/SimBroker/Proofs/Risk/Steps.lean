import SimBroker.Proofs.Risk.Sizing

/-!
# Rounding sizes down to steps

The steps in a size are counted by the floor of the size over the step, and that quotient has been
rounded.  Rounding does not pass a whole number, but it may reach one from below.  Then one step too
many is counted, and the steps are more than the size, though by no more than the rounding error of
the quotient.  Sizes with room for their places are too far from the next step for that.

## Main results

* `floor_div`: the steps that are counted in a size
* `RiskSettings.roundToStep_bounds`: what a size is rounded to lies between the size and a step
  below it, or above the size by a rounding error where the quotient was rounded to a whole number
-/

namespace SimBroker

open Calc (bind_eq_ok)
open Decimal (faithful_div nearest_div rounded_mul Rounded ten_pow_pos)

variable {size step q steps z : Decimal} {k n : ℕ}

namespace Decimal

/-- A whole number of positive steps that has at most 28 digits is a decimal. -/
theorem exists_toRat_eq_mul (n : ℕ) (hk : k ≤ 28) (hscale : step.scale ≤ k)
    (hstep : 0 < step.toRat) (hlt : n * step.toRat < 10 ^ (28 - k)) :
    ∃ d : Decimal, d.toRat = n * step.toRat := by
  have hvalue := toRat_eq_div hscale
  obtain ⟨m, hm⟩ : ∃ m : ℕ, step.coefficient * (tenPow (k - step.scale) : ℕ) = m := by
    refine Int.eq_ofNat_of_zero_le ?_
    rw [hvalue, div_pos_iff_of_pos_right (ten_pow_pos k)] at hstep
    exact_mod_cast hstep.le
  rw [hm, Int.cast_natCast] at hvalue
  have hbound : n * m < coefficientBound := by
    rw [hvalue, ← mul_div_assoc, div_lt_iff₀ (ten_pow_pos k), ← pow_add,
      Nat.sub_add_cancel hk] at hlt
    have hlt : n * m < 10 ^ 28 := by exact_mod_cast hlt
    exact hlt.trans (by decide)
  refine ⟨⟨false, n * m, k, hbound, hk⟩, ?_⟩
  rw [toRat_eq_mantissa, if_neg Bool.false_ne_true, hvalue, Nat.cast_mul, mul_div_assoc]

/-- A whole number of steps that is not a last place more than a size is not more. -/
theorem mul_toRat_le_of_lt_add (hsize : size.scale ≤ k) (hstep : step.scale ≤ k)
    (hlt : n * step.toRat < size.toRat + 1 / 10 ^ k) : n * step.toRat ≤ size.toRat := by
  have hpos := ten_pow_pos k
  rw [toRat_eq_div hsize, toRat_eq_div hstep] at hlt ⊢
  rw [← mul_div_assoc, ← add_div, div_lt_div_iff_of_pos_right hpos] at hlt
  rw [← mul_div_assoc, div_le_div_iff_of_pos_right hpos]
  exact_mod_cast Int.lt_add_one_iff.mp (by exact_mod_cast hlt)

end Decimal

/-- The steps that are counted in a size: one more is more than the size, and they are not, unless
the quotient was rounded up to their number. -/
theorem floor_div (hsize : 0 ≤ size.toRat) (hstep : 0 < step.toRat) (hq : size.div step = .ok q)
    (hsteps : q.floor = .ok steps) :
    ∃ n : ℕ, steps.toRat = n ∧ size.toRat < (n + 1) * step.toRat ∧
      (n * step.toRat ≤ size.toRat ∨ q.toRat = n ∧
        n * step.toRat ≤ size.toRat + (size.toRat + step.toRat) / 10 ^ 28) := by
  have hnear := nearest_div hq
  have hquotient : 0 ≤ size.toRat / step.toRat := div_nonneg hsize hstep.le
  obtain ⟨n, hn, hle, hlt⟩ := Decimal.floor_of_nonneg hsteps ((faithful_div hq).nonneg hquotient)
  refine ⟨n, hn, ?_, ?_⟩
  · -- a quotient of one step more would not have been rounded below it
    rw [← div_lt_iff₀ hstep]
    by_contra hge
    have := hnear.intCast_le (k := n + 1) (by push_cast; exact not_lt.mp hge)
    push_cast at this
    exact absurd hlt (not_lt.mpr this)
  · rw [← le_div_iff₀ hstep]
    refine or_iff_not_imp_left.mpr fun hup => ?_
    -- the quotient is less than the number of steps, so it was rounded up to it
    have heq : q.toRat = n :=
      le_antisymm (by exact_mod_cast hnear.le_intCast (k := n) (not_le.mp hup).le) hle
    refine ⟨heq, ?_⟩
    have herror := (abs_le.mp hnear.abs_sub_le).2
    rw [heq, abs_of_nonneg hquotient] at herror
    have hmul : size.toRat / step.toRat * step.toRat = size.toRat := div_mul_cancel₀ _ hstep.ne'
    have herror := mul_le_mul_of_nonneg_right herror hstep.le
    rw [sub_mul, hmul, div_mul_eq_mul_div, add_mul, one_mul, hmul] at herror
    linarith

namespace RiskSettings

/-- A size is rounded to a whole number of steps, as the product is rounded; one step more is more
than the size.  Neither the steps nor what they are rounded to are more than the size, except where
the quotient was rounded up to the number of steps; then the steps exceed the size by its rounding
error at most.  Where size and step leave enough of the 28 places to the product, it is exact and
not more than the size. -/
theorem roundToStep_bounds (hsize : 0 ≤ size) (hstep : 0 < step)
    (h : roundToStep size step = .ok z) :
    ∃ n : ℕ, Rounded (n * step.toRat) z ∧ size.toRat < (n + 1) * step.toRat ∧
      (n * step.toRat ≤ size.toRat ∧ z ≤ size ∨ (∃ q, size.div step = .ok q ∧ q.toRat = n) ∧
        n * step.toRat ≤ size.toRat + (size.toRat + step.toRat) / 10 ^ 28) ∧
      ∀ k ≤ 28, size.scale ≤ k → step.scale ≤ k →
        size.toRat + step.toRat < 10 ^ (28 - k) →
        z.toRat = n * step.toRat ∧ n * step.toRat ≤ size.toRat := by
  rw [roundToStep, if_neg (Decimal.not_le_iff.mpr hstep)] at h
  rw [Decimal.nonneg_iff] at hsize
  rw [Decimal.pos_iff] at hstep
  simp only [bind_eq_ok] at h
  obtain ⟨q, hq, steps, hsteps, hz⟩ := h
  obtain ⟨n, hn, hlt, hle⟩ := floor_div hsize hstep hq hsteps
  have hz := hn ▸ rounded_mul hz
  have hfaithful := hz.nearest.faithful
  refine ⟨n, hz, hlt, hle.imp (fun hle => ⟨hle, Decimal.le_iff.mpr (hfaithful.le hle)⟩)
    fun hup => ⟨⟨q, hq, hup.1⟩, hup.2⟩, ?_⟩
  intro k hk hsizeScale hstepScale hroom
  have hwhole : n * step.toRat ≤ size.toRat := by
    rcases hle with hle | ⟨-, hle⟩
    · exact hle
    · -- the error is less than a last place
      refine Decimal.mul_toRat_le_of_lt_add hsizeScale hstepScale (hle.trans_lt ?_)
      rw [add_lt_add_iff_left, div_lt_div_iff₀ (by norm_num) (ten_pow_pos k), one_mul]
      calc (size.toRat + step.toRat) * 10 ^ k < 10 ^ (28 - k) * 10 ^ k :=
            mul_lt_mul_of_pos_right hroom (ten_pow_pos k)
        _ = 10 ^ 28 := by rw [← pow_add, Nat.sub_add_cancel hk]
  obtain ⟨d, hd⟩ := Decimal.exists_toRat_eq_mul n hk hstepScale hstep
    (hwhole.trans_lt (by linarith))
  exact ⟨hd ▸ le_antisymm (hfaithful.le hd.ge) (hfaithful.ge hd.le), hwhole⟩

/-- A size of whole hundredths is rounded to the whole steps that it holds. -/
theorem roundToStep_bounds_hundredths :
    0 ≤ Decimal.lit 1000 2 ∧ 0 < Decimal.lit 3 0 ∧
      roundToStep (.lit 1000 2) (.lit 3 0) = .ok (.lit 9 0) ∧
      ∃ n : ℕ, (Decimal.lit 9 0).toRat = n * (Decimal.lit 3 0).toRat ∧
        (Decimal.lit 1000 2).toRat < (n + 1) * (Decimal.lit 3 0).toRat := by
  have hsize : 0 ≤ Decimal.lit 1000 2 := by decide +kernel
  have hstep : 0 < Decimal.lit 3 0 := by decide +kernel
  have h : roundToStep (.lit 1000 2) (.lit 3 0) = .ok (.lit 9 0) := by decide +kernel
  obtain ⟨n, -, hlt, -, hexact⟩ := roundToStep_bounds hsize hstep h
  have hroom : (Decimal.lit 1000 2).toRat + (Decimal.lit 3 0).toRat < 10 ^ (28 - 2) := by
    have hten : (Decimal.lit 1000 2).toRat = 10 := by decide +kernel
    have hthree : (Decimal.lit 3 0).toRat = 3 := by decide +kernel
    rw [hten, hthree]
    norm_num
  obtain ⟨heq, -⟩ := hexact 2 (by decide) (by decide) (by decide) hroom
  exact ⟨hsize, hstep, h, n, heq, hlt⟩

/-- The quotient of a size just below the step is rounded to 1, and the size is raised to the step,
although no step is in it. -/
theorem roundToStep_raises :
    0 ≤ Decimal.lit 69999999999999999999999999999 28 ∧ 0 < Decimal.lit 7 0 ∧
      roundToStep (.lit 69999999999999999999999999999 28) (.lit 7 0) = .ok (.lit 7 0) ∧
      Decimal.lit 69999999999999999999999999999 28 < .lit 7 0 := by
  decide +kernel

end RiskSettings

end SimBroker
