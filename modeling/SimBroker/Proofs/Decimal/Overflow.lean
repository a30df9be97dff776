import SimBroker.Proofs.Calc
import SimBroker.Proofs.Decimal.Division
import SimBroker.Proofs.Decimal.Monotone

/-!
# Overflow

A product or a quotient overflows exactly if the exact result is beyond the range of the format.
What a calculation in several steps comes to is less clear, because each step rounds.  But rounding
does not decide whether a number that is moved by a few decimal places is within the range: where it
loses digits, it has as many places as there is room for, so the number has room for its places
moved if and only if they are among these.

## Main results

* `mul_eq_error_iff`, `div_eq_error_iff_not_fits`: when a product and a quotient overflow
* `Rounded.fits_mul_pow_iff`: rounding before the places are moved
-/

namespace SimBroker

namespace Decimal

variable {a b c : Decimal} {x : ℚ} {e fault : ArithmeticFault}

/-! ## Products and quotients -/

theorem eq_of_orFault_eq_error {o : Option Decimal} (h : orFault fault o = .error e) :
    e = fault := by
  cases o with
  | some a => exact nomatch h
  | none => exact (Except.error.inj h).symm

theorem eq_of_mul_eq_error (h : a.mul b = .error e) : e = .multiplicationOverflow := by
  unfold mul at h
  split at h
  · exact nomatch h
  · split at h
    · exact nomatch h
    · exact eq_of_orFault_eq_error h

theorem eq_of_div_eq_error (hb : ¬ b.isZero = true) (h : a.div b = .error e) :
    e = .divisionOverflow := by
  unfold div at h
  rw [if_neg hb] at h
  split at h
  · exact nomatch h
  · exact eq_of_orFault_eq_error h

/-- A product overflows exactly if it is beyond the range of the format. -/
theorem mul_eq_error_iff :
    a.mul b = .error e ↔ ¬ Fits (a.toRat * b.toRat) ∧ e = .multiplicationOverflow := by
  constructor
  · intro h
    refine ⟨fun hfits => ?_, eq_of_mul_eq_error h⟩
    obtain ⟨c, hc⟩ := exists_mul_of_fits hfits
    exact nomatch hc.symm.trans h
  · rintro ⟨hnot, rfl⟩
    cases h : a.mul b with
    | ok c => exact absurd (rounded_mul h).fits hnot
    | error e => rw [eq_of_mul_eq_error h]

/-- A quotient by what is not zero overflows exactly if it is beyond the range of the format. -/
theorem div_eq_error_iff_not_fits (hb : ¬ b.isZero = true) :
    a.div b = .error e ↔ ¬ Fits (a.toRat / b.toRat) ∧ e = .divisionOverflow := by
  constructor
  · intro h
    refine ⟨fun hfits => ?_, eq_of_div_eq_error hb h⟩
    obtain ⟨c, hc⟩ := exists_div_of_fits hb hfits
    exact nomatch hc.symm.trans h
  · rintro ⟨hnot, rfl⟩
    cases h : a.div b with
    | ok c => exact absurd (rounded_div h).fits hnot
    | error e => rw [eq_of_div_eq_error hb h]

/-! ## Places that are moved -/

theorem toRat_hundred : hundred.toRat = 10 ^ 2 := by decide +kernel

theorem Fits.mul_pow_of_le {j k : ℕ} (hx : Fits (x * 10 ^ k)) (h : j ≤ k) :
    Fits (x * 10 ^ j) := by
  refine hx.of_abs_le ?_
  rw [← abs_mul_ten_pow, ← abs_mul_ten_pow]
  exact mul_le_mul_of_nonneg_left (pow_le_pow_right₀ (by norm_num) h) (abs_nonneg x)

/-- A number that has no room for one more place has none either when it is rounded. -/
theorem not_fits_mul_ten {n : ℤ} (h : HalfEven x n) (hx : ¬ Fits (x * 10)) :
    ¬ Fits (n * 10 : ℤ) := by
  have hmax : HalfEven ((coefficientBound - 1 / 2) / 10) 7922816251426433759354395034 := by
    refine .of_abs_sub_lt ?_
    rw [coefficientBound_cast, abs_lt]
    constructor <;> norm_num
  have hle : (coefficientBound - 1 / 2 : ℚ) / 10 ≤ |x| := by
    rw [div_le_iff₀ (by norm_num), ← abs_of_pos (by norm_num : (0 : ℚ) < 10), ← abs_mul]
    exact not_lt.mp hx
  have hn := hmax.mono h.abs hle
  rw [(HalfEven.intCast (n * 10)).fits_iff, abs_mul, not_lt]
  exact (by decide : (coefficientBound : ℤ) ≤ 7922816251426433759354395034 * |10|).trans
    (Int.mul_le_mul_of_nonneg_right hn (by decide))

/-- A number that is moved by some places is within the range of the format if and only if it is so
when it is rounded first. -/
theorem Rounded.fits_mul_pow_iff (h : Rounded x c) {k : ℕ} (hk : k ≤ 28) :
    Fits (c.toRat * 10 ^ k) ↔ Fits (x * 10 ^ k) := by
  obtain ⟨s, n, hn, hc⟩ := h
  by_cases hexact : x * 10 ^ s = n
  · rw [hc, ← hexact, mul_div_cancel_right₀ _ (ten_pow_pos s).ne']
  have hcs : c.toRat * 10 ^ s = n := by rw [hc, div_mul_cancel₀ _ (ten_pow_pos s).ne']
  rcases le_or_gt k s with hks | hsk
  · -- at the scale of the result both are below the bound
    have hfits : Fits (c.toRat * 10 ^ s) := by
      rw [hcs]
      exact (HalfEven.intCast n).fits_iff.mpr hn.abs_lt
    have hfits' : Fits (x * 10 ^ s) := hn.halfEven.fits_iff.mpr hn.abs_lt
    exact iff_of_true (hfits.mul_pow_of_le hks) (hfits'.mul_pow_of_le hks)
  · -- one place more than those of the result has no room
    obtain ⟨j, hj, hfull⟩ := (hn.full.resolve_left hexact).resolve_left (by omega)
    have hnot : ¬ Fits (x * 10 ^ (s + 1)) := mt hj.fits_iff.mp (not_lt.mpr hfull)
    have hnot' : ¬ Fits (c.toRat * 10 ^ (s + 1)) := by
      have := not_fits_mul_ten hn.halfEven (by rwa [mul_assoc, ← pow_succ])
      rwa [pow_succ, ← mul_assoc, hcs, ← Int.cast_ofNat, ← Int.cast_mul]
    exact iff_of_false (mt (·.mul_pow_of_le hsk) hnot') (mt (·.mul_pow_of_le hsk) hnot)

end Decimal

end SimBroker
