import SimBroker.Proofs.Decimal.Nearest

/-!
# Rounding half to even

Rounding to the nearest leaves open which way a number half way between two neighbours goes.  All
operations take the even neighbour, so what they give is a function of the exact result.
`RoundedAt` says so in addition to `NearestAt`.

## Main definitions

* `HalfEven x n`: the whole number `n` is `x` rounded half to even
* `Decimal.Fits x`: the number `x` is within the range of the format
* `RoundedAt x s n`: so is the coefficient `n` at the scale `s`, which is as large as it can be
* `Rounded x c`: the decimal `c` is `x` so rounded

## Main results

* `halfEven_spec`: `halfEven` rounds half to even
* `HalfEven.mono`: rounding half to even is monotone
* `HalfEven.fits_iff`: the range of the format in whole numbers
* `Rounded.nearest`: rounding half to even is rounding to the nearest
* `rounded_fit?`: bringing a number into the format rounds half to even
-/

namespace SimBroker

/-! ## Whole numbers -/

/-- The whole number `n` is `x` rounded, a half to the even neighbour. -/
structure HalfEven (x : ℚ) (n : ℤ) : Prop where
  abs_sub_le : |x - n| ≤ 1 / 2
  even : |x - n| = 1 / 2 → Even n

namespace HalfEven

variable {x y : ℚ} {m n : ℤ}

/-- What is less than one half away is no tie. -/
theorem of_abs_sub_lt (h : |x - n| < 1 / 2) : HalfEven x n := ⟨h.le, fun hhalf => absurd hhalf h.ne⟩

theorem intCast (n : ℤ) : HalfEven (n : ℚ) n :=
  of_abs_sub_lt (by rw [sub_self, abs_zero]; norm_num)

theorem neg (h : HalfEven x n) : HalfEven (-x) (-n) := by
  have habs : |-x - (-n : ℤ)| = |x - n| := by
    rw [Int.cast_neg, neg_sub_neg, abs_sub_comm]
  exact ⟨habs ▸ h.abs_sub_le, fun hhalf => (h.even (habs ▸ hhalf)).neg⟩

/-- Rounding half to even is monotone. -/
theorem mono (hm : HalfEven x m) (hn : HalfEven y n) (h : x ≤ y) : m ≤ n := by
  by_contra hlt
  have hle : (n + 1 : ℚ) ≤ m := by exact_mod_cast Int.add_one_le_iff.mpr (not_le.mp hlt)
  have hlo := (abs_le.mp hm.abs_sub_le).1
  have hhi := (abs_le.mp hn.abs_sub_le).2
  -- both numbers are half way between two neighbours, which would have to be even both
  have hx : x - m = -(1 / 2) := by linarith
  have hy : y - n = 1 / 2 := by linarith
  have hm := hm.even (by rw [hx, abs_neg, abs_of_pos (by norm_num)])
  have hn := hn.even (by rw [hy, abs_of_pos (by norm_num)])
  have heq : m = n + 1 := by
    have : (m : ℚ) = n + 1 := by linarith
    exact_mod_cast this
  rw [heq, Int.even_add_one] at hm
  exact hm hn

theorem abs (h : HalfEven x n) : HalfEven |x| |n| := by
  have hzero : HalfEven ((0 : ℤ) : ℚ) 0 := intCast 0
  rw [Int.cast_zero] at hzero
  rcases le_total 0 x with hx | hx
  · rwa [abs_of_nonneg hx, abs_of_nonneg (hzero.mono h hx)]
  · rw [abs_of_nonpos hx, abs_of_nonpos (h.mono hzero hx)]
    exact h.neg

end HalfEven

theorem even_halfEven {n d : ℕ} (hd : 0 < d) (h : |(n / d - halfEven n d : ℚ)| = 1 / 2) :
    Even (halfEven n d) := by
  have hd' : (d : ℚ) ≠ 0 := Nat.cast_ne_zero.mpr hd.ne'
  -- the number is half way above or below
  have htie : 2 * n = 2 * (d * halfEven n d) + d ∨ 2 * n + d = 2 * (d * halfEven n d) := by
    rcases (abs_eq (by norm_num : (0 : ℚ) ≤ 1 / 2)).mp h with h | h
    · left
      field_simp at h
      have h : (2 * n : ℚ) = 2 * (d * halfEven n d) + d := by linarith
      exact_mod_cast h
    · right
      field_simp at h
      have h : (2 * n + d : ℚ) = 2 * (d * halfEven n d) := by linarith
      exact_mod_cast h
  have hdiv : d * (n / d) + n % d = n := Nat.div_add_mod n d
  have hmod : n % d < d := Nat.mod_lt n hd
  unfold halfEven at htie ⊢
  dsimp only at htie ⊢
  generalize n / d = q at hdiv htie ⊢
  generalize n % d = r at hdiv hmod htie ⊢
  split at htie
  · omega
  · split at htie
    · rw [Nat.mul_add, Nat.mul_one] at htie
      omega
    · next hlo hhi =>
      -- only here the remainder is half of the divisor
      rw [if_neg hlo, if_neg hhi]
      split
      · next heven => exact Nat.even_iff.mpr heven
      · next hodd => exact Nat.even_iff.mpr (by omega)

/-- `halfEven` rounds half to even. -/
theorem halfEven_spec (n : ℕ) {d : ℕ} (hd : 0 < d) : HalfEven (n / d) (halfEven n d : ℕ) where
  abs_sub_le := abs_div_sub_halfEven_le hd
  even h := (Int.even_coe_nat _).mpr (even_halfEven hd h)

/-- A whole number is rounded to itself. -/
theorem HalfEven.eq_of_intCast {m n : ℤ} (h : HalfEven (m : ℚ) n) : m = n :=
  Decimal.eq_of_abs_cast_sub_lt (h.abs_sub_le.trans_lt (by norm_num))

theorem exists_halfEven {x : ℚ} (hx : 0 ≤ x) : ∃ n : ℤ, HalfEven x n := by
  have hnum : ((x.num.toNat : ℕ) : ℚ) = x.num := by
    exact_mod_cast Int.toNat_of_nonneg (Rat.num_nonneg.mpr hx)
  have h := halfEven_spec x.num.toNat x.den_pos
  rw [hnum, Rat.num_div_den] at h
  exact ⟨_, h⟩

/-- Rounding does not go below a whole number. -/
theorem exists_halfEven_ge {x : ℚ} {n : ℕ} (h : n ≤ x) : ∃ k : ℤ, HalfEven x k ∧ n ≤ k := by
  obtain ⟨k, hk⟩ := exists_halfEven ((Nat.cast_nonneg n).trans h)
  exact ⟨k, hk, (HalfEven.intCast n).mono hk (by exact_mod_cast h)⟩

/-! ## The range of the format -/

/-- The number has a place in the format: rounded to a whole number, it is below the bound. -/
def Decimal.Fits (x : ℚ) : Prop := |x| < coefficientBound - 1 / 2

instance (x : ℚ) : Decidable (Decimal.Fits x) :=
  inferInstanceAs (Decidable (|x| < coefficientBound - 1 / 2))

theorem Decimal.Fits.of_abs_le {x y : ℚ} (hy : Decimal.Fits y) (h : |x| ≤ |y|) : Decimal.Fits x :=
  h.trans_lt hy

theorem HalfEven.fits_iff {x : ℚ} {n : ℤ} (h : HalfEven x n) :
    Decimal.Fits x ↔ |n| < coefficientBound := by
  constructor
  · intro hx
    have hle : |(n : ℚ)| ≤ |x| + 1 / 2 := by
      have hdist := (abs_le.mp h.abs.abs_sub_le).1
      rw [Int.cast_abs] at hdist
      linarith only [hdist]
    exact_mod_cast hle.trans_lt (lt_sub_iff_add_lt.mp hx)
  · intro hn
    by_contra hx
    -- half a unit below the bound goes to the bound, which is even
    have hbound : HalfEven (coefficientBound - 1 / 2) coefficientBound :=
      ⟨by norm_num [abs_of_neg], fun _ => by decide⟩
    exact absurd hn (not_lt.mpr (hbound.mono h.abs (not_lt.mp hx)))

namespace Decimal

variable {c d : Decimal} {negative : Bool} {m s : ℕ} {x : ℚ} {n : ℤ}

/-! ## Decimals -/

/-- The coefficient `n` is `x` rounded half to even at the scale `s`, within the format; where it is
not exact, there are all places, or one more place has no room. -/
structure RoundedAt (x : ℚ) (s : ℕ) (n : ℤ) : Prop where
  scale_le : s ≤ 28
  abs_lt : |n| < coefficientBound
  halfEven : HalfEven (x * 10 ^ s) n
  full : x * 10 ^ s = n ∨ s = 28 ∨ ∃ k, HalfEven (x * 10 ^ (s + 1)) k ∧ (coefficientBound : ℤ) ≤ |k|

namespace RoundedAt

theorem neg (h : RoundedAt x s n) : RoundedAt (-x) s (-n) where
  scale_le := h.scale_le
  abs_lt := by
    rw [abs_neg]
    exact h.abs_lt
  halfEven := by
    rw [neg_mul]
    exact h.halfEven.neg
  full := by
    rw [neg_mul, neg_mul, Int.cast_neg, neg_inj]
    refine h.full.imp_right (.imp_right ?_)
    rintro ⟨k, hk, hfull⟩
    exact ⟨-k, hk.neg, by rwa [abs_neg]⟩

/-- A coefficient that is too long for one more place has all its digits. -/
theorem bound_sub_le {k : ℤ} (hk : HalfEven x k) (hfull : (coefficientBound : ℤ) ≤ |k|) :
    (coefficientBound - 1 / 2 : ℚ) ≤ |x| :=
  not_lt.mp (mt hk.fits_iff.mp (not_lt.mpr hfull))

theorem nearestAt (h : RoundedAt x s n) : NearestAt x s n where
  scale_le := h.scale_le
  abs_sub_le := h.halfEven.abs_sub_le
  full := by
    refine h.full.imp_right (.imp_right ?_)
    rintro ⟨k, hk, hfull⟩
    rw [abs_mul_ten_pow]
    exact bound_sub_le hk hfull

end RoundedAt

/-- The decimal is the number rounded half to even. -/
def Rounded (x : ℚ) (c : Decimal) : Prop := ∃ s n, RoundedAt x s n ∧ c.toRat = n / 10 ^ s

namespace Rounded

theorem nearest (h : Rounded x c) : Nearest x c := by
  obtain ⟨s, n, hn, hc⟩ := h
  exact ⟨s, n, hn.nearestAt, hc⟩

theorem of_eq (h : c.toRat = x) : Rounded x c := by
  have hexact : x * 10 ^ c.scale = c.coefficient := by
    rw [← h, toRat_mul_scale]
  refine ⟨c.scale, c.coefficient, ⟨c.scale_le, ?_, ?_, .inl hexact⟩, toRat_eq c⟩
  · rw [Int.abs_eq_natAbs, natAbs_coefficient]
    exact_mod_cast c.mantissa_lt
  · rw [hexact]
    constructor <;> norm_num

theorem neg (h : Rounded x c) : Rounded (-x) (-c) := by
  obtain ⟨s, n, hn, hc⟩ := h
  exact ⟨s, -n, hn.neg, by rw [toRat_neg, hc, Int.cast_neg, neg_div]⟩

theorem congr (h : Rounded x d) (hc : c.toRat = d.toRat) : Rounded x c := by
  obtain ⟨s, n, hn, hd⟩ := h
  exact ⟨s, n, hn, hc.trans hd⟩

end Rounded

/-- A magnitude is rounded half to even with either sign. -/
theorem RoundedAt.rounded (h : RoundedAt x s m) (hc : |c.toRat| = m / 10 ^ s) :
    Rounded (if c.negative then -x else x) c := by
  cases hneg : c.negative with
  | false => exact ⟨s, m, h, by rw [toRat_eq_abs hneg, hc, Int.cast_natCast]⟩
  | true =>
    refine ⟨s, -m, h.neg, ?_⟩
    rw [toRat_eq_neg_abs hneg, hc, Int.cast_neg, Int.cast_natCast, neg_div]

/-- Bringing a number into the format rounds it half to even. -/
theorem rounded_fit? (h : fit? negative m s = some c) :
    Rounded (if negative then -(m / 10 ^ s : ℚ) else m / 10 ^ s) c := by
  obtain ⟨k, hks, rfl, hm, hs, hmin⟩ := fit?_eq_some h
  have hplaces (j : ℕ) (hj : j ≤ s) : (m / 10 ^ s * 10 ^ (s - j) : ℚ) = m / (tenPow j : ℕ) := by
    rw [ten_pow_sub hj, tenPow_cast, div_mul_div_cancel₀ (ten_pow_pos s).ne']
  have hrounded : RoundedAt (m / 10 ^ s) (s - k) (SimBroker.halfEven m (tenPow k) : ℕ) := by
    refine ⟨hs ▸ c.scale_le, ?_, ?_, ?_⟩
    · rw [Nat.abs_cast, ← hm]
      exact_mod_cast c.mantissa_lt
    · rw [hplaces k hks]
      exact halfEven_spec m (tenPow_pos k)
    · rcases Nat.eq_zero_or_pos k with rfl | hk
      · left
        rw [hplaces 0 hks]
        simp [SimBroker.halfEven, Nat.mod_one]
      · -- one place more had no room
        rcases hmin (k - 1) (by omega) with hbig | hmany
        · refine .inr (.inr ⟨(SimBroker.halfEven m (tenPow (k - 1)) : ℕ), ?_, ?_⟩)
          · rw [show s - k + 1 = s - (k - 1) by omega, hplaces (k - 1) (by omega)]
            exact halfEven_spec m (tenPow_pos _)
          · rw [Nat.abs_cast]
            exact_mod_cast hbig
        · have := c.scale_le
          right; left
          omega
  refine hrounded.rounded ?_
  rw [abs_toRat, hm, hs, tenPow_cast]

end Decimal

end SimBroker
