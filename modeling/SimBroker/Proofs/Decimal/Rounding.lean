import SimBroker.Proofs.Decimal.HalfEven

/-!
# Rounding of sums and products

A result too long for the format is rounded once, half to even.  The rounding is *faithful*: it
never passes a decimal that lies between the exact result and the rounded one.  So a sum of two
decimals, which is a whole number of the smallest units, is rounded to zero only if it is zero, and
keeps its sign.

## Main definitions

* `Faithful x c`: no decimal lies strictly between `x` and `c`

## Main results

* `Nearest.faithful`: rounding to the nearest is faithful
* `rounded_add`, `rounded_sub`, `rounded_mul`: sums, differences and products are rounded half to
  even
* `faithful_add`, `faithful_sub`, `faithful_mul`: so they are rounded faithfully
* `pos_add`, `pos_sub_iff`, `isZero_sub`: the sign of a sum and of a difference is exact
-/

namespace SimBroker

namespace Decimal

variable {a b c d : Decimal} {negative : Bool} {m s : ℕ}

/-! ## Faithful rounding -/

/-- No decimal lies strictly between the number `x` and the decimal `c`. -/
def Faithful (x : ℚ) (c : Decimal) : Prop :=
  ∀ d : Decimal, (x ≤ d.toRat → c.toRat ≤ d.toRat) ∧ (d.toRat ≤ x → d.toRat ≤ c.toRat)

namespace Faithful

variable {x : ℚ}

theorem le (h : Faithful x c) (hd : x ≤ d.toRat) : c.toRat ≤ d.toRat := (h d).1 hd

theorem ge (h : Faithful x c) (hd : d.toRat ≤ x) : d.toRat ≤ c.toRat := (h d).2 hd

theorem neg (h : Faithful x c) : Faithful (-x) (-c) := fun d => by
  have hd := h (-d)
  simp only [toRat_neg] at hd ⊢
  exact ⟨fun hx => by linarith [hd.2 (by linarith)], fun hx => by linarith [hd.1 (by linarith)]⟩

theorem nonneg (h : Faithful x c) (hx : 0 ≤ x) : 0 ≤ c.toRat := by
  simpa using h.ge (d := 0) (by simpa using hx)

end Faithful

theorem coefficientBound_cast : ((coefficientBound : ℕ) : ℚ) = 79228162514264337593543950336 := by
  norm_num

/-- A decimal with more places than `s` has less than all digits with one place more. -/
theorem abs_toRat_mul_le (hd : s < d.scale) :
    |d.toRat| * 10 ^ (s + 1) ≤ coefficientBound - 1 := by
  rw [abs_toRat, tenPow_cast, div_mul_eq_mul_div, div_le_iff₀ (ten_pow_pos _)]
  have hm : (d.mantissa + 1 : ℚ) ≤ (coefficientBound : ℕ) := by exact_mod_cast d.mantissa_lt
  have hp : (10 : ℚ) ^ (s + 1) ≤ 10 ^ d.scale := pow_le_pow_right₀ (by norm_num) hd
  have hm0 : (0 : ℚ) ≤ d.mantissa := Nat.cast_nonneg _
  exact mul_le_mul (le_sub_iff_add_le.mpr hm) hp (ten_pow_pos _).le
    (hm0.trans (le_sub_iff_add_le.mpr hm))

/-- The result is not greater than any decimal that the number is not greater than. -/
theorem Nearest.le_of_le {x : ℚ} (h : Nearest x c) (hd : x ≤ d.toRat) : c.toRat ≤ d.toRat := by
  obtain ⟨s, n, ⟨-, habs, hfull⟩, hc⟩ := h
  have hn := (abs_le.mp habs).1
  have hpos := ten_pow_pos s
  rw [hc, div_le_iff₀ hpos]
  rcases Nat.lt_or_ge s d.scale with hlt | hle
  · have hsmall := abs_toRat_mul_le hlt
    have hs := d.scale_le
    rcases hfull with hexact | rfl | hfull
    · rw [← hexact]
      exact mul_le_mul_of_nonneg_right hd hpos.le
    · omega
    · rw [pow_succ, ← mul_assoc, coefficientBound_cast] at hsmall hfull
      have hdabs := mul_le_mul_of_nonneg_right (neg_abs_le d.toRat) hpos.le
      rcases le_or_gt 0 x with hx | hx
      · -- the number has all digits, so `d` is less than it
        rw [abs_of_nonneg hx] at hfull
        have := mul_le_mul_of_nonneg_right (hd.trans (le_abs_self _)) hpos.le
        linarith
      · -- the result is a whole number of tens below all digits
        rw [abs_of_neg hx] at hfull
        have hten : (10 * n : ℚ) < -79228162514264337593543950330 := by linarith
        have hten : 10 * n < -79228162514264337593543950330 := by exact_mod_cast hten
        have hten : 10 * n ≤ -79228162514264337593543950336 := by omega
        have hten : (10 * n : ℚ) ≤ -79228162514264337593543950336 := by exact_mod_cast hten
        linarith
  · -- `d` is a whole number of the last places of the result
    have hk : d.toRat * 10 ^ s = (d.coefficient * (tenPow (s - d.scale) : ℕ) : ℤ) := by
      rw [toRat_eq, Int.cast_mul, Int.cast_natCast, tenPow_cast, ten_pow_sub hle]
      ring
    have hdk := mul_le_mul_of_nonneg_right hd hpos.le
    rw [hk] at hdk ⊢
    have hlt : (n : ℚ) < (d.coefficient * (tenPow (s - d.scale) : ℕ) : ℤ) + 1 := by linarith
    exact_mod_cast Int.lt_add_one_iff.mp (by exact_mod_cast hlt)

/-- Rounding to the nearest is faithful. -/
theorem Nearest.faithful {x : ℚ} (h : Nearest x c) : Faithful x c := by
  intro d
  refine ⟨h.le_of_le, fun hd => ?_⟩
  have := h.neg.le_of_le (d := -d) (by rw [toRat_neg]; exact neg_le_neg hd)
  rwa [toRat_neg, toRat_neg, neg_le_neg_iff] at this

/-! ## Sums and differences -/

theorem orFault_eq_ok {fault : ArithmeticFault} {o : Option Decimal} :
    orFault fault o = .ok c ↔ o = some c := by
  cases o <;> simp [orFault]

theorem toRat_eq_div (h : a.scale ≤ s) :
    a.toRat = (a.coefficient * (tenPow (s - a.scale) : ℕ) : ℤ) / 10 ^ s := by
  rw [toRat_eq, Int.cast_mul, Int.cast_natCast, tenPow_cast, ten_pow_sub h]
  have := ten_pow_pos a.scale
  have := ten_pow_pos s
  field_simp

theorem rounded_sum? (h : sum? a b = some c) : Rounded (a.toRat + b.toRat) c := by
  have hfit := rounded_fit? h
  -- both numbers are whole at the greater of the two scales
  rw [toRat_eq_div (Nat.le_max_left a.scale b.scale),
    toRat_eq_div (Nat.le_max_right a.scale b.scale), ← add_div, ← Int.cast_add]
  generalize a.coefficient * (tenPow (max a.scale b.scale - a.scale) : ℕ) +
    b.coefficient * (tenPow (max a.scale b.scale - b.scale) : ℕ) = total at hfit ⊢
  have hcast : (total.natAbs : ℚ) = |(total : ℚ)| := by
    rw [← Int.cast_abs, Int.abs_eq_natAbs, Int.cast_natCast]
  rw [hcast] at hfit
  rcases lt_or_ge total 0 with ht | ht
  · rwa [if_pos (by simpa using ht), abs_of_neg (by exact_mod_cast ht), neg_div, neg_neg] at hfit
  · rwa [if_neg (by simpa using ht), abs_of_nonneg (by exact_mod_cast ht)] at hfit

/-- A sum is rounded half to even. -/
theorem rounded_add (h : a.add b = .ok c) : Rounded (a.toRat + b.toRat) c := by
  unfold add at h
  split at h
  · next ha =>
    cases h
    -- one of the two is zero, and the other is returned as it is
    exact .of_eq (by rw [isZero_iff.mp ha, zero_add])
  · split at h
    · next hb =>
      cases h
      exact .of_eq (by rw [isZero_iff.mp hb, add_zero])
    · exact rounded_sum? (orFault_eq_ok.mp h)

/-- A difference is rounded half to even. -/
theorem rounded_sub (h : a.sub b = .ok c) : Rounded (a.toRat - b.toRat) c := by
  unfold sub at h
  split at h
  · next ha =>
    rw [isZero_iff.mp ha, zero_sub]
    split at h
    · next hb =>
      cases h
      exact .of_eq (by rw [isZero_iff.mp hb, neg_zero])
    · cases h
      exact .of_eq (toRat_neg b)
  · split at h
    · next hb =>
      cases h
      exact .of_eq (by rw [isZero_iff.mp hb, sub_zero])
    · have := rounded_sum? (orFault_eq_ok.mp h)
      rwa [toRat_neg, ← sub_eq_add_neg] at this

theorem nearest_sub (h : a.sub b = .ok c) : Nearest (a.toRat - b.toRat) c :=
  (rounded_sub h).nearest

theorem faithful_add (h : a.add b = .ok c) : Faithful (a.toRat + b.toRat) c :=
  (rounded_add h).nearest.faithful

theorem faithful_sub (h : a.sub b = .ok c) : Faithful (a.toRat - b.toRat) c :=
  (nearest_sub h).faithful

/-! ## The sign of a sum

A decimal is a whole number of units `10 ^ -28`, and one unit is a decimal; so a sum that is not
zero is at least one unit away from it, and faithful rounding cannot pass the unit. -/

/-- The smallest positive decimal. -/
def unit : Decimal := lit 1 28

theorem toRat_unit : unit.toRat = 1 / 10 ^ 28 := by decide +kernel

/-- A whole number of units. -/
def Whole (x : ℚ) : Prop := ∃ n : ℤ, x = n / 10 ^ 28

theorem whole_toRat (a : Decimal) : Whole a.toRat := ⟨_, toRat_eq_div a.scale_le⟩

theorem Whole.add {x y : ℚ} (hx : Whole x) (hy : Whole y) : Whole (x + y) := by
  obtain ⟨n, rfl⟩ := hx
  obtain ⟨k, rfl⟩ := hy
  exact ⟨n + k, by push_cast; ring⟩

theorem Whole.neg {x : ℚ} (hx : Whole x) : Whole (-x) := by
  obtain ⟨n, rfl⟩ := hx
  exact ⟨-n, by push_cast; ring⟩

theorem Whole.unit_le {x : ℚ} (hx : Whole x) (hpos : 0 < x) : unit.toRat ≤ x := by
  obtain ⟨n, rfl⟩ := hx
  have hn : 0 < n := by
    have := (div_pos_iff_of_pos_right (ten_pow_pos 28)).mp hpos
    exact_mod_cast this
  rw [toRat_unit, div_le_div_iff_of_pos_right (ten_pow_pos 28)]
  exact_mod_cast hn

/-- A decimal that is not zero is at least one unit away from it. -/
theorem le_abs_toRat (h : ¬ a.isZero = true) : 1 / 10 ^ 28 ≤ |a.toRat| := by
  have hpos : 0 < |a.toRat| := abs_pos.mpr (mt isZero_iff.mpr h)
  rcases abs_choice a.toRat with habs | habs <;> rw [habs] at hpos ⊢ <;> rw [← toRat_unit]
  · exact (whole_toRat a).unit_le hpos
  · exact (whole_toRat a).neg.unit_le hpos

/-- The error of a sum or a difference is a small part of it. -/
theorem Nearest.abs_sub_le_of_whole {x : ℚ} (h : Nearest x c) (hx : Whole x) :
    |c.toRat - x| ≤ |x| / 10 ^ 28 := by
  rcases h.abs_sub_le_or with h | ⟨n, hc, habs⟩
  · exact h
  · -- a whole number of units that is nearest to another is that one
    obtain ⟨k, rfl⟩ := hx
    rw [div_mul_cancel₀ _ (ten_pow_pos 28).ne'] at habs
    obtain rfl : k = n := eq_of_abs_cast_sub_lt (habs.trans_lt (by norm_num))
    rw [hc, sub_self, abs_zero]
    positivity

theorem Faithful.pos_iff {x : ℚ} (h : Faithful x c) (hx : Whole x) : 0 < c.toRat ↔ 0 < x := by
  constructor
  · intro hc
    by_contra hle
    have := h.le (d := 0) (by simpa using hle)
    rw [toRat_zero] at this
    linarith
  · intro hpos
    have hunit : 0 < unit.toRat := by
      rw [toRat_unit]
      exact div_pos one_pos (ten_pow_pos 28)
    exact hunit.trans_le (h.ge (hx.unit_le hpos))

theorem Faithful.eq_zero_iff {x : ℚ} (h : Faithful x c) (hx : Whole x) :
    c.toRat = 0 ↔ x = 0 := by
  have hpos := h.pos_iff hx
  have hneg := h.neg.pos_iff hx.neg
  rw [toRat_neg] at hneg
  -- what is neither positive nor negative is zero
  constructor <;> intro h0 <;> rw [h0] at hpos hneg <;> simp at hpos hneg <;> linarith

/-- A sum of positive decimals is positive. -/
theorem pos_add (h : a.add b = .ok c) (ha : 0 < a) (hb : 0 < b) : 0 < c := by
  rw [pos_iff] at ha hb ⊢
  exact ((faithful_add h).pos_iff ((whole_toRat a).add (whole_toRat b))).mpr (add_pos ha hb)

theorem whole_sub (a b : Decimal) : Whole (a.toRat - b.toRat) := by
  rw [sub_eq_add_neg]
  exact (whole_toRat a).add (whole_toRat b).neg

/-- A difference is positive only if it takes less than there is. -/
theorem pos_sub_iff (h : a.sub b = .ok c) : 0 < c ↔ b < a := by
  rw [pos_iff, (faithful_sub h).pos_iff (whole_sub a b), sub_pos, lt_iff]

/-- A difference is zero only between decimals of one value. -/
theorem isZero_sub (h : a.sub b = .ok c) : c.isZero = true ↔ a.SameValue b := by
  rw [isZero_iff, (faithful_sub h).eq_zero_iff (whole_sub a b), sub_eq_zero, sameValue_iff]

/-! ## Products -/

theorem toRat_eq_mantissa (a : Decimal) :
    a.toRat = (if a.negative then -(a.mantissa : ℚ) else a.mantissa) / 10 ^ a.scale := by
  rw [toRat_eq, coefficient]
  cases a.negative <;> simp

theorem toRat_mul_toRat (a b : Decimal) :
    a.toRat * b.toRat = if a.negative != b.negative
      then -(((a.mantissa * b.mantissa : ℕ) : ℚ) / 10 ^ (a.scale + b.scale))
      else ((a.mantissa * b.mantissa : ℕ) : ℚ) / 10 ^ (a.scale + b.scale) := by
  rw [toRat_eq_mantissa a, toRat_eq_mantissa b, div_mul_div_comm, ← pow_add, Nat.cast_mul]
  cases a.negative <;> cases b.negative <;> simp [neg_div]

theorem toRat_abs_of_isZero (h : a.isZero = true) : a.abs.toRat = a.toRat := by
  rw [isZero_iff.mp h, ← isZero_iff]
  exact h

/-- A product of two small coefficients with more than 47 places is less than half a unit. -/
theorem rounded_zero_of_isSmall (ha : a.isSmall = true) (hb : b.isSmall = true)
    (hs : 47 < a.scale + b.scale) : Rounded (a.toRat * b.toRat) 0 := by
  -- the product of the coefficients has at most twenty digits, and at least 48 places
  have hm : a.mantissa * b.mantissa ≤ 18446744073709551616 := by
    simp only [isSmall, decide_eq_true_eq, UInt32.size] at ha hb
    nlinarith
  have hm : (a.mantissa * b.mantissa : ℚ) ≤ 18446744073709551616 := by exact_mod_cast hm
  have hp : (10 : ℚ) ^ 48 ≤ 10 ^ (a.scale + b.scale) := pow_le_pow_right₀ (by norm_num) hs
  have hsmall : |a.toRat * b.toRat * 10 ^ 28 - (0 : ℤ)| < 1 / 2 := by
    rw [Int.cast_zero, sub_zero, abs_mul, abs_mul, abs_toRat, abs_toRat, tenPow_cast, tenPow_cast,
      div_mul_div_comm, ← pow_add, abs_of_pos (ten_pow_pos 28), div_mul_eq_mul_div,
      div_lt_iff₀ (ten_pow_pos _)]
    linarith
  refine ⟨28, 0, ⟨le_rfl, by decide, ⟨hsmall.le, fun hhalf => ?_⟩, .inr (.inl rfl)⟩, ?_⟩
  · exact absurd hhalf hsmall.ne
  · rw [toRat_zero, Int.cast_zero, zero_div]

/-- A product is rounded half to even. -/
theorem rounded_mul (h : a.mul b = .ok c) : Rounded (a.toRat * b.toRat) c := by
  unfold mul at h
  split at h
  · next hz =>
    cases h
    refine .of_eq ?_
    rcases Bool.or_eq_true_iff.mp hz with hz | hz <;> simp [isZero_iff.mp hz]
  · split at h
    · next hs =>
      cases h
      simp only [Bool.and_eq_true, decide_eq_true_eq] at hs
      exact rounded_zero_of_isSmall hs.1.1 hs.1.2 hs.2
    · rw [orFault_eq_ok] at h
      obtain ⟨r, hr, hc⟩ := Option.bind_eq_some_iff.mp h
      have hfit := rounded_fit? hr
      rw [← toRat_mul_toRat] at hfit
      -- a product rounded to zero only loses its sign
      have heq : c.toRat = r.toRat := by
        rw [← Option.some.inj hc]
        split
        · next hz =>
          simp only [Bool.and_eq_true] at hz
          exact toRat_abs_of_isZero hz.1.1
        · rfl
      exact hfit.congr heq

theorem nearest_mul (h : a.mul b = .ok c) : Nearest (a.toRat * b.toRat) c :=
  (rounded_mul h).nearest

theorem faithful_mul (h : a.mul b = .ok c) : Faithful (a.toRat * b.toRat) c :=
  (nearest_mul h).faithful

end Decimal

end SimBroker
