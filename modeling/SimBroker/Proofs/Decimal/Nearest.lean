import SimBroker.Proofs.Decimal.Value

/-!
# Rounding to the nearest

An operation rounds its exact result once, to the nearest number with so many places that no
further place has room.  So the error is less than a unit of the last of the 28 places, and less
than that part of the result.

## Main definitions

* `NearestAt x s n`: the coefficient `n` is nearest to `x` at the scale `s`, and `s` is as large as
  it can be
* `Nearest x c`: the decimal `c` is `x` so rounded

## Main results

* `abs_div_sub_halfEven_le`: half to even is within one half
* `Nearest.abs_sub_le`: the error of rounding
* `Nearest.intCast_le`, `Nearest.le_intCast`: rounding does not pass a whole number
* `fit?_eq_some`: bringing a number into the format drops the fewest places
-/

namespace SimBroker

/-! ## Half to even -/

theorem halfEven_bounds {n d : ℕ} (hd : 0 < d) :
    2 * n ≤ (2 * halfEven n d + 1) * d ∧ 2 * halfEven n d * d ≤ 2 * n + d := by
  have hdiv : d * (n / d) + n % d = n := Nat.div_add_mod n d
  have hmod : n % d < d := Nat.mod_lt n hd
  unfold halfEven
  dsimp only
  generalize n / d = q at hdiv
  generalize n % d = r at hdiv hmod
  subst hdiv
  split
  · constructor <;> nlinarith
  · split
    · constructor <;> nlinarith
    · split <;> constructor <;> nlinarith

theorem abs_div_sub_halfEven_le {n d : ℕ} (hd : 0 < d) :
    |(n / d - halfEven n d : ℚ)| ≤ 1 / 2 := by
  obtain ⟨hlo, hhi⟩ := halfEven_bounds (n := n) hd
  have hd' : (0 : ℚ) < d := Nat.cast_pos.mpr hd
  have hlo : (2 * n : ℚ) ≤ (2 * halfEven n d + 1) * d := by exact_mod_cast hlo
  have hhi : (2 * halfEven n d * d : ℚ) ≤ 2 * n + d := by exact_mod_cast hhi
  have hn : (n / d : ℚ) * d = n := div_mul_cancel₀ _ hd'.ne'
  rw [abs_le]
  constructor <;> nlinarith

namespace Decimal

variable {a b c d : Decimal} {negative : Bool} {m s : ℕ} {x : ℚ} {n : ℤ}

theorem tenPow_cast (k : ℕ) : ((tenPow k : ℕ) : ℚ) = 10 ^ k := Nat.cast_pow 10 k

theorem ten_pow_pos (k : ℕ) : (0 : ℚ) < 10 ^ k := pow_pos (by norm_num) k

theorem abs_mul_ten_pow (x : ℚ) (k : ℕ) : |x| * 10 ^ k = |x * 10 ^ k| := by
  rw [abs_mul, abs_of_pos (ten_pow_pos k)]

theorem toRat_eq (a : Decimal) : a.toRat = a.coefficient / 10 ^ a.scale := by
  rw [toRat, tenPow_cast]

theorem toRat_mul_scale (a : Decimal) : a.toRat * 10 ^ a.scale = a.coefficient := by
  rw [toRat_eq, div_mul_cancel₀ _ (ten_pow_pos _).ne']

/-- Whole numbers that are less than one apart are the same. -/
theorem eq_of_abs_cast_sub_lt {m n : ℤ} (h : |(m - n : ℚ)| < 1) : m = n := by
  have hlt : |m - n| < 1 := by exact_mod_cast h
  exact sub_eq_zero.mp (Int.abs_lt_one_iff.mp hlt)

/-! ## The nearest decimal -/

/-- The coefficient `n` is nearest to `x` at the scale `s`; where it is not exact, there are all
places, or one more place would have no room. -/
structure NearestAt (x : ℚ) (s : ℕ) (n : ℤ) : Prop where
  scale_le : s ≤ 28
  abs_sub_le : |x * 10 ^ s - n| ≤ 1 / 2
  full : x * 10 ^ s = n ∨ s = 28 ∨ (coefficientBound - 1 / 2 : ℚ) ≤ |x| * 10 ^ (s + 1)

theorem NearestAt.neg (h : NearestAt x s n) : NearestAt (-x) s (-n) where
  scale_le := h.scale_le
  abs_sub_le := by
    rw [neg_mul, Int.cast_neg, neg_sub_neg, abs_sub_comm]
    exact h.abs_sub_le
  full := by
    rw [neg_mul, Int.cast_neg, neg_inj, abs_neg]
    exact h.full

/-- The decimal is the number rounded to the nearest. -/
def Nearest (x : ℚ) (c : Decimal) : Prop := ∃ s n, NearestAt x s n ∧ c.toRat = n / 10 ^ s

namespace Nearest

theorem of_eq (h : c.toRat = x) : Nearest x c := by
  have hexact : x * 10 ^ c.scale = c.coefficient := by
    rw [← h, toRat_mul_scale]
  refine ⟨c.scale, c.coefficient, ⟨c.scale_le, ?_, .inl hexact⟩, toRat_eq c⟩
  rw [hexact, sub_self, abs_zero]
  norm_num

theorem neg (h : Nearest x c) : Nearest (-x) (-c) := by
  obtain ⟨s, n, hn, hc⟩ := h
  exact ⟨s, -n, hn.neg, by rw [toRat_neg, hc, Int.cast_neg, neg_div]⟩

theorem congr (h : Nearest x d) (hc : c.toRat = d.toRat) : Nearest x c := by
  obtain ⟨s, n, hn, hd⟩ := h
  exact ⟨s, n, hn, hc.trans hd⟩

theorem abs_div_ten_pow_sub (x : ℚ) (n : ℤ) (s : ℕ) :
    |n / 10 ^ s - x| = |x * 10 ^ s - n| / 10 ^ s := by
  have hpos := ten_pow_pos s
  rw [abs_sub_comm, ← abs_of_pos hpos, ← abs_div, abs_of_pos hpos, sub_div,
    mul_div_cancel_right₀ _ hpos.ne']

/-- The error of rounding at fewer than all places is a small part of the number. -/
theorem abs_sub_le_or (h : Nearest x c) :
    |c.toRat - x| ≤ |x| / 10 ^ 28 ∨
      ∃ n : ℤ, c.toRat = n / 10 ^ 28 ∧ |x * 10 ^ 28 - n| ≤ 1 / 2 := by
  obtain ⟨s, n, ⟨hs, habs, hfull⟩, hc⟩ := h
  rcases hfull with hexact | rfl | hfull
  · left
    rw [hc, abs_div_ten_pow_sub, hexact, sub_self, abs_zero, zero_div]
    positivity
  · exact .inr ⟨n, hc, habs⟩
  · -- the coefficient has all its digits, so half a place is a small part of it
    left
    rw [hc, abs_div_ten_pow_sub, div_le_div_iff₀ (ten_pow_pos s) (by norm_num)]
    rw [pow_succ] at hfull
    nlinarith [abs_nonneg x]

/-- The error of rounding is less than a last place and that part of the number. -/
theorem abs_sub_le (h : Nearest x c) : |c.toRat - x| ≤ (1 + |x|) / 10 ^ 28 := by
  rcases h.abs_sub_le_or with h | ⟨n, hc, habs⟩
  · exact h.trans (by gcongr; linarith)
  · have hx := abs_nonneg x
    rw [hc, abs_div_ten_pow_sub]
    gcongr
    exact habs.trans (by linarith)

/-- The magnitude grows by the error at most. -/
theorem abs_toRat_le (h : Nearest x c) : |c.toRat| ≤ |x| + (1 + |x|) / 10 ^ 28 := by
  have := abs_sub_abs_le_abs_sub c.toRat x
  linarith only [this, h.abs_sub_le]

/-- The magnitude shrinks by the error at most. -/
theorem abs_le_abs_toRat (h : Nearest x c) : |x| ≤ |c.toRat| + (1 + |x|) / 10 ^ 28 := by
  have := abs_sub_abs_le_abs_sub x c.toRat
  rw [abs_sub_comm] at this
  linarith only [this, h.abs_sub_le]

/-- Rounding does not go below a whole number. -/
theorem intCast_le (h : Nearest x c) {k : ℤ} (hk : k ≤ x) : k ≤ c.toRat := by
  obtain ⟨s, n, hn, hc⟩ := h
  have hpos := ten_pow_pos s
  rw [hc, le_div_iff₀ hpos]
  -- at the scale of the result the whole number is whole, and nearest numbers keep the order
  have hnear := (abs_le.mp hn.abs_sub_le).2
  have hscaled := mul_le_mul_of_nonneg_right hk hpos.le
  have hlt : (k * 10 ^ s : ℤ) < n + 1 := by
    have : (k * 10 ^ s : ℚ) < n + 1 := by linarith
    exact_mod_cast this
  exact_mod_cast Int.lt_add_one_iff.mp hlt

/-- Rounding does not go above a whole number. -/
theorem le_intCast (h : Nearest x c) {k : ℤ} (hk : x ≤ k) : c.toRat ≤ k := by
  have := h.neg.intCast_le (k := -k) (by rw [Int.cast_neg]; exact neg_le_neg hk)
  rwa [toRat_neg, Int.cast_neg, neg_le_neg_iff] at this

end Nearest

/-! ## Bringing a number into the format -/

theorem ofParts?_eq_some (h : ofParts? negative m s = some c) :
    m < coefficientBound ∧ s ≤ 28 ∧ c.negative = negative ∧ c.mantissa = m ∧ c.scale = s := by
  unfold ofParts? at h
  split at h
  · next hb =>
    cases h
    exact ⟨hb.1, hb.2, rfl, rfl, rfl⟩
  · exact nomatch h

theorem exists_ofParts? (hm : m < coefficientBound) (hs : s ≤ 28) :
    ∃ c, ofParts? negative m s = some c := ⟨_, dif_pos ⟨hm, hs⟩⟩

theorem ofParts?_eq_none (h : ofParts? negative m s = none) : coefficientBound ≤ m ∨ 28 < s := by
  unfold ofParts? at h
  split at h
  · exact nomatch h
  · omega

/-- The result drops the fewest places that make it fit. -/
theorem fit?_eq_some (h : fit? negative m s = some c) :
    ∃ k ≤ s, c.negative = negative ∧ c.mantissa = halfEven m (tenPow k) ∧ c.scale = s - k ∧
      ∀ j < k, coefficientBound ≤ halfEven m (tenPow j) ∨ 28 < s - j := by
  rw [fit?, List.findSome?_eq_some_iff] at h
  obtain ⟨before, k, after, hrange, hk, hnone⟩ := h
  have hlen : before.length < (List.range (s + 1)).length := by simp [hrange]
  -- the place of `k` in the row of numbers from zero is `k` itself
  have hget : k = before.length := by
    have hk := List.getElem_range hlen
    simp only [hrange, List.getElem_append_right (le_refl _), Nat.sub_self,
      List.getElem_cons_zero] at hk
    exact hk
  have hbefore : ∀ j < k, j ∈ before := by
    intro j hj
    have hj' : j < (List.range (s + 1)).length := by omega
    have := List.getElem_range hj'
    simp only [hrange, List.getElem_append_left (hget ▸ hj)] at this
    exact this ▸ List.getElem_mem _
  obtain ⟨-, -, hneg, hm, hs⟩ := ofParts?_eq_some hk
  refine ⟨k, by simp at hlen; omega, hneg, hm, hs, fun j hj => ?_⟩
  exact ofParts?_eq_none (hnone j (hbefore j hj))

theorem toRat_eq_abs (h : c.negative = false) : c.toRat = |c.toRat| :=
  (abs_of_nonneg (toRat_nonneg_of_not_negative h)).symm

theorem toRat_eq_neg_abs (h : c.negative = true) : c.toRat = -|c.toRat| := by
  have hneg : 0 ≤ (-c).toRat :=
    toRat_nonneg_of_not_negative (show (!c.negative) = false by rw [h, Bool.not_true])
  rw [toRat_neg, neg_nonneg] at hneg
  rw [abs_of_nonpos hneg, neg_neg]

theorem ten_pow_sub {j k : ℕ} (h : j ≤ k) : (10 : ℚ) ^ (k - j) = 10 ^ k / 10 ^ j := by
  rw [eq_div_iff (ten_pow_pos j).ne', ← pow_add, Nat.sub_add_cancel h]

end Decimal

end SimBroker
