import SimBroker.Proofs.Decimal.Rounding

/-!
# Rounding of quotients

Long division keeps the value of what it has found: the digits and the remainder over the divisor,
at the scale of the digits, are the quotient.  It stops when nothing remains or no further digit has
room, and then rounds the last digit by the remainder, so the quotient is rounded half to even.  It
comes to nothing only if the quotient is beyond the format, and its rounds do not run out.  Dropping
zeros afterwards changes only the scale.

## Main definitions

* `partialQuotient`: the number that a long division under way stands for
* `RoundsTo`: what a long division may come to
* `appended`: how many digits a round appends
* `Quotient.parts`: what is left of a quotient when its zeros are dropped

## Main results

* `roundsTo_longDivision`: long division rounds half to even, unless the number is beyond the format
* `rounded_div`, `nearest_div`, `faithful_div`: so the quotient of two decimals is rounded
* `exists_div_of_fits`: a quotient within the range of the format is calculated
-/

namespace SimBroker

/-! ## The last digit -/

/-- Half to even does not go beyond a whole number that the quotient does not reach. -/
theorem halfEven_le_of_lt_mul {n d q : ℕ} (hd : 0 < d) (h : n < q * d) : halfEven n d ≤ q := by
  obtain ⟨-, hhi⟩ := halfEven_bounds (n := n) hd
  by_contra hlt
  have : (q + 1) * d ≤ halfEven n d * d := Nat.mul_le_mul_right d (Nat.lt_of_not_le hlt)
  nlinarith

/-- Digits are rounded by the remainder. -/
theorem halfEven_digits {q r d : ℕ} (hd : 0 < d) :
    HalfEven (q + r / d) (halfEven (q * d + r) d : ℕ) := by
  have h := halfEven_spec (q * d + r) hd
  rwa [Nat.cast_add, Nat.cast_mul, add_div,
    mul_div_cancel_right₀ _ (Nat.cast_ne_zero.mpr hd.ne')] at h

/-- A digit too many is rounded away together with the remainder, which counts as one half of the
digit's unit. -/
theorem halfEven_sticky {q r d : ℕ} (hr : r < d) :
    HalfEven ((q + r / d) / 10) (halfEven (2 * q + if r ≠ 0 then 1 else 0) 20 : ℕ) := by
  have hd : (0 : ℚ) < d := Nat.cast_pos.mpr (Nat.zero_lt_of_lt hr)
  by_cases hr0 : r = 0
  · have h := halfEven_spec (2 * q) (d := 20) (by decide)
    have heq : ((2 * q : ℕ) / (20 : ℕ) : ℚ) = (q + r / d) / 10 := by
      rw [hr0]
      push_cast
      ring
    rw [heq] at h
    simpa only [hr0, ne_eq, not_true_eq_false, if_false, add_zero] using h
  · -- the doubled digits and one are odd, so they are not half way
    have hfrac : (r / d : ℚ) < 1 := (div_lt_one hd).mpr (Nat.cast_lt.mpr hr)
    have hfrac0 : (0 : ℚ) < r / d := div_pos (Nat.cast_pos.mpr (Nat.pos_of_ne_zero hr0)) hd
    rw [if_pos hr0]
    obtain ⟨hlo, hhi⟩ := halfEven_bounds (n := 2 * q + 1) (d := 20) (by decide)
    generalize halfEven (2 * q + 1) 20 = k at hlo hhi ⊢
    have hlo : (q : ℚ) ≤ 10 * k + 4 := by exact_mod_cast (by omega : q ≤ 10 * k + 4)
    have hhi : (10 * k : ℚ) ≤ q + 5 := by exact_mod_cast (by omega : 10 * k ≤ q + 5)
    refine .of_abs_sub_lt ?_
    rw [Int.cast_natCast, abs_lt]
    constructor <;> linarith

namespace Decimal

variable {a b c : Decimal}

/-- A coefficient that rounding has taken to the bound is rounded again with one digit less. -/
theorem halfEven_carry {q r d : ℕ} (hr : r < d) (hq : q < coefficientBound)
    (hcarry : coefficientBound ≤ halfEven (q * d + r) d) :
    halfEven (q * d + r) d = coefficientBound ∧
      HalfEven ((q + r / d) / 10) (halfEven coefficientBound 10 : ℕ) := by
  have hd : 0 < d := Nat.zero_lt_of_lt hr
  have hlt : q * d + r < coefficientBound * d := by nlinarith
  have heq : halfEven (q * d + r) d = coefficientBound :=
    Nat.le_antisymm (halfEven_le_of_lt_mul hd hlt) hcarry
  refine ⟨heq, .of_abs_sub_lt ?_⟩
  have hnear := (halfEven_digits (q := q) (r := r) hd).abs_sub_le
  rw [heq, Int.cast_natCast, coefficientBound_cast, abs_le] at hnear
  have hbelow : (q + r / d : ℚ) < 79228162514264337593543950336 := by
    have hlt : ((q * d + r : ℕ) : ℚ) < (coefficientBound * d : ℕ) := Nat.cast_lt.mpr hlt
    have hd' : (0 : ℚ) < d := Nat.cast_pos.mpr hd
    rw [Nat.cast_add, Nat.cast_mul, Nat.cast_mul, coefficientBound_cast] at hlt
    rw [← sub_pos] at hlt ⊢
    have := div_pos hlt hd'
    field_simp at this ⊢
    linarith
  have hten : halfEven coefficientBound 10 = 7922816251426433759354395034 := by decide
  rw [hten, abs_lt]
  push_cast
  constructor <;> linarith

/-! ## Long division -/

theorem roomFor_le (q cap : ℕ) : roomFor q cap ≤ cap := by
  induction cap with
  | zero => exact le_rfl
  | succ cap ih =>
    unfold roomFor
    split
    · exact le_rfl
    · exact ih.trans (Nat.le_succ cap)

/-- There is no room for any digit only if there is none for one. -/
theorem le_of_roomFor_eq_zero {q cap : ℕ} (h : roomFor q cap = 0) :
    cap = 0 ∨ coefficientBound ≤ q * 10 := by
  induction cap with
  | zero => exact .inl rfl
  | succ cap ih =>
    unfold roomFor at h
    split at h
    · exact absurd h (Nat.succ_ne_zero cap)
    · next hfull =>
      right
      rcases ih h with rfl | hfull
      · exact Nat.le_of_not_lt hfull
      · exact hfull

theorem tenPow_zero : tenPow 0 = 1 := rfl

theorem lt_of_roomFor {q cap : ℕ} (hq : q < coefficientBound) :
    q * tenPow (roomFor q cap) < coefficientBound := by
  induction cap with
  | zero => rwa [roomFor, tenPow_zero, Nat.mul_one]
  | succ cap ih =>
    unfold roomFor
    split
    · next h => exact h
    · exact ih

/-- The number that a long division by `d` stands for, with digits `q`, remainder `r` and scale
`s`. -/
def partialQuotient (d q r : ℕ) (s : ℤ) : ℚ := (q + r / d) / 10 ^ s

/-- A round of long division keeps the number. -/
theorem partialQuotient_round {d : ℕ} (hd : 0 < d) (q r p : ℕ) (s : ℤ) :
    partialQuotient d (q * tenPow p + r * tenPow p / d) (r * tenPow p % d) (s + p) =
      partialQuotient d q r s := by
  have hd' : (d : ℚ) ≠ 0 := Nat.cast_ne_zero.mpr hd.ne'
  have hdiv : ((r * tenPow p / d : ℕ) : ℚ) * d + (r * tenPow p % d : ℕ) = r * 10 ^ p := by
    rw [← tenPow_cast]
    exact_mod_cast Nat.div_add_mod' (r * tenPow p) d
  have hs := zpow_ne_zero s (by norm_num : (10 : ℚ) ≠ 0)
  have hp := pow_ne_zero p (by norm_num : (10 : ℚ) ≠ 0)
  rw [partialQuotient, partialQuotient, zpow_add₀ (by norm_num), zpow_natCast, Nat.cast_add,
    Nat.cast_mul, tenPow_cast]
  field_simp
  linarith

theorem partialQuotient_mul (d q r t : ℕ) :
    partialQuotient d q r t * 10 ^ t = q + r / d := by
  rw [partialQuotient, zpow_natCast, div_mul_cancel₀ _ (ten_pow_pos t).ne']

/-- Digits before the point stand for themselves and for the places that they miss. -/
theorem le_partialQuotient {d q r p : ℕ} {s : ℤ} (hs : s + p ≤ 0) :
    (q * tenPow p : ℕ) ≤ partialQuotient d q r s := by
  have hfrac : (0 : ℚ) ≤ r / d := by positivity
  have hpow : (10 : ℚ) ^ (p : ℤ) * 10 ^ s ≤ 1 := by
    rw [← zpow_add₀ (by norm_num)]
    exact zpow_le_one_of_nonpos₀ (by norm_num) (by omega)
  rw [partialQuotient, le_div_iff₀ (zpow_pos (by norm_num) s), Nat.cast_mul, tenPow_cast, mul_assoc,
    ← zpow_natCast]
  have := mul_le_mul_of_nonneg_left hpow (Nat.cast_nonneg (α := ℚ) q)
  linarith

/-- What a division may come to that stands for `x`: the number rounded half to even, or nothing if
it is beyond the range of the format. -/
def RoundsTo (x : ℚ) : Option Quotient → Prop
  | some c => RoundedAt x c.scale.toNat (c.digits : ℕ)
  | none => ¬ Fits x

theorem not_fits_of_le {x : ℚ} (h : coefficientBound ≤ x) : ¬ Fits x :=
  not_lt.mpr ((sub_le_self _ (by norm_num)).trans (h.trans (le_abs_self x)))

/-- Digits with no room for one more are rounded by the remainder. -/
theorem roundedAt_last {d q r t n : ℕ} (ht : t ≤ 28) (hn : HalfEven (q + r / d) n)
    (hlt : n < coefficientBound) (hfull : t = 28 ∨ coefficientBound ≤ q * 10) :
    RoundedAt (partialQuotient d q r t) t n := by
  refine ⟨ht, by rwa [Nat.abs_cast, Nat.cast_lt], ?_, .inr (hfull.imp_right fun hfull => ?_)⟩
  · rwa [partialQuotient_mul]
  · have hfrac : (0 : ℚ) ≤ r / d := by positivity
    have hle : (coefficientBound : ℚ) ≤ partialQuotient d q r t * 10 ^ (t + 1) := by
      have : (coefficientBound : ℚ) ≤ q * 10 := by exact_mod_cast hfull
      rw [pow_succ, ← mul_assoc, partialQuotient_mul]
      exact this.trans (by linarith)
    obtain ⟨k, hk, hge⟩ := exists_halfEven_ge hle
    exact ⟨k, hk, hge.trans (le_abs_self k)⟩

/-- Digits that are one too many are rounded with one place less. -/
theorem roundedAt_pred {d q r t n : ℕ} {k : ℤ} (ht : t ≤ 28) (hn : HalfEven ((q + r / d) / 10) n)
    (hlt : n < coefficientBound) (hk : HalfEven (q + r / d) k) (hfull : coefficientBound ≤ k) :
    RoundedAt (partialQuotient d q r (t + 1 : ℕ)) t n := by
  have hmul := partialQuotient_mul d q r (t + 1)
  refine ⟨ht, by rwa [Nat.abs_cast, Nat.cast_lt], ?_, .inr (.inr ⟨k, ?_, ?_⟩)⟩
  · rwa [← hmul, pow_succ, ← mul_assoc, mul_div_cancel_right₀ _ (by norm_num)] at hn
  · rwa [hmul]
  · exact hfull.trans (le_abs_self k)

/-- Digits with no room for one more are rounded by the remainder, and once more if they carry. -/
theorem roundsTo_rounded {d q r t : ℕ} {extended : Bool} (hr : r < d) (ht : t ≤ 28)
    (hq : q < coefficientBound) (hfull : t = 28 ∨ coefficientBound ≤ q * 10) :
    RoundsTo (partialQuotient d q r t)
      (if halfEven (q * d + r) d < coefficientBound then
        some ⟨halfEven (q * d + r) d, t, extended⟩
      else if (t - 1 : ℤ) < 0 then none
      else some ⟨halfEven (halfEven (q * d + r) d) 10, t - 1, extended⟩) := by
  have hround := halfEven_digits (q := q) (r := r) (Nat.zero_lt_of_lt hr)
  split
  · next hlt => exact roundedAt_last ht hround hlt hfull
  · next hcarry =>
    have hcarry := Nat.le_of_not_lt hcarry
    obtain ⟨heq, hagain⟩ := halfEven_carry hr hq hcarry
    have hbound : (coefficientBound : ℤ) ≤ (halfEven (q * d + r) d : ℕ) := Nat.cast_le.mpr hcarry
    split
    · next ht0 =>
      -- without a place that could be given up the number is too great
      obtain rfl : t = 0 := by omega
      have hnot := mt hround.fits_iff.mp (not_lt.mpr (hbound.trans (le_abs_self _)))
      rwa [← partialQuotient_mul d q r 0, pow_zero, mul_one] at hnot
    · obtain ⟨t, rfl⟩ : ∃ u, t = u + 1 := ⟨t - 1, by omega⟩
      show RoundedAt _ ((t + 1 : ℕ) - 1 : ℤ).toNat _
      rw [show ((t + 1 : ℕ) - 1 : ℤ).toNat = t by omega, heq]
      have hlt : halfEven coefficientBound 10 < coefficientBound := by decide
      exact roundedAt_pred (by omega) hagain hlt hround hbound

/-- Digits beyond the format are rounded with one place less, where the remainder is sticky. -/
theorem roundsTo_sticky {d q r : ℕ} {s : ℤ} {extended : Bool} (hr : r < d) (hs : s ≤ 28)
    (hq : coefficientBound ≤ q) (hlt : q < 2 * coefficientBound) :
    RoundsTo (partialQuotient d q r s) (if s - 1 < 0 then none
      else some ⟨halfEven (2 * q + (if r ≠ 0 then 1 else 0)) 20, s - 1, extended⟩) := by
  split
  · next hs0 =>
    have hle := le_partialQuotient (d := d) (q := q) (r := r) (p := 0) (s := s) (by omega)
    have hq : (coefficientBound : ℚ) ≤ q := Nat.cast_le.mpr hq
    rw [tenPow_zero, Nat.mul_one] at hle
    exact not_fits_of_le (hq.trans hle)
  · obtain ⟨t, rfl⟩ : ∃ t : ℕ, s = (t + 1 : ℕ) := ⟨(s - 1).toNat, by omega⟩
    show RoundedAt _ (((t + 1 : ℕ) : ℤ) - 1).toNat _
    rw [show (((t + 1 : ℕ) : ℤ) - 1).toNat = t by omega]
    have hround := halfEven_digits (q := q) (r := r) (Nat.zero_lt_of_lt hr)
    have hfrac : (0 : ℚ) ≤ r / d := by positivity
    have hge : (q : ℤ) ≤ (halfEven (q * d + r) d : ℕ) :=
      (HalfEven.intCast q).mono hround (by rw [Int.cast_natCast]; linarith)
    refine roundedAt_pred (by omega) (halfEven_sticky hr) ?_ hround
      ((Nat.cast_le.mpr hq).trans hge)
    have hbound : coefficientBound = 79228162514264337593543950335 + 1 := rfl
    rw [hbound, Nat.lt_succ_iff]
    exact halfEven_le_of_lt_mul (by decide) (by split <;> omega)

/-! ### A round -/

/-- How many digits a round appends: zeros up to the point where nothing remains, and else as many
as there is room for. -/
def appended (q r : ℕ) (s : ℤ) : ℕ :=
  if r = 0 then min 9 (-s).toNat else roomFor q (min 9 (28 - s).toNat)

theorem appended_le_nine (q r : ℕ) (s : ℤ) : appended q r s ≤ 9 := by
  unfold appended
  split
  · exact min_le_left _ _
  · exact (roomFor_le q _).trans (min_le_left _ _)

theorem add_appended_le {s : ℤ} (q r : ℕ) (hs : s ≤ 28) : s + appended q r s ≤ 28 := by
  have := roomFor_le q (min 9 (28 - s).toNat)
  unfold appended
  split <;> omega

/-- Only before the point digits are appended without asking for room. -/
theorem appended_fits {q : ℕ} (hq : q < coefficientBound) (r : ℕ) (s : ℤ) :
    q * tenPow (appended q r s) < coefficientBound ∨ s + appended q r s ≤ 0 := by
  by_cases hr : r = 0 ∧ s ≤ 0
  · right
    rw [appended, if_pos hr.1]
    omega
  · left
    unfold appended
    split
    · next hr0 =>
      rwa [show min 9 (-s).toNat = 0 by omega, tenPow_zero, Nat.mul_one]
    · exact lt_of_roomFor hq

/-- If no digit is appended to an inexact quotient, no further digit has room. -/
theorem full_of_appended_eq_zero {q r : ℕ} {s : ℤ} (hs : s ≤ 28) (hnot : ¬ (r = 0 ∧ 0 ≤ s))
    (h : appended q r s = 0) : s = 28 ∨ coefficientBound ≤ q * 10 := by
  unfold appended at h
  split at h
  · omega
  · exact (le_of_roomFor_eq_zero h).imp_left fun hcap => by omega

/-- The digits of a round are less than one too many. -/
theorem round_lt {d q r p : ℕ} (hr : r < d) (hp : p ≤ 9) (hroom : q * tenPow p < coefficientBound) :
    q * tenPow p + r * tenPow p / d < 2 * coefficientBound := by
  have hlt : r * tenPow p / d < tenPow p :=
    Nat.div_lt_of_lt_mul (Nat.mul_lt_mul_of_pos_right hr (tenPow_pos p))
  have hle : tenPow p ≤ coefficientBound :=
    (Nat.pow_le_pow_right (by decide) hp).trans (by decide : tenPow 9 ≤ coefficientBound)
  omega

theorem roundsTo_exact {d q : ℕ} {s : ℤ} {extended : Bool} (hs0 : 0 ≤ s) (hs : s ≤ 28)
    (hq : q < coefficientBound) : RoundsTo (partialQuotient d q 0 s) (some ⟨q, s, extended⟩) := by
  lift s to ℕ using hs0
  have hmul : partialQuotient d q 0 s * 10 ^ s = (q : ℤ) := by
    rw [partialQuotient_mul, Nat.cast_zero, zero_div, add_zero, Int.cast_natCast]
  exact ⟨show s ≤ 28 by omega, by rwa [Nat.abs_cast, Nat.cast_lt], hmul ▸ .intCast q, .inl hmul⟩

/-- Digits before the point that do not fit make the number too great. -/
theorem roundsTo_none {d q r k : ℕ} {s : ℤ} (hlong : coefficientBound ≤ q * tenPow k)
    (hk : s + k ≤ 0) : RoundsTo (partialQuotient d q r s) none :=
  not_fits_of_le ((Nat.cast_le.mpr hlong).trans (le_partialQuotient hk))

/-- Long division rounds half to even, unless the number is beyond the format. -/
theorem roundsTo_longDivision {d : ℕ} (hd : 0 < d) {fuel q r : ℕ} {s : ℤ} {extended : Bool}
    (hr : r < d) (hs : s ≤ 28) (hq : q < coefficientBound) (hfuel : 28 - s < fuel) :
    RoundsTo (partialQuotient d q r s) (longDivision d fuel q r s extended) := by
  -- every round keeps the number, the bound on its digits and the one on its scale
  induction fuel generalizing q r s extended with
  | zero => omega
  | succ fuel ih =>
    unfold longDivision
    dsimp only
    rw [show (if r = 0 then min 9 (-s).toNat else roomFor q (min 9 (28 - s).toNat)) =
      appended q r s from rfl]
    split
    · next hexact =>
      obtain ⟨rfl, hs0⟩ := hexact
      exact roundsTo_exact hs0 hs hq
    next hexact =>
    split
    · -- no digit has room
      next hnone =>
      have hfull := full_of_appended_eq_zero hs hexact hnone
      split
      · exact roundsTo_none (k := 1) (hfull.resolve_left (by omega)) (by omega)
      next hs0 =>
      lift s to ℕ using not_lt.mp hs0
      exact roundsTo_rounded hr (by omega) hq (hfull.imp_left fun h => by omega)
    · have hscale := add_appended_le q r hs
      split
      · next hlong =>
        exact roundsTo_none hlong ((appended_fits hq r s).resolve_left (Nat.not_lt.mpr hlong))
      next hroom =>
      rw [← partialQuotient_round hd q r (appended q r s) s]
      split
      · -- another round
        next hlt => exact ih (Nat.mod_lt _ hd) hscale hlt (by omega)
      · -- one digit too many
        next hfull =>
        exact roundsTo_sticky (Nat.mod_lt _ hd) hscale (Nat.le_of_not_lt hfull)
          (round_lt hr (appended_le_nine q r s) (Nat.lt_of_not_le hroom))

/-! ## Dropped zeros -/

theorem dropZeros_eq (k q s : ℕ) :
    ((dropZeros k q s).1 / 10 ^ (dropZeros k q s).2 : ℚ) = q / 10 ^ s := by
  unfold dropZeros
  split
  · next h =>
    obtain ⟨hk, hzeros⟩ := h
    obtain ⟨n, rfl⟩ := Nat.dvd_of_mod_eq_zero hzeros
    have := ten_pow_pos k
    have := ten_pow_pos s
    rw [Nat.mul_div_cancel_left n (tenPow_pos k), ten_pow_sub hk, Nat.cast_mul, tenPow_cast]
    field_simp
  · rfl

theorem dropEights_eq (fuel q s : ℕ) :
    ((dropEights fuel q s).1 / 10 ^ (dropEights fuel q s).2 : ℚ) = q / 10 ^ s := by
  induction fuel generalizing q s with
  | zero => rfl
  | succ fuel ih =>
    unfold dropEights
    split
    · next h =>
      -- a round drops eight zeros
      have hdrop := dropZeros_eq 8 q s
      rw [dropZeros, if_pos ⟨h.2.1, h.2.2⟩] at hdrop
      rw [ih, hdrop]
    · rfl

theorem shorten_eq (q s : ℕ) : ((shorten q s).1 / 10 ^ (shorten q s).2 : ℚ) = q / 10 ^ s := by
  unfold shorten
  dsimp only
  rw [dropZeros_eq, dropZeros_eq, dropZeros_eq, dropEights_eq]

theorem dropZeros_le (k q s : ℕ) : dropZeros k q s ≤ (q, s) := by
  unfold dropZeros
  split
  · exact ⟨Nat.div_le_self _ _, Nat.sub_le _ _⟩
  · exact le_rfl

theorem dropEights_le (fuel q s : ℕ) : dropEights fuel q s ≤ (q, s) := by
  induction fuel generalizing q s with
  | zero => exact le_rfl
  | succ fuel ih =>
    unfold dropEights
    split
    · exact (ih _ _).trans ⟨Nat.div_le_self _ _, Nat.sub_le _ _⟩
    · exact le_rfl

theorem shorten_le (q s : ℕ) : shorten q s ≤ (q, s) := by
  unfold shorten
  exact (dropZeros_le 1 _ _).trans <| (dropZeros_le 2 _ _).trans <|
    (dropZeros_le 4 _ _).trans (dropEights_le 3 q s)

/-- The coefficient and the scale of a quotient that has been found. -/
def Quotient.parts (c : Quotient) : ℕ × ℕ :=
  if c.extended then shorten c.digits c.scale.toNat else (c.digits, c.scale.toNat)

theorem Quotient.parts_eq (c : Quotient) :
    (c.parts.1 / 10 ^ c.parts.2 : ℚ) = c.digits / 10 ^ c.scale.toNat := by
  unfold parts
  split
  · exact shorten_eq _ _
  · rfl

theorem Quotient.parts_le (c : Quotient) : c.parts ≤ (c.digits, c.scale.toNat) := by
  unfold parts
  split
  · exact shorten_le _ _
  · exact le_rfl

/-! ## Quotients of decimals -/

theorem toRat_div_toRat (a b : Decimal) :
    a.toRat / b.toRat = if a.negative != b.negative then -(|a.toRat| / |b.toRat|)
      else |a.toRat| / |b.toRat| := by
  rw [abs_toRat, abs_toRat, tenPow_cast, tenPow_cast, toRat_eq_mantissa a, toRat_eq_mantissa b]
  cases a.negative <;> cases b.negative <;> simp [neg_div, div_neg]

/-- Long division begins with the quotient of the coefficients. -/
theorem partialQuotient_eq (a : Decimal) (hb : b.mantissa ≠ 0) :
    partialQuotient b.mantissa (a.mantissa / b.mantissa) (a.mantissa % b.mantissa)
      (a.scale - b.scale) = |a.toRat| / |b.toRat| := by
  have hb' : (b.mantissa : ℚ) ≠ 0 := Nat.cast_ne_zero.mpr hb
  have hdiv : ((a.mantissa / b.mantissa : ℕ) : ℚ) * b.mantissa + (a.mantissa % b.mantissa : ℕ) =
      a.mantissa := by exact_mod_cast Nat.div_add_mod' a.mantissa b.mantissa
  have ha := (ten_pow_pos a.scale).ne'
  have hb := (ten_pow_pos b.scale).ne'
  rw [partialQuotient, abs_toRat, abs_toRat, tenPow_cast, tenPow_cast, zpow_sub₀ (by norm_num),
    zpow_natCast, zpow_natCast, ← hdiv]
  field_simp

/-- The quotient of the coefficients is rounded half to even, unless it is beyond the format. -/
theorem roundsTo_div (a : Decimal) (hb : ¬ b.isZero = true) : RoundsTo (|a.toRat| / |b.toRat|)
    (longDivision b.mantissa 58 (a.mantissa / b.mantissa) (a.mantissa % b.mantissa)
      (a.scale - b.scale) false) := by
  have hb : b.mantissa ≠ 0 := fun hzero => hb (by simp [isZero, hzero])
  have hpos := Nat.pos_of_ne_zero hb
  have ha := a.scale_le
  have hb' := b.scale_le
  rw [← partialQuotient_eq a hb]
  exact roundsTo_longDivision hpos (Nat.mod_lt _ hpos) (by omega)
    (Nat.lt_of_le_of_lt (Nat.div_le_self _ _) a.mantissa_lt) (by omega)

/-- A quotient of decimals that are not zero is a long division with its zeros dropped. -/
theorem div_eq (ha : ¬ a.isZero = true) (hb : ¬ b.isZero = true) :
    a.div b = orFault .divisionOverflow ((longDivision b.mantissa 58 (a.mantissa / b.mantissa)
      (a.mantissa % b.mantissa) (a.scale - b.scale) false).bind fun c =>
        ofParts? (a.negative != b.negative && c.parts.1 != 0) c.parts.1 c.parts.2) := by
  rw [div, if_neg hb, if_neg ha]
  rfl

/-- A quotient is rounded half to even. -/
theorem rounded_div (h : a.div b = .ok c) : Rounded (a.toRat / b.toRat) c := by
  by_cases hb : b.isZero = true
  · rw [div, if_pos hb] at h
    exact nomatch h
  by_cases ha : a.isZero = true
  · rw [div, if_neg hb, if_pos ha] at h
    cases h
    exact .of_eq (by rw [isZero_iff.mp ha, zero_div, toRat_zero])
  rw [div_eq ha hb, orFault_eq_ok] at h
  obtain ⟨quotient, hdivision, hc⟩ := Option.bind_eq_some_iff.mp h
  have hround := roundsTo_div a hb
  rw [hdivision] at hround
  obtain ⟨-, -, hneg, hm, hs⟩ := ofParts?_eq_some hc
  -- the digits without their zeros are the magnitude of the result
  have habs : |c.toRat| = quotient.digits / 10 ^ quotient.scale.toNat := by
    rw [← quotient.parts_eq, abs_toRat, tenPow_cast, hm, hs]
  have hsigned := RoundedAt.rounded hround habs
  rw [toRat_div_toRat]
  by_cases hzero : quotient.parts.1 = 0
  · -- a result rounded to zero is not negative, whatever the signs
    have hc0 : c.toRat = 0 := by rw [← isZero_iff, isZero, hm, hzero, beq_self_eq_true]
    rw [hzero, bne_self_eq_false, Bool.and_false] at hneg
    rw [hneg, if_neg Bool.false_ne_true] at hsigned
    split
    · exact hsigned.neg.congr (by rw [toRat_neg, hc0, neg_zero])
    · exact hsigned
  · rw [bne_iff_ne.mpr hzero, Bool.and_true] at hneg
    rwa [hneg] at hsigned

theorem nearest_div (h : a.div b = .ok c) : Nearest (a.toRat / b.toRat) c := (rounded_div h).nearest

theorem faithful_div (h : a.div b = .ok c) : Faithful (a.toRat / b.toRat) c :=
  (nearest_div h).faithful

/-- A quotient within the range of the format is calculated. -/
theorem exists_div_of_fits (hb : ¬ b.isZero = true) (h : Fits (a.toRat / b.toRat)) :
    ∃ c, a.div b = .ok c := by
  by_cases ha : a.isZero = true
  · exact ⟨0, by rw [div, if_neg hb, if_pos ha]⟩
  simp only [div_eq ha hb, orFault_eq_ok]
  have hround := roundsTo_div a hb
  cases hdivision : longDivision b.mantissa 58 (a.mantissa / b.mantissa) (a.mantissa % b.mantissa)
    (a.scale - b.scale) false with
  | none =>
    rw [hdivision] at hround
    refine absurd (h.of_abs_le ?_) hround
    rw [abs_div, abs_div, abs_abs, abs_abs]
  | some quotient =>
    rw [hdivision] at hround
    have hlt : quotient.digits < coefficientBound := by
      have := hround.abs_lt
      rwa [Nat.abs_cast, Nat.cast_lt] at this
    -- dropping zeros makes the digits and the scale only smaller
    obtain ⟨hdigits, hscale⟩ := quotient.parts_le
    rw [Option.bind_some]
    exact exists_ofParts? (hdigits.trans_lt hlt) (hscale.trans hround.scale_le)

end Decimal

end SimBroker
