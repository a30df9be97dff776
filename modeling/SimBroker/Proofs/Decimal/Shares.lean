import SimBroker.Proofs.Decimal.Division
import SimBroker.Proofs.Decimal.Monotone

/-!
# Shares that recombine

A share of a number is calculated by a product and a quotient, and what is left by a difference.
All three are rounded, so the two parts need not make up the number.  But the difference is inexact
only where the number has all its places and no room for one more; then the parts miss the number by
half a unit of its last place at most, and their sum, which is rounded in its turn, is the number
again.  The exception is a tie where the last digit of the number is odd.

## Main definitions

* `TiesAway c x`: the number `x` is half a unit of the last, odd place away from `c`
* `Shares c q Q s r`: the share `s` that `q` of `Q` has of `c`, and the rest `r`

## Main results

* `rounded_add_rest`: a part and the rest make up the number, but for a tie
* `Shares.add_eq_iff`: when the sum of two shares is calculated as the number
* `Shares.add_cases`: by how much they miss it, and that it then has all its digits
* `Shares.share_le_iff`, `Shares.share_le`: when neither part is more than the number
-/

namespace SimBroker

namespace Decimal

variable {c s r : Decimal} {x : ℚ} {t : ℕ} {n : ℤ}

/-- A coefficient within the format makes a decimal. -/
theorem exists_toRat_eq (ht : t ≤ 28) (hn : |n| < coefficientBound) :
    ∃ d : Decimal, d.toRat = n / 10 ^ t := by
  have hlt : n.natAbs < coefficientBound := by
    rw [Int.abs_eq_natAbs] at hn
    exact_mod_cast hn
  refine ⟨⟨decide (n < 0), n.natAbs, t, hlt, ht⟩, ?_⟩
  have hcoefficient : (if decide (n < 0) = true then -(n.natAbs : ℤ) else n.natAbs) = n := by
    split
    · next h => rw [decide_eq_true_eq] at h; omega
    · next h => rw [decide_eq_true_eq] at h; omega
  rw [toRat_eq, coefficient, hcoefficient]

theorem toRat_mul_ten_pow (h : c.scale ≤ t) :
    c.toRat * 10 ^ t = (c.coefficient * (tenPow (t - c.scale) : ℕ) : ℤ) := by
  rw [toRat_eq_div h, div_mul_cancel₀ _ (ten_pow_pos t).ne']

/-- The number is half a unit of the last place of `c` away from it, and the last digit of `c` is
odd, so a tie goes to the other neighbour. -/
structure TiesAway (c : Decimal) (x : ℚ) : Prop where
  odd : Odd c.mantissa
  half : |x - c.toRat| * 10 ^ c.scale = 1 / 2

theorem tiesAway_neg_iff : TiesAway (-c) (-x) ↔ TiesAway c x := by
  have habs : |-x - (-c).toRat| = |x - c.toRat| := by rw [toRat_neg, neg_sub_neg, abs_sub_comm]
  exact ⟨fun h => ⟨h.odd, habs ▸ h.half⟩, fun h => ⟨h.odd, habs.symm ▸ h.half⟩⟩

theorem toRat_mul_scale_of_nonneg (h : 0 ≤ c.toRat) : c.toRat * 10 ^ c.scale = c.mantissa := by
  rw [← abs_of_nonneg h, abs_toRat, tenPow_cast, div_mul_cancel₀ _ (ten_pow_pos _).ne']

theorem mantissa_cast_lt (c : Decimal) : (c.mantissa : ℚ) < (coefficientBound : ℕ) := by
  exact_mod_cast c.mantissa_lt

theorem not_rounded_of_tiesAway (h : TiesAway c x) : ¬ Rounded x c := by
  rintro ⟨t, n, hn, hc⟩
  have hodd : Odd c.coefficient := by
    rw [← Int.natAbs_odd, natAbs_coefficient]
    exact h.odd
  have hcoefficient := toRat_mul_scale c
  have hplaces : |x * 10 ^ t - n| = |x - c.toRat| * 10 ^ t := by
    rw [hc, abs_mul_ten_pow, sub_mul, div_mul_cancel₀ _ (ten_pow_pos t).ne']
  rcases lt_trichotomy t c.scale with hlt | rfl | hlt
  · -- the last digit of `c` is a zero
    obtain ⟨k, hk⟩ : ∃ k, c.scale = t + (k + 1) := ⟨c.scale - t - 1, by omega⟩
    rw [hc, hk, pow_add, ← mul_assoc, div_mul_cancel₀ _ (ten_pow_pos t).ne'] at hcoefficient
    have hten : c.coefficient = n * 10 ^ (k + 1) := by exact_mod_cast hcoefficient.symm
    refine Int.not_even_iff_odd.mpr hodd ?_
    rw [hten]
    exact ((by decide : Even (10 : ℤ)).pow_of_ne_zero (Nat.succ_ne_zero k)).mul_left n
  · -- the coefficient of `c` is the neighbour that is not even
    rw [hc, div_mul_cancel₀ _ (ten_pow_pos _).ne'] at hcoefficient
    obtain rfl : n = c.coefficient := by exact_mod_cast hcoefficient
    exact Int.not_even_iff_odd.mpr hodd (hn.halfEven.even (hplaces.trans h.half))
  · -- half a unit is more than half of what one more place is for
    have hpow : (10 : ℚ) ^ c.scale * 10 ≤ 10 ^ t := by
      rw [← pow_succ]
      exact pow_le_pow_right₀ (by norm_num) hlt
    have hle := mul_le_mul_of_nonneg_left hpow (abs_nonneg (x - c.toRat))
    rw [← mul_assoc, h.half, ← hplaces] at hle
    linarith [hn.halfEven.abs_sub_le]

/-! ## What is left of a number -/

/-- Where the rest of a number is not exact, all places of the number have room in it, the part that
was taken away has more places, and one more place has no room. -/
theorem places_of_inexact (hs : 0 ≤ s.toRat) (hle : s.toRat ≤ c.toRat)
    (h : RoundedAt (c.toRat - s.toRat) t n) (hne : (c.toRat - s.toRat) * 10 ^ t ≠ n) :
    c.scale ≤ t ∧ t < s.scale ∧
      (coefficientBound - 1 / 2 : ℚ) ≤ (c.toRat - s.toRat) * 10 ^ (t + 1) := by
  have hwhole (hc : c.scale ≤ t) : ¬ s.scale ≤ t := fun hst => by
    -- a whole number is rounded to itself
    have hround := h.halfEven
    rw [sub_mul, toRat_mul_ten_pow hc, toRat_mul_ten_pow hst, ← Int.cast_sub] at hround hne
    exact hne (congrArg _ hround.eq_of_intCast)
  obtain ⟨k, hk, hfull⟩ : ∃ k, HalfEven ((c.toRat - s.toRat) * 10 ^ (t + 1)) k ∧
      (coefficientBound : ℤ) ≤ |k| := by
    refine (h.full.resolve_left hne).resolve_left fun ht => ?_
    exact hwhole (ht ▸ c.scale_le) (ht ▸ s.scale_le)
  have hbound := RoundedAt.bound_sub_le hk hfull
  rw [abs_of_nonneg (mul_nonneg (sub_nonneg.mpr hle) (ten_pow_pos _).le)] at hbound
  have hc : c.scale ≤ t := by
    by_contra hlt
    -- otherwise even the number has room for one more place
    have hroom := abs_toRat_mul_le (not_le.mp hlt)
    rw [abs_of_nonneg (hs.trans hle)] at hroom
    rw [coefficientBound_cast] at hroom hbound
    linarith [mul_nonneg hs (ten_pow_pos (t + 1)).le]
  exact ⟨hc, not_le.mp (hwhole hc), hbound⟩

/-- Rounding a number that fills the format with one place more gives all digits but one. -/
theorem bound_le_ten_mul {x : ℚ} (hn : HalfEven (x * 10 ^ t) n)
    (hfull : (coefficientBound - 1 / 2 : ℚ) ≤ x * 10 ^ (t + 1)) :
    (coefficientBound : ℤ) ≤ 10 * n := by
  have hnear := (abs_le.mp hn.abs_sub_le).2
  rw [pow_succ, ← mul_assoc, coefficientBound_cast] at hfull
  have hten : (79228162514264337593543950330 : ℚ) < 10 * n := by linarith
  have hten : 79228162514264337593543950330 < 10 * n := by exact_mod_cast hten
  show (79228162514264337593543950336 : ℤ) ≤ 10 * n
  omega

/-- A number is rounded to a decimal that is half a place away from it at most, if one more place
has no room and it is not a tie that goes to the other neighbour. -/
theorem rounded_of_room (hct : c.scale ≤ t) (ht : t ≤ 28)
    (hroom : |c.toRat| * 10 ^ t < coefficientBound) (hnear : |x - c.toRat| * 10 ^ t ≤ 1 / 2)
    (htie : ¬ TiesAway c x) (hfull : (coefficientBound - 1 / 2 : ℚ) ≤ x * 10 ^ (t + 1)) :
    Rounded x c := by
  have hplaces := toRat_mul_ten_pow hct
  have hdist : |x * 10 ^ t - (c.coefficient * (tenPow (t - c.scale) : ℕ) : ℤ)| =
      |x - c.toRat| * 10 ^ t := by
    rw [abs_mul_ten_pow, sub_mul, hplaces]
  refine ⟨t, _, ⟨ht, ?_, ⟨hdist.trans_le hnear, fun hhalf => ?_⟩, ?_⟩, toRat_eq_div hct⟩
  · rw [abs_mul_ten_pow, hplaces] at hroom
    exact_mod_cast hroom
  · rcases hct.lt_or_eq with hlt | rfl
    · -- with more places than the decimal has, the last one is a zero
      refine Even.mul_left ?_ _
      rw [Int.even_coe_nat]
      exact (by decide : Even 10).pow_of_ne_zero (Nat.sub_pos_of_lt hlt).ne'
    · rw [Nat.sub_self, show tenPow 0 = 1 from rfl, Nat.cast_one, mul_one]
      by_contra hodd
      refine htie ⟨?_, hdist.symm.trans hhalf⟩
      rw [← natAbs_coefficient, Int.natAbs_odd]
      exact Int.not_even_iff_odd.mp hodd
  · -- what fills the format but half a unit is rounded up to what does not fit
    have hbound : HalfEven (coefficientBound - 1 / 2 : ℚ) coefficientBound := by
      rw [coefficientBound_cast]
      exact ⟨by norm_num, fun _ => by decide⟩
    have hx : 0 ≤ x * 10 ^ (t + 1) := le_trans (by rw [coefficientBound_cast]; norm_num) hfull
    obtain ⟨k, hk⟩ := exists_halfEven hx
    exact .inr (.inr ⟨k, hk, (hbound.mono hk hfull).trans (le_abs_self k)⟩)

/-- The coefficient of the number, at the scale of an inexact rest, is less than ten times what has
room. -/
theorem mul_ten_pow_lt (hts : t < s.scale) (h : RoundedAt (c.toRat - s.toRat) t n) :
    c.toRat * 10 ^ t < 10 * (coefficientBound : ℕ) := by
  have hs := abs_toRat_mul_le hts
  have hn : (n : ℚ) < (coefficientBound : ℕ) := by exact_mod_cast (abs_lt.mp h.abs_lt).2
  have hnear := (abs_le.mp h.halfEven.abs_sub_le).2
  have hsabs := mul_le_mul_of_nonneg_right (le_abs_self s.toRat) (ten_pow_pos t).le
  rw [pow_succ, ← mul_assoc] at hs
  rw [coefficientBound_cast] at hs hn ⊢
  linarith

/-- A part of a number and the rest miss the number by what the rest is rounded by. -/
theorem abs_add_rest_le (hn : RoundedAt (c.toRat - s.toRat) t n) (hr : r.toRat = n / 10 ^ t) :
    |s.toRat + r.toRat - c.toRat| * 10 ^ t ≤ 1 / 2 := by
  have hrest : r.toRat * 10 ^ t = n := by rw [hr, div_mul_cancel₀ _ (ten_pow_pos t).ne']
  rw [abs_mul_ten_pow, sub_mul, add_mul, hrest, abs_sub_comm]
  convert hn.halfEven.abs_sub_le using 2
  ring

theorem add_rest_eq (hr : r.toRat = n / 10 ^ t) (hexact : (c.toRat - s.toRat) * 10 ^ t = n) :
    s.toRat + r.toRat = c.toRat := by
  rw [hr, ← hexact, mul_div_cancel_right₀ _ (ten_pow_pos t).ne', add_sub_cancel]

/-- A part of a number and the rest, which is rounded, are half a unit of the last place of the
number away from it at most.  Their sum is rounded to the number, unless it is a tie that goes to
the other neighbour. -/
theorem rounded_add_rest (hs : 0 ≤ s.toRat) (hle : s.toRat ≤ c.toRat)
    (h : Rounded (c.toRat - s.toRat) r) :
    |s.toRat + r.toRat - c.toRat| * 10 ^ c.scale ≤ 1 / 2 ∧
      (¬ TiesAway c (s.toRat + r.toRat) → Rounded (s.toRat + r.toRat) c) := by
  obtain ⟨t, n, hn, hr⟩ := h
  by_cases hexact : (c.toRat - s.toRat) * 10 ^ t = n
  · rw [add_rest_eq hr hexact, sub_self, abs_zero, zero_mul]
    exact ⟨by norm_num, fun _ => .of_eq rfl⟩
  obtain ⟨hct, hts, hfull⟩ := places_of_inexact hs hle hn hexact
  have herror := abs_add_rest_le hn hr
  have hpow : (10 : ℚ) ^ c.scale ≤ 10 ^ t := pow_le_pow_right₀ (by norm_num) hct
  refine ⟨(mul_le_mul_of_nonneg_left hpow (abs_nonneg _)).trans herror, fun htie => ?_⟩
  have hc := abs_of_nonneg (hs.trans hle)
  rcases lt_or_ge (c.toRat * 10 ^ t) (coefficientBound : ℕ) with hroom | hroom
  · -- the rest alone has no room for one more place, and the sum is not less
    refine rounded_of_room hct hn.scale_le (by rwa [hc]) herror htie ?_
    have hten : (coefficientBound : ℚ) ≤ 10 * n := by
      exact_mod_cast bound_le_ten_mul hn.halfEven hfull
    have hrest : r.toRat * 10 ^ t = n := by rw [hr, div_mul_cancel₀ _ (ten_pow_pos t).ne']
    have hs' := mul_nonneg hs (ten_pow_pos (t + 1)).le
    rw [add_mul, pow_succ, ← mul_assoc, ← mul_assoc, hrest]
    rw [pow_succ, ← mul_assoc] at hs'
    rw [coefficientBound_cast] at hten ⊢
    linarith
  · -- the number has no room at this scale, so it has one place less
    have hlt : c.scale < t := by
      refine hct.lt_of_ne fun heq => ?_
      rw [← heq, toRat_mul_scale_of_nonneg (hs.trans hle)] at hroom
      exact hroom.not_gt (mantissa_cast_lt c)
    obtain ⟨u, rfl⟩ : ∃ u, t = u + 1 := ⟨t - 1, by omega⟩
    have hten := mul_ten_pow_lt hts hn
    have hu := ten_pow_pos u
    rw [pow_succ, ← mul_assoc] at herror hten
    refine rounded_of_room (t := u) (by omega) (by have := hn.scale_le; omega) ?_ ?_ htie ?_
    · rw [hc]
      linarith
    · have := mul_nonneg (abs_nonneg (s.toRat + r.toRat - c.toRat)) hu.le
      linarith
    · rw [mul_assoc, ← pow_succ, abs_mul_ten_pow, sub_mul, abs_le] at herror
      rw [coefficientBound_cast] at hroom ⊢
      linarith [herror.1]

/-- Only a number that has all its digits may be missed by a tie. -/
theorem TiesAway.bound_le (htie : TiesAway c (s.toRat + r.toRat)) (hs : 0 ≤ s.toRat)
    (hle : s.toRat ≤ c.toRat) (h : Rounded (c.toRat - s.toRat) r) :
    coefficientBound ≤ 10 * c.mantissa := by
  obtain ⟨t, n, hn, hr⟩ := h
  have hhalf := htie.half
  have hexact : ¬ (c.toRat - s.toRat) * 10 ^ t = n := fun hexact => by
    rw [add_rest_eq hr hexact, sub_self, abs_zero, zero_mul] at hhalf
    norm_num at hhalf
  obtain ⟨hct, -, hfull⟩ := places_of_inexact hs hle hn hexact
  have hlast : t = c.scale := by
    by_contra hne
    have herror := abs_add_rest_le hn hr
    have hpow : (10 : ℚ) ^ c.scale * 10 ≤ 10 ^ t := by
      rw [← pow_succ]
      exact pow_le_pow_right₀ (by norm_num) (by omega)
    have := mul_le_mul_of_nonneg_left hpow (abs_nonneg (s.toRat + r.toRat - c.toRat))
    rw [← mul_assoc, hhalf] at this
    linarith
  rw [hlast, pow_succ, ← mul_assoc, sub_mul] at hfull
  have hs' := mul_nonneg hs (ten_pow_pos c.scale).le
  rw [toRat_mul_scale_of_nonneg (hs.trans hle)] at hfull
  have hlt : ((coefficientBound : ℕ) : ℚ) < (10 * c.mantissa + 1 : ℕ) := by
    push_cast
    linarith
  exact Nat.lt_succ_iff.mp (by exact_mod_cast hlt)

/-! ## Shares -/

/-- A difference that has room at a scale with all places of its terms is a decimal. -/
theorem exists_toRat_eq_sub (hct : c.scale ≤ t) (hst : s.scale ≤ t) (ht : t ≤ 28)
    (hroom : |c.toRat - s.toRat| * 10 ^ t < coefficientBound) :
    ∃ d : Decimal, d.toRat = c.toRat - s.toRat := by
  rw [abs_mul_ten_pow, sub_mul, toRat_mul_ten_pow hct, toRat_mul_ten_pow hst, ← Int.cast_sub]
    at hroom
  obtain ⟨d, hd⟩ := exists_toRat_eq ht (by exact_mod_cast hroom)
  refine ⟨d, ?_⟩
  rw [hd, Int.cast_sub, sub_div, ← toRat_eq_div hct, ← toRat_eq_div hst]

/-- What a part `q` of `Q` has of a number is calculated by a product and a quotient, both of which
are rounded, and the other part has the rest. -/
structure Shares (c q Q s r : Decimal) : Prop where
  pos : 0 < q.toRat
  less : q.toRat < Q.toRat
  share : ∃ product, Rounded (c.toRat * q.toRat) product ∧ Nearest (product.toRat / Q.toRat) s
  rest : Rounded (c.toRat - s.toRat) r

namespace Shares

variable {q Q : Decimal}

theorem neg (h : Shares c q Q s r) : Shares (-c) q Q (-s) (-r) where
  pos := h.pos
  less := h.less
  share := by
    obtain ⟨product, hproduct, hshare⟩ := h.share
    refine ⟨-product, ?_, ?_⟩
    · rw [toRat_neg, neg_mul]
      exact hproduct.neg
    · rw [toRat_neg, neg_div]
      exact hshare.neg
  rest := by
    rw [toRat_neg, toRat_neg, ← neg_sub']
    exact h.rest.neg

theorem share_nonneg (h : Shares c q Q s r) (hc : 0 ≤ c.toRat) : 0 ≤ s.toRat := by
  obtain ⟨product, hproduct, hshare⟩ := h.share
  have hnonneg := hproduct.nearest.faithful.nonneg (mul_nonneg hc h.pos.le)
  exact hshare.faithful.nonneg (div_nonneg hnonneg (h.pos.trans h.less).le)

/-- A share is greater than the number by little more than one at most. -/
theorem share_sub_le (h : Shares c q Q s r) (hc : 0 ≤ c.toRat) :
    s.toRat - c.toRat ≤ 1 + (2 + 3 * c.toRat) / 10 ^ 28 := by
  obtain ⟨product, hproduct, hshare⟩ := h.share
  have hQ := h.pos.trans h.less
  have hunit : 1 / 10 ^ 28 ≤ Q.toRat := toRat_unit ▸ (whole_toRat Q).unit_le hQ
  have hcq := mul_nonneg hc h.pos.le
  have hnonneg := hproduct.nearest.faithful.nonneg hcq
  have hlarge := (abs_le.mp hproduct.nearest.abs_sub_le).2
  rw [abs_of_nonneg hcq] at hlarge
  have hquotient : product.toRat / Q.toRat ≤ c.toRat + 1 + c.toRat / 10 ^ 28 := by
    rw [div_le_iff₀ hQ]
    have := mul_le_mul_of_nonneg_left h.less.le hc
    linarith
  have hround := (abs_le.mp hshare.abs_sub_le).2
  rw [abs_of_nonneg (div_nonneg hnonneg hQ.le)] at hround
  linarith

/-- Where the share is greater than the number, the rest is exact. -/
theorem rest_of_lt (h : Shares c q Q s r) (hc : 0 ≤ c.toRat) (hlt : c.toRat < s.toRat) :
    s.toRat + r.toRat = c.toRat := by
  suffices hexact : ∃ d : Decimal, d.toRat = c.toRat - s.toRat by
    obtain ⟨d, hd⟩ := hexact
    rw [h.rest.unique (.of_eq hd), hd, add_sub_cancel]
  have habs : |c.toRat - s.toRat| = s.toRat - c.toRat := by
    rw [abs_sub_comm, abs_of_pos (sub_pos.mpr hlt)]
  rcases le_or_gt c.scale s.scale with hle | hgt
  · -- the share has room with all its places, and the difference is less
    refine exists_toRat_eq_sub hle le_rfl s.scale_le ?_
    have := mul_nonneg hc (ten_pow_pos s.scale).le
    rw [habs, sub_mul, toRat_mul_scale_of_nonneg (hc.trans hlt.le)]
    linarith [mantissa_cast_lt s]
  · -- the difference is small
    refine exists_toRat_eq_sub le_rfl hgt.le c.scale_le ?_
    have hplaces := toRat_mul_scale_of_nonneg hc
    have hm := mantissa_cast_lt c
    have hpow : (10 : ℚ) ^ c.scale ≤ 10 ^ 28 := pow_le_pow_right₀ (by norm_num) c.scale_le
    have hsmall := mul_le_mul_of_nonneg_right (h.share_sub_le hc) (ten_pow_pos c.scale).le
    rw [coefficientBound_cast] at hm ⊢
    rw [habs]
    linarith

/-- Where the share is greater than the number or not, the two parts are half a unit of the last
place of the number away from it at most, and they are rounded to it but for a tie. -/
theorem add_cases_of_nonneg (h : Shares c q Q s r) (hc : 0 ≤ c.toRat) :
    |s.toRat + r.toRat - c.toRat| * 10 ^ c.scale ≤ 1 / 2 ∧
      (¬ TiesAway c (s.toRat + r.toRat) → Rounded (s.toRat + r.toRat) c) ∧
      (TiesAway c (s.toRat + r.toRat) → coefficientBound ≤ 10 * c.mantissa) := by
  rcases le_or_gt s.toRat c.toRat with hle | hlt
  · have hs := h.share_nonneg hc
    obtain ⟨herror, hrounded⟩ := rounded_add_rest hs hle h.rest
    exact ⟨herror, hrounded, fun htie => htie.bound_le hs hle h.rest⟩
  · have hsum := h.rest_of_lt hc hlt
    have herror : |s.toRat + r.toRat - c.toRat| * 10 ^ c.scale = 0 := by
      rw [hsum, sub_self, abs_zero, zero_mul]
    refine ⟨herror ▸ by norm_num, fun _ => .of_eq hsum.symm, fun htie => ?_⟩
    exact absurd (herror.symm.trans htie.half) (by norm_num)

theorem add_cases (h : Shares c q Q s r) :
    |s.toRat + r.toRat - c.toRat| * 10 ^ c.scale ≤ 1 / 2 ∧
      (¬ TiesAway c (s.toRat + r.toRat) → Rounded (s.toRat + r.toRat) c) ∧
      (TiesAway c (s.toRat + r.toRat) → coefficientBound ≤ 10 * c.mantissa) := by
  rcases le_total 0 c.toRat with hc | hc
  · exact h.add_cases_of_nonneg hc
  · -- with the opposite signs everything is the opposite
    obtain ⟨herror, hrounded, hbound⟩ :=
      h.neg.add_cases_of_nonneg (by rw [toRat_neg]; exact neg_nonneg.mpr hc)
    have hsum : (-s).toRat + (-r).toRat = -(s.toRat + r.toRat) := by
      rw [toRat_neg, toRat_neg, neg_add]
    rw [hsum] at herror hrounded hbound
    rw [tiesAway_neg_iff] at hrounded hbound
    refine ⟨?_, fun htie => ?_, hbound⟩
    · rwa [toRat_neg, neg_sub_neg, abs_sub_comm] at herror
    · have := (hrounded htie).neg
      rw [neg_neg] at this
      exact this.congr (by rw [toRat_neg, toRat_neg, neg_neg])

/-- The sum of the two parts is calculated as the number exactly if it is not a tie that goes to the
other neighbour. -/
theorem add_eq_iff (h : Shares c q Q s r) :
    (∃ sum, s.add r = .ok sum ∧ sum.SameValue c) ↔ ¬ TiesAway c (s.toRat + r.toRat) := by
  constructor
  · rintro ⟨sum, hsum, hsame⟩ htie
    exact not_rounded_of_tiesAway htie ((rounded_add hsum).congr (sameValue_iff.mp hsame).symm)
  · intro htie
    obtain ⟨-, hrounded, -⟩ := h.add_cases
    obtain ⟨sum, hsum, heq⟩ := exists_add_of_rounded (hrounded htie)
    exact ⟨sum, hsum, sameValue_iff.mpr heq⟩

theorem rest_le (h : Shares c q Q s r) (hc : 0 ≤ c.toRat) : r.toRat ≤ c.toRat :=
  h.rest.nearest.faithful.le (sub_le_self _ (h.share_nonneg hc))

theorem share_le_iff (h : Shares c q Q s r) : s.toRat ≤ c.toRat ↔ 0 ≤ r.toRat := by
  have hsign := h.rest.nearest.faithful.neg.pos_iff (whole_sub c s).neg
  rw [toRat_neg, neg_sub, neg_pos, sub_pos] at hsign
  rw [← not_lt, ← not_lt, hsign]

/-- The share is at most the number if what the other part has of it is more than the product is
rounded by. -/
theorem share_le (h : Shares c q Q s r) (hc : 0 ≤ c.toRat)
    (hother : (1 + c.toRat * q.toRat) / 10 ^ 28 ≤ c.toRat * (Q.toRat - q.toRat)) :
    s.toRat ≤ c.toRat := by
  obtain ⟨product, hproduct, hshare⟩ := h.share
  have hlarge := (abs_le.mp hproduct.nearest.abs_sub_le).2
  rw [abs_of_nonneg (mul_nonneg hc h.pos.le)] at hlarge
  refine hshare.faithful.le ?_
  rw [div_le_iff₀ (h.pos.trans h.less)]
  linarith

end Shares

end Decimal

end SimBroker
