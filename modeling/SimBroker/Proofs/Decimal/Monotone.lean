import SimBroker.Proofs.Decimal.Rounding

/-!
# Rounding is monotone

A greater number is not rounded to less, also where the two are rounded with different numbers of
places.  So a number is rounded to one value, whatever operation it comes from, and an addition
overflows only if no decimal is its sum rounded.

## Main results

* `Rounded.mono`, `Rounded.unique`: rounding half to even is monotone, and so it is a function
* `Rounded.fits`: what can be rounded is within the range of the format
* `exists_add_of_rounded`, `exists_mul_of_fits`: sums and products that are calculated
* `mul_le_mul_of_le`: rounded products are monotone
-/

namespace SimBroker

namespace Decimal

variable {a b c d p : Decimal} {negative : Bool} {s t k : ℕ} {x y : ℚ} {m n : ℤ}

/-! ## Monotonicity -/

/-- A number that has no room for one more place is not greater than what a number that is not less
is rounded to with more places. -/
theorem le_div_of_full {j : ℤ} (hj : HalfEven (x * 10 ^ (s + 1)) j)
    (hfull : (coefficientBound : ℤ) ≤ |j|) (hy : RoundedAt y t n) (hst : s < t) (h : x ≤ y) :
    x ≤ n / 10 ^ t := by
  have hfull : (79228162514264337593543950336 : ℤ) ≤ |j| := hfull
  have hn : |n| < 79228162514264337593543950336 := hy.abs_lt
  have hpow : (10 : ℚ) ^ (s + 1) ≤ 10 ^ t := pow_le_pow_right₀ (by norm_num) hst
  have hj' := abs_le.mp hj.abs_sub_le
  rcases le_total 0 j with hsign | hsign
  · -- then the other number has no room for its places either
    rw [abs_of_nonneg hsign] at hfull
    have hbig : (79228162514264337593543950336 : ℚ) ≤ j := by exact_mod_cast hfull
    have hx : 0 ≤ x := nonneg_of_mul_nonneg_left (by linarith) (ten_pow_pos (s + 1))
    have hle : x * 10 ^ (s + 1) ≤ y * 10 ^ t :=
      mul_le_mul h hpow (ten_pow_pos _).le (hx.trans h)
    have := (hj.mono hy.halfEven hle).trans (le_abs_self n)
    omega
  · rw [abs_of_nonpos hsign] at hfull
    have hbig : (j : ℚ) ≤ -79228162514264337593543950336 := by
      exact_mod_cast (by omega : j ≤ -79228162514264337593543950336)
    have hle : (-79228162514264337593543950335 : ℚ) ≤ n := by
      have := neg_abs_le n
      exact_mod_cast (by omega : -79228162514264337593543950335 ≤ n)
    have hx : x ≤ 0 := nonpos_of_mul_nonpos_left (by linarith) (ten_pow_pos (s + 1))
    rw [le_div_iff₀ (ten_pow_pos t)]
    have hplaces := mul_le_mul_of_nonpos_left hpow hx
    linarith

/-- Rounding half to even is monotone. -/
theorem Rounded.mono (hc : Rounded x c) (hd : Rounded y d) (h : x ≤ y) : c.toRat ≤ d.toRat := by
  have hfaithful := hc.nearest.faithful
  have hfaithful' := hd.nearest.faithful
  obtain ⟨s, m, hx, hc⟩ := hc
  obtain ⟨t, n, hy, hd⟩ := hd
  have hpos := ten_pow_pos s
  have hpos' := ten_pow_pos t
  by_cases hexact : x * 10 ^ s = m
  · -- a number that is a decimal is not passed by the rounding of the other
    refine hfaithful'.ge ?_
    rwa [hc, ← hexact, mul_div_cancel_right₀ _ hpos.ne']
  by_cases hexact' : y * 10 ^ t = n
  · refine hfaithful.le ?_
    rwa [hd, ← hexact', mul_div_cancel_right₀ _ hpos'.ne']
  rcases lt_trichotomy s t with hst | rfl | hst
  · -- one more place had no room, although the other number has more places
    obtain ⟨j, hj, hfull⟩ := (hx.full.resolve_left hexact).resolve_left
      (hst.trans_le hy.scale_le).ne
    refine hfaithful.le ?_
    rw [hd]
    exact le_div_of_full hj hfull hy hst h
  · rw [hc, hd]
    have := hx.halfEven.mono hy.halfEven (mul_le_mul_of_nonneg_right h hpos.le)
    gcongr
  · obtain ⟨j, hj, hfull⟩ := (hy.full.resolve_left hexact').resolve_left
      (hst.trans_le hx.scale_le).ne
    refine hfaithful'.ge ?_
    -- the number with fewer places is the greater one, so its negative is the smaller one
    have hneg : HalfEven (-y * 10 ^ (t + 1)) (-j) := by
      rw [neg_mul]
      exact hj.neg
    have := le_div_of_full hneg (by rwa [abs_neg]) hx.neg hst (neg_le_neg h)
    rw [Int.cast_neg, neg_div, neg_le_neg_iff] at this
    rwa [hc]

/-- A number is rounded to one value. -/
theorem Rounded.unique (hc : Rounded x c) (hd : Rounded x d) : c.toRat = d.toRat :=
  le_antisymm (hc.mono hd le_rfl) (hd.mono hc le_rfl)

/-! ## Sums that are calculated -/

/-- A number that has no place in the format is rounded to no decimal. -/
theorem coefficientBound_le_of_fit?_eq_none (h : fit? negative k s = none) :
    coefficientBound ≤ halfEven k (tenPow s) := by
  have hnone := List.findSome?_eq_none_iff.mp h s (List.mem_range.mpr (Nat.lt_succ_self s))
  exact (ofParts?_eq_none hnone).resolve_right (by omega)

/-- A number that can be rounded is within the range of the format. -/
theorem Rounded.fits (h : Rounded x c) : Fits x := by
  obtain ⟨s, n, hn, -⟩ := h
  -- the places only make the number greater
  refine (hn.halfEven.fits_iff.mpr hn.abs_lt).of_abs_le ?_
  rw [← abs_mul_ten_pow]
  exact le_mul_of_one_le_right (abs_nonneg x) (one_le_pow₀ (by norm_num))

/-- A number within the range of the format has a place in it. -/
theorem fit?_isSome_of_fits (hx : |x| = k / 10 ^ s) (h : Fits x) : (fit? negative k s).isSome := by
  rw [Option.isSome_iff_ne_none]
  intro hnone
  have hwhole := halfEven_spec k (tenPow_pos s)
  rw [tenPow_cast, ← hx] at hwhole
  have hlt := hwhole.fits_iff.mp (h.of_abs_le (abs_abs x).le)
  rw [Nat.abs_cast, Nat.cast_lt] at hlt
  exact absurd hlt (Nat.not_lt.mpr (coefficientBound_le_of_fit?_eq_none hnone))

/-- A sum that can be rounded is calculated, with this value. -/
theorem exists_add_of_rounded (h : Rounded (a.toRat + b.toRat) c) :
    ∃ d, a.add b = .ok d ∧ d.toRat = c.toRat := by
  suffices hok : ∃ d, a.add b = .ok d by
    obtain ⟨d, hd⟩ := hok
    exact ⟨d, hd, (rounded_add hd).unique h⟩
  unfold add
  split
  · exact ⟨b, rfl⟩
  · split
    · exact ⟨a, rfl⟩
    · have hsome : (sum? a b).isSome := by
        refine fit?_isSome_of_fits ?_ h.fits
        -- both numbers are whole at the greater of the two scales
        rw [toRat_eq_div (Nat.le_max_left a.scale b.scale),
          toRat_eq_div (Nat.le_max_right a.scale b.scale), ← add_div, ← Int.cast_add, abs_div,
          abs_of_pos (ten_pow_pos _), ← Int.cast_abs, Int.abs_eq_natAbs, Int.cast_natCast]
      obtain ⟨d, hd⟩ := Option.isSome_iff_exists.mp hsome
      exact ⟨d, orFault_eq_ok.mpr hd⟩

/-- A difference that can be rounded is calculated, with this value. -/
theorem exists_sub_of_rounded (h : Rounded (a.toRat - b.toRat) c) :
    ∃ d, a.sub b = .ok d ∧ d.toRat = c.toRat := by
  suffices hok : ∃ d, a.sub b = .ok d by
    obtain ⟨d, hd⟩ := hok
    exact ⟨d, hd, (rounded_sub hd).unique h⟩
  unfold sub
  split
  · exact ⟨_, rfl⟩
  · next ha =>
    split
    · exact ⟨a, rfl⟩
    · next hb =>
      -- without a zero, the difference is calculated as the sum with the opposite
      rw [sub_eq_add_neg, ← toRat_neg] at h
      obtain ⟨d, hd, -⟩ := exists_add_of_rounded h
      rw [add, if_neg ha, if_neg (show ¬ (-b).isZero = true from hb), orFault_eq_ok] at hd
      exact ⟨d, orFault_eq_ok.mpr hd⟩

/-! ## Products -/

/-- A product within the range of the format is calculated. -/
theorem exists_mul_of_fits (h : Fits (a.toRat * b.toRat)) : ∃ d, a.mul b = .ok d := by
  unfold mul
  split
  · exact ⟨0, rfl⟩
  · split
    · exact ⟨0, rfl⟩
    · -- the exact product has the places of both factors
      have hx : |a.toRat * b.toRat| =
          ((a.mantissa * b.mantissa : ℕ) : ℚ) / 10 ^ (a.scale + b.scale) := by
        rw [abs_mul, abs_toRat, abs_toRat, div_mul_div_comm, tenPow_cast, tenPow_cast, ← pow_add,
          Nat.cast_mul]
      have hsome : (fit? (a.negative != b.negative) (a.mantissa * b.mantissa)
          (a.scale + b.scale)).isSome := fit?_isSome_of_fits hx h
      obtain ⟨d, hd⟩ := Option.isSome_iff_exists.mp hsome
      rw [hd]
      exact ⟨_, rfl⟩

/-- A product no greater than a number that can be rounded is calculated. -/
theorem exists_mul_of_abs_le (hc : Rounded x c) (h : |a.toRat * b.toRat| ≤ |x|) :
    ∃ d, a.mul b = .ok d := exists_mul_of_fits (hc.fits.of_abs_le h)

/-- Rounded products are monotone. -/
theorem mul_le_mul_of_le (hc : a.mul p = .ok c) (hd : b.mul p = .ok d)
    (h : a.toRat ≤ b.toRat) (hp : 0 ≤ p.toRat) : c.toRat ≤ d.toRat :=
  (rounded_mul hc).mono (rounded_mul hd) (mul_le_mul_of_nonneg_right h hp)

end Decimal

end SimBroker
