import SimBroker.Proofs.Decimal.Value

/-!
# Shortest forms

Decimals of one value differ in trailing zeros, and a zero may have a sign besides.  `reduced` drops
both, so decimals have the same value if and only if their reduced forms are equal.  `plain` drops
the sign of a zero alone.

## Main definitions

* `Decimal.plain`: the decimal, with no sign if it is zero
* `Decimal.reduced`: the decimal of the same value with the fewest places

## Main results

* `Decimal.reduced_eq_iff`: decimals of the same value have the same reduced form
* `Decimal.reduced_plain`: a sign of a zero makes no difference
-/

namespace SimBroker

namespace Decimal

variable {a b : Decimal} {m n s t : ℕ}

theorem eq_of_fields (hsign : a.negative = b.negative) (hmantissa : a.mantissa = b.mantissa)
    (hscale : a.scale = b.scale) : a = b := by
  obtain ⟨⟩ := a
  obtain ⟨⟩ := b
  simp_all

/-- The decimal, with no sign if it is zero. -/
def plain (a : Decimal) : Decimal := { a with negative := a.negative && a.mantissa != 0 }

/-- A coefficient and a scale without trailing zeros. -/
def stripZeros : (scale mantissa : ℕ) → ℕ × ℕ
  | 0, m => (m, 0)
  | s + 1, m => if m % 10 = 0 then stripZeros s (m / 10) else (m, s + 1)

theorem stripZeros_spec (s m : ℕ) :
    (stripZeros s m).2 ≤ s ∧ (stripZeros s m).1 * tenPow s = m * tenPow (stripZeros s m).2 ∧
      ((stripZeros s m).2 = 0 ∨ (stripZeros s m).1 % 10 ≠ 0) := by
  induction s generalizing m with
  | zero => exact ⟨le_rfl, rfl, .inl rfl⟩
  | succ s ih =>
    rw [stripZeros]
    split
    · next hzero =>
      obtain ⟨hle, heq, hend⟩ := ih (m / 10)
      refine ⟨hle.trans (Nat.le_succ s), ?_, hend⟩
      have hm : m = m / 10 * 10 := by omega
      calc (stripZeros s (m / 10)).1 * tenPow (s + 1)
          = (stripZeros s (m / 10)).1 * tenPow s * 10 := (Nat.mul_assoc ..).symm
        _ = m / 10 * 10 * tenPow (stripZeros s (m / 10)).2 := by rw [heq, Nat.mul_right_comm]
        _ = m * tenPow (stripZeros s (m / 10)).2 := by rw [← hm]
    · next hend => exact ⟨le_rfl, rfl, .inr hend⟩

theorem stripZeros_le (s m : ℕ) : (stripZeros s m).1 ≤ m := by
  induction s generalizing m with
  | zero => exact le_rfl
  | succ s ih =>
    rw [stripZeros]
    split
    · exact (ih _).trans (Nat.div_le_self ..)
    · exact le_rfl

/-- The decimal of the same value with the fewest places, and no sign if it is zero. -/
def reduced (a : Decimal) : Decimal where
  negative := a.negative && a.mantissa != 0
  mantissa := (stripZeros a.scale a.mantissa).1
  scale := (stripZeros a.scale a.mantissa).2
  mantissa_lt := (stripZeros_le ..).trans_lt a.mantissa_lt
  scale_le := (stripZeros_spec ..).1.trans a.scale_le

theorem reduced_plain (a : Decimal) : a.plain.reduced = a.reduced := by
  have hsign : (a.negative && a.mantissa != 0 && a.mantissa != 0) =
      (a.negative && a.mantissa != 0) := by rw [Bool.and_assoc, Bool.and_self]
  exact congrArg (fun negative => { a.reduced with negative }) hsign

theorem coefficient_reduced (a : Decimal) :
    a.reduced.coefficient =
      if a.negative then -(a.reduced.mantissa : ℤ) else a.reduced.mantissa := by
  by_cases hzero : a.mantissa = 0
  · have hmantissa : a.reduced.mantissa = 0 :=
      Nat.le_zero.mp (hzero ▸ stripZeros_le a.scale a.mantissa)
    simp [coefficient, hmantissa]
  · simp [coefficient, reduced, hzero]

theorem reduced_sameValue (a : Decimal) : a.reduced.SameValue a := by
  obtain ⟨-, heq, -⟩ := stripZeros_spec a.scale a.mantissa
  have heq : (a.reduced.mantissa : ℤ) * (tenPow a.scale : ℕ) =
      a.mantissa * (tenPow a.reduced.scale : ℕ) := by exact_mod_cast heq
  show a.reduced.coefficient * (tenPow a.scale : ℕ) = a.coefficient * (tenPow a.reduced.scale : ℕ)
  rw [coefficient_reduced, coefficient]
  cases a.negative with
  | true => simp only [if_true, Int.neg_mul, heq]
  | false => exact heq

/-- A reduced form has the sign of its value. -/
theorem negative_reduced (a : Decimal) :
    a.reduced.negative = decide (a.reduced.coefficient < 0) := by
  have hmantissa : a.reduced.mantissa = 0 ↔ a.mantissa = 0 := by
    obtain ⟨-, heq, -⟩ := stripZeros_spec a.scale a.mantissa
    constructor
    · intro hzero
      have hzero : (stripZeros a.scale a.mantissa).1 = 0 := hzero
      rw [hzero, Nat.zero_mul] at heq
      exact (Nat.mul_eq_zero.mp heq.symm).resolve_right (tenPow_pos _).ne'
    · intro hzero
      exact Nat.le_zero.mp (hzero ▸ stripZeros_le a.scale a.mantissa)
  rw [coefficient_reduced]
  show (a.negative && a.mantissa != 0) = _
  cases a.negative with
  | true => by_cases hzero : a.mantissa = 0 <;> simp [hzero, hmantissa, Nat.pos_iff_ne_zero]
  | false => simp

/-- Without trailing zeros, a value has one coefficient and one scale. -/
theorem eq_of_no_trailing_zeros (hm : s = 0 ∨ m % 10 ≠ 0) (hn : t = 0 ∨ n % 10 ≠ 0)
    (h : m * tenPow t = n * tenPow s) : m = n ∧ s = t := by
  wlog hle : s ≤ t generalizing m n s t
  · exact (this hn hm h.symm (Nat.le_of_not_le hle)).imp Eq.symm Eq.symm
  obtain ⟨k, rfl⟩ := Nat.exists_eq_add_of_le hle
  have hn' : n = m * tenPow k := by
    refine Nat.eq_of_mul_eq_mul_right (tenPow_pos s) (h.symm.trans ?_)
    rw [tenPow, Nat.pow_eq, pow_add, mul_right_comm, mul_assoc]
    rfl
  cases k with
  | zero => exact ⟨by simpa using hn'.symm, rfl⟩
  | succ k =>
    -- another place of the second would be a zero
    have hzero : n % 10 = 0 := by
      rw [hn', tenPow, Nat.pow_eq, pow_succ, ← mul_assoc]
      exact Nat.mul_mod_left ..
    exact absurd hzero (hn.resolve_left (Nat.succ_ne_zero _))

theorem reduced_eq_iff : a.reduced = b.reduced ↔ a.SameValue b := by
  rw [sameValue_iff, ← sameValue_iff.mp (reduced_sameValue a),
    ← sameValue_iff.mp (reduced_sameValue b)]
  refine ⟨congrArg toRat, fun h => ?_⟩
  rw [← sameValue_iff] at h
  have habs : a.reduced.mantissa * tenPow b.reduced.scale =
      b.reduced.mantissa * tenPow a.reduced.scale := by
    have h := congrArg Int.natAbs h
    rwa [Int.natAbs_mul, Int.natAbs_mul, natAbs_coefficient, natAbs_coefficient] at h
  obtain ⟨hmantissa, hscale⟩ : a.reduced.mantissa = b.reduced.mantissa ∧
      a.reduced.scale = b.reduced.scale :=
    eq_of_no_trailing_zeros (stripZeros_spec ..).2.2 (stripZeros_spec ..).2.2 habs
  have hcoefficient : a.reduced.coefficient = b.reduced.coefficient := by
    have h : a.reduced.coefficient * (tenPow b.reduced.scale : ℕ) =
      b.reduced.coefficient * (tenPow a.reduced.scale : ℕ) := h
    rw [hscale] at h
    exact Int.eq_of_mul_eq_mul_right (Int.natCast_ne_zero.mpr (tenPow_pos _).ne') h
  have hsign : a.reduced.negative = b.reduced.negative := by
    rw [negative_reduced, negative_reduced, hcoefficient]
  exact eq_of_fields hsign hmantissa hscale

end Decimal

end SimBroker
