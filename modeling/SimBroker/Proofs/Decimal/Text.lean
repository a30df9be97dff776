import SimBroker.Decimal.Text
import SimBroker.Proofs.Decimal.Reduced
import SimBroker.Proofs.Text.Digit
import Mathlib.Data.List.TakeWhile

/-!
# Reading decimals back

A decimal that is written is read back with its scale, and so with its value.  Only the sign of a
zero is lost.  Digits are read one after another as long as they have room, which those of a decimal
have.

## Main definitions

* `Decimal.Scan.withDigits`: a number under way after some digits

## Main results

* `Decimal.Scan.read?_append`: digits that have room are taken
* `Decimal.ofChars?_toChars`, `Decimal.ofText?_toText`: what is written is read back
-/

namespace SimBroker

namespace Decimal

variable {m s : ℕ}

/-! ## Digits and a point -/

namespace Scan

variable {x : Scan} {cs ds : List Char}

/-- The number after some digits. -/
def withDigits (x : Scan) (ds : List Char) : Scan :=
  { x with
    mantissa := Nat.ofDigitChars 10 ds x.mantissa
    scale := if x.point then x.scale + ds.length else x.scale
    digits := x.digits || !ds.isEmpty }

theorem le_ofDigitChars (ds : List Char) (n : ℕ) : n ≤ Nat.ofDigitChars 10 ds n := by
  rw [Nat.ofDigitChars_eq_ofDigitChars_zero]
  exact Nat.le_trans (Nat.le_mul_of_pos_left n (Nat.pow_pos (by decide))) (Nat.le_add_right _ _)

/-- Digits that have room are all taken. -/
theorem read?_append (hds : ∀ c ∈ ds, c.isDigit)
    (hm : Nat.ofDigitChars 10 ds x.mantissa < coefficientBound)
    (hs : if x.point then x.scale + ds.length ≤ 28 else x.scale < 28) :
    x.read? (ds ++ cs) = (x.withDigits ds).read? cs := by
  induction ds generalizing x with
  | nil =>
    obtain ⟨mantissa, scale, point, digits⟩ := x
    simp [withDigits]
  | cons c ds ih =>
    obtain ⟨hc, hds⟩ := List.forall_mem_cons.mp hds
    rw [Nat.ofDigitChars_cons, Nat.mul_comm] at hm
    -- the digit has room, because the number has room after all digits
    have hroom : x.mantissa * 10 + (c.toNat - '0'.toNat) < coefficientBound ∧ x.scale < 28 := by
      refine ⟨Nat.lt_of_le_of_lt (le_ofDigitChars ds _) hm, ?_⟩
      split at hs
      · rw [List.length_cons] at hs
        omega
      · exact hs
    have hpush : x.push? (c.toNat - '0'.toNat) = some (x.withDigits [c]) := by
      rw [push?, if_pos hroom]
      simp [withDigits, Nat.ofDigitChars_cons, Nat.mul_comm 10]
    have hrest : (x.withDigits [c]).withDigits ds = x.withDigits (c :: ds) := by
      simp only [withDigits, Nat.ofDigitChars_cons, Nat.ofDigitChars_nil]
      cases x.point <;> simp [Nat.add_comm, Nat.add_left_comm]
    rw [List.cons_append, read?, digit?_of_isDigit hc]
    simp only [hpush]
    rw [ih hds, hrest]
    · simpa [withDigits, Nat.ofDigitChars_cons, Nat.mul_comm 10] using hm
    · cases hpoint : x.point <;> simp [withDigits, hpoint] at hs ⊢ <;> omega

end Scan

/-- The digits of a number that has `s` places: the integer part, then the places. -/
theorem numeral_eq (m s : ℕ) : ∃ whole places : List Char,
    numeral m s = whole ++ (if s = 0 then [] else '.' :: places) ∧
    (∀ c ∈ whole ++ places, c.isDigit) ∧ whole ≠ [] ∧ places.length = s ∧
    Nat.ofDigitChars 10 (whole ++ places) 0 = m := by
  have hlength := le_length_paddedDigits (s + 1) m
  refine ⟨(paddedDigits (s + 1) m).take ((paddedDigits (s + 1) m).length - s),
    (paddedDigits (s + 1) m).drop ((paddedDigits (s + 1) m).length - s), rfl, ?_, ?_, ?_, ?_⟩
  · rw [List.take_append_drop]
    exact fun c => isDigit_of_mem_paddedDigits
  · intro hnil
    have hzero := congrArg List.length hnil
    rw [List.length_take, List.length_nil] at hzero
    omega
  · rw [List.length_drop]
    omega
  · rw [List.take_append_drop, ofDigitChars_paddedDigits]

theorem ofUnsigned?_numeral (negative : Bool) (hm : m < coefficientBound) (hs : s ≤ 28) :
    ofUnsigned? negative (numeral m s) = ofParts? (negative && m != 0) m s := by
  obtain ⟨whole, places, heq, hdigits, hne, hplaces, hvalue⟩ := numeral_eq m s
  have hread : Scan.read? {} (numeral m s) = some ⟨m, s, decide (s ≠ 0), true⟩ := by
    rw [Nat.ofDigitChars_append] at hvalue
    have hle : Nat.ofDigitChars 10 whole 0 ≤ m := hvalue ▸ Scan.le_ofDigitChars places _
    have hwhole (cs : List Char) :
        Scan.read? {} (whole ++ cs) = (Scan.withDigits {} whole).read? cs :=
      Scan.read?_append (fun c hc => hdigits c (List.mem_append_left _ hc))
        (Nat.lt_of_le_of_lt hle hm) (show (0 : ℕ) < 28 by decide)
    rw [heq, hwhole]
    by_cases hzero : s = 0
    · -- there are no places, and no point
      rw [if_pos hzero, Scan.read?]
      rw [List.eq_nil_of_length_eq_zero (hplaces.trans hzero), Nat.ofDigitChars_nil] at hvalue
      simp [Scan.withDigits, hzero, hvalue, hne]
    · rw [if_neg hzero, Scan.read?]
      have hpoint : digit? '.' = none := rfl
      simp only [hpoint]
      have hrest : Scan.read? { Scan.withDigits {} whole with point := true } (places ++ []) =
          (Scan.withDigits { Scan.withDigits {} whole with point := true } places).read? [] :=
        Scan.read?_append (fun c hc => hdigits c (List.mem_append_right _ hc)) (hvalue ▸ hm)
          (by simpa [Scan.withDigits, hplaces] using hs)
      rw [List.append_nil] at hrest
      simp [Scan.withDigits, Scan.read?, hne, hplaces, hzero] at hrest ⊢
      simp [hrest, hvalue, hne]
  rw [ofUnsigned?, hread]
  rfl

/-! ## Whole texts -/

theorem mem_numeral {c : Char} (h : c ∈ numeral m s) : c.isDigit ∨ c = '.' := by
  obtain ⟨whole, places, heq, hdigits, -⟩ := numeral_eq m s
  rw [heq] at h
  rcases List.mem_append.mp h with h | h
  · exact .inl (hdigits c (List.mem_append_left _ h))
  · split at h
    · exact absurd h List.not_mem_nil
    · rcases List.mem_cons.mp h with rfl | h
      · exact .inr rfl
      · exact .inl (hdigits c (List.mem_append_right _ h))

/-- A number without a sign is read as one. -/
theorem ofPlain?_numeral (m s : ℕ) : ofPlain? (numeral m s) = ofUnsigned? false (numeral m s) := by
  obtain ⟨whole, places, heq, hdigits, hne, -⟩ := numeral_eq m s
  have hwhole : ∀ c ∈ whole, c.isDigit := fun c hc => hdigits c (List.mem_append_left _ hc)
  rw [heq, ofPlain?]
  · exact fun _ => digits_append_ne_cons hne hwhole rfl
  · exact fun _ => digits_append_ne_cons hne hwhole rfl

theorem ofPlain?_toChars (a : Decimal) : ofPlain? a.toChars = some a.plain := by
  have hsigned : ofPlain? a.toChars = ofUnsigned? a.negative (numeral a.mantissa a.scale) := by
    rw [toChars]
    cases a.negative with
    | true => rfl
    | false => exact ofPlain?_numeral _ _
  rw [hsigned, ofUnsigned?_numeral _ a.mantissa_lt a.scale_le]
  exact dif_pos ⟨a.mantissa_lt, a.scale_le⟩

/-- What is written is read back, apart from the sign of a zero. -/
theorem ofChars?_toChars (a : Decimal) : ofChars? a.toChars = some a.plain := by
  -- there is no exponent in the text
  have hplain : ∀ c ∈ a.toChars, (!isExponentMark c) = true := by
    intro c hc
    have hc : c = '-' ∨ c.isDigit ∨ c = '.' := by
      rcases List.mem_append.mp hc with hc | hc
      · split at hc
        · exact .inl (List.mem_singleton.mp hc)
        · exact absurd hc List.not_mem_nil
      · exact .inr (mem_numeral hc)
    have hmark (h : isExponentMark c) : c = 'e' ∨ c = 'E' := by
      simpa [isExponentMark] using h
    rw [Bool.not_eq_true', Bool.eq_false_iff]
    intro h
    rcases hmark h with rfl | rfl <;> exact absurd hc (by decide)
  rw [ofChars?, List.takeWhile_eq_self_iff.mpr hplain, List.dropWhile_eq_nil_iff.mpr hplain,
    ofPlain?_toChars]
  rfl

theorem ofText?_toText (a : Decimal) : ofText? a.toText = some a.plain := by
  rw [ofText?, toText, String.toList_ofList]
  exact ofChars?_toChars a

end Decimal

end SimBroker
