import SimBroker.Text.Digit
import SimBroker.Proofs.Text.Blank
import Mathlib.Algebra.Group.Nat.Defs
import Mathlib.Data.List.Basic

/-!
# Reading digits back

A number that is written in digits is read back, with leading zeros or without, and in base 10 or
16.  Digits are not white space, so a reader that skips white space does not skip them.

## Main results

* `natOfDigits?_toDigits`: decimal digits are read back
* `ofDigitChars_paddedDigits`: leading zeros do not change a number
* `natOfHexDigits?_append`: a hexadecimal digit after others
* `isBlank_of_isDigit`: a digit is not white space
-/

namespace SimBroker

variable {c : Char} {cs : List Char} {n width : Nat}

/-! ## Decimal digits -/

theorem ne_of_isDigit {d : Char} (hc : c.isDigit) (hd : d.isDigit = false) : c ≠ d := by
  rintro rfl
  rw [hd] at hc
  exact nomatch hc

theorem digit?_of_isDigit (h : c.isDigit) : digit? c = some (c.toNat - '0'.toNat) := by
  simp only [Char.isDigit, Bool.and_eq_true, decide_eq_true_eq] at h
  exact if_pos h

theorem natOfDigits?_of_isDigit (hne : cs ≠ []) (h : ∀ c ∈ cs, c.isDigit) :
    natOfDigits? cs = some (Nat.ofDigitChars 10 cs 0) := by
  have hfold (cs : List Char) (h : ∀ c ∈ cs, c.isDigit) (n : Nat) :
      cs.foldlM (fun n c => (digit? c).map (n * 10 + ·)) n =
        some (Nat.ofDigitChars 10 cs n) := by
    induction cs generalizing n with
    | nil => rw [Nat.ofDigitChars_nil, List.foldlM_nil, Option.pure_def]
    | cons c cs ih =>
      obtain ⟨hc, hcs⟩ := List.forall_mem_cons.mp h
      rw [List.foldlM_cons, digit?_of_isDigit hc, Nat.ofDigitChars_cons, Nat.mul_comm 10 n]
      exact ih hcs _
  rw [natOfDigits?, if_neg (by simpa using hne)]
  exact hfold cs h 0

theorem isDigit_of_mem_toDigits (h : c ∈ Nat.toDigits 10 n) : c.isDigit :=
  Nat.isDigit_of_mem_toDigits (by decide) (by decide) h

theorem exists_toDigits_eq_cons (n : Nat) :
    ∃ c cs, Nat.toDigits 10 n = c :: cs ∧ c.isDigit ∧ ∀ c ∈ cs, c.isDigit := by
  obtain ⟨c, cs, hcs⟩ := List.exists_cons_of_ne_nil (Nat.toDigits_ne_nil (b := 10) (n := n))
  have hdigits : ∀ d ∈ c :: cs, d.isDigit := fun d hd =>
    isDigit_of_mem_toDigits (n := n) (by rwa [hcs])
  obtain ⟨hc, hdigits⟩ := List.forall_mem_cons.mp hdigits
  exact ⟨c, cs, hcs, hc, hdigits⟩

/-- A positive number is not written with a leading zero. -/
theorem head?_toDigits (hn : 0 < n) : (Nat.toDigits 10 n).head? ≠ some '0' := by
  induction n using Nat.strongRecOn with
  | _ n ih =>
    by_cases hsmall : n < 10
    · rw [Nat.toDigits_of_lt_base hsmall]
      have hdigit : ∀ n < 10, 0 < n → [Nat.digitChar n].head? ≠ some '0' := by decide
      exact hdigit n hsmall hn
    · rw [Nat.toDigits_of_base_le (by decide) (Nat.le_of_not_lt hsmall),
        List.head?_append_of_ne_nil _ Nat.toDigits_ne_nil]
      exact ih (n / 10) (by omega) (by omega)

theorem natOfDigits?_toDigits (n : Nat) : natOfDigits? (Nat.toDigits 10 n) = some n := by
  rw [natOfDigits?_of_isDigit Nat.toDigits_ne_nil fun c => isDigit_of_mem_toDigits,
    Nat.ofDigitChars_ten_toDigits]

/-- A text that begins with digits does not begin with another character. -/
theorem digits_append_ne_cons {ds rest : List Char} (hne : ds ≠ []) (hds : ∀ c ∈ ds, c.isDigit)
    (hc : c.isDigit = false) : ds ++ rest ≠ c :: cs := by
  cases ds with
  | nil => exact absurd rfl hne
  | cons d ds => exact fun h =>
    ne_of_isDigit (hds d List.mem_cons_self) hc (List.cons.inj h).1

/-! ## Leading zeros -/

theorem isDigit_of_mem_paddedDigits (h : c ∈ paddedDigits width n) : c.isDigit := by
  rcases List.mem_append.mp h with h | h
  · rw [List.eq_of_mem_replicate h]
    rfl
  · exact isDigit_of_mem_toDigits h

theorem paddedDigits_ne_nil : paddedDigits width n ≠ [] :=
  List.append_ne_nil_of_right_ne_nil _ Nat.toDigits_ne_nil

theorem ofDigitChars_paddedDigits (width n : Nat) :
    Nat.ofDigitChars 10 (paddedDigits width n) 0 = n := by
  rw [paddedDigits, Nat.ofDigitChars_append, Nat.ofDigitChars_replicate_zero, Nat.mul_zero,
    Nat.ofDigitChars_ten_toDigits]

theorem le_length_paddedDigits (width n : Nat) : width ≤ (paddedDigits width n).length := by
  rw [paddedDigits, List.length_append, List.length_replicate]
  omega

theorem length_paddedDigits (hwidth : 0 < width) (hn : n < 10 ^ width) :
    (paddedDigits width n).length = width := by
  have hle := (Nat.length_toDigits_le_iff (by decide) hwidth).mpr hn
  rw [paddedDigits, List.length_append, List.length_replicate]
  omega

/-! ## Hexadecimal digits -/

theorem hexDigit?_digitChar : ∀ {d : Nat}, d < 16 → hexDigit? (Nat.digitChar d) = some d := by
  decide

theorem natOfHexDigits?_append {d : Nat} (hne : cs ≠ []) (h : natOfHexDigits? cs = some n)
    (hd : d < 16) : natOfHexDigits? (cs ++ [Nat.digitChar d]) = some (n * 16 + d) := by
  rw [natOfHexDigits?, if_neg (by simpa using hne)] at h
  rw [natOfHexDigits?, if_neg (by simp), List.foldlM_append, h]
  simp [hexDigit?_digitChar hd]

theorem natOfHexDigits?_singleton {d : Nat} (hd : d < 16) :
    natOfHexDigits? [Nat.digitChar d] = some d := by
  simp [natOfHexDigits?, hexDigit?_digitChar hd]

/-! ## White space -/

theorem isBlank_of_isDigit (h : c.isDigit) : isBlank c = false := by
  simp only [Char.isDigit, Bool.and_eq_true, decide_eq_true_eq, UInt32.le_iff_toNat_le] at h
  have h : 48 ≤ c.toNat ∧ c.toNat ≤ 57 := h
  simp only [isBlank, Bool.or_eq_false_iff, Bool.and_eq_false_iff, decide_eq_false_iff_not,
    beq_eq_false_iff_ne]
  omega

end SimBroker
