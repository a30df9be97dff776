import SimBroker.Instant.Text
import SimBroker.Proofs.Instant.Calendar
import SimBroker.Proofs.Text.Digit
import Mathlib.Data.List.TakeWhile

/-!
# Reading instants back

An instant that is written is read back, in every year of the calendar, to the nanosecond, and also
in a leap second.  Every number is written with as many digits as are read.

## Main results

* `Instant.digits?_append`: digits at the front of a text
* `Instant.year?_yearChars`, `Instant.fraction?_fractionChars`: the first and the last number
* `Instant.ofChars?_toChars`, `Instant.ofText?_toText`: what is written is read back
-/

namespace SimBroker

namespace Instant

variable {ds rest : List Char} {width n : Nat}

/-! ## Numbers and marks -/

/-- The digits at the front, of as many characters as are looked at. -/
theorem takeWhile_take_append (hds : ∀ c ∈ ds, c.isDigit) (hlength : ds.length ≤ width)
    (hrest : ds.length = width ∨ ∀ c ∈ rest.head?, c.isDigit = false) :
    ((ds ++ rest).take width).takeWhile Char.isDigit = ds := by
  rw [List.take_append, List.take_of_length_le hlength, List.takeWhile_append_of_pos hds]
  -- either no other character is looked at, or the next one is no digit
  have hnone : (rest.take (width - ds.length)).takeWhile Char.isDigit = [] := by
    rcases hrest with hlength | hrest
    · rw [hlength, Nat.sub_self, List.take_zero, List.takeWhile_nil]
    · cases rest with
      | nil => rw [List.take_nil, List.takeWhile_nil]
      | cons c rest =>
        have hc : c.isDigit = false := hrest c rfl
        cases width - ds.length with
        | zero => rfl
        | succ k => rw [List.take_succ_cons, List.takeWhile_cons_of_neg (by simp [hc])]
  rw [hnone, List.append_nil]

theorem digits?_append (hne : ds ≠ []) (hds : ∀ c ∈ ds, c.isDigit) (hlength : ds.length ≤ width)
    (hrest : ds.length = width ∨ ∀ c ∈ rest.head?, c.isDigit = false) :
    digits? width (ds ++ rest) = some (Nat.ofDigitChars 10 ds 0, rest) := by
  rw [digits?, takeWhile_take_append hds hlength hrest, natOfDigits?_of_isDigit hne hds,
    List.drop_left]
  rfl

theorem digits?_padded (hwidth : 0 < width) (hn : n < 10 ^ width) :
    digits? width (paddedDigits width n ++ rest) = some (n, rest) := by
  have hlength := length_paddedDigits hwidth hn
  rw [digits?_append paddedDigits_ne_nil (fun c => isDigit_of_mem_paddedDigits) hlength.le
    (.inl hlength), ofDigitChars_paddedDigits]

theorem skipBlank_digits (hne : ds ≠ []) (hds : ∀ c ∈ ds, c.isDigit) :
    skipBlank (ds ++ rest) = ds ++ rest := by
  cases ds with
  | nil => exact absurd rfl hne
  | cons c ds => exact skipBlank_cons (isBlank_of_isDigit (hds c List.mem_cons_self))

/-- Two digits. -/
theorem number?_padded (hn : n < 100) : number? 2 (paddedDigits 2 n ++ rest) = some (n, rest) := by
  rw [number?, skipBlank_digits paddedDigits_ne_nil fun c => isDigit_of_mem_paddedDigits]
  exact digits?_padded (by decide) hn

theorem mark?_cons {c : Char} (hc : isBlank c = false) : mark? c (c :: rest) = some rest := by
  rw [mark?, skipBlank_cons hc]
  exact if_pos rfl

/-! ## Years -/

/-- Digits are read up to a character that is none. -/
theorem digits?_all (n : Nat) {c : Char} (hc : c.isDigit = false) :
    digits? (paddedDigits 4 n ++ c :: rest).length (paddedDigits 4 n ++ c :: rest) =
      some (n, c :: rest) := by
  rw [digits?_append paddedDigits_ne_nil (fun c => isDigit_of_mem_paddedDigits)
    (by rw [List.length_append]; exact Nat.le_add_right _ _) (.inr fun d hd => ?_),
    ofDigitChars_paddedDigits]
  cases hd
  exact hc

theorem year?_yearChars (year : Int) {c : Char} (hc : c.isDigit = false) :
    year? (yearChars year ++ c :: rest) = some (year, c :: rest) := by
  rw [yearChars]
  split
  · next hyear =>
    -- a year without a sign begins with a digit
    have hlt : year.toNat < 10 ^ 4 := by omega
    have hskip : skipBlank (paddedDigits 4 year.toNat ++ c :: rest) =
        paddedDigits 4 year.toNat ++ c :: rest :=
      skipBlank_digits paddedDigits_ne_nil fun c => isDigit_of_mem_paddedDigits
    have hread : digits? 4 (paddedDigits 4 year.toNat ++ c :: rest) =
        some (year.toNat, c :: rest) := digits?_padded (by decide) hlt
    rw [year?, hskip]
    split
    · next h => exact absurd h (digits_append_ne_cons paddedDigits_ne_nil
        (fun c => isDigit_of_mem_paddedDigits) rfl)
    · next h => exact absurd h (digits_append_ne_cons paddedDigits_ne_nil
        (fun c => isDigit_of_mem_paddedDigits) rfl)
    · simp [hread, Int.toNat_of_nonneg hyear.1]
  · next hyear =>
    rw [List.cons_append]
    split
    · next hneg =>
      rw [year?, skipBlank_cons rfl]
      simp only [digits?_all _ hc, Option.map_some]
      rw [Int.ofNat_natAbs_of_nonpos (Int.le_of_lt hneg), Int.neg_neg]
    · next hneg =>
      rw [year?, skipBlank_cons rfl]
      simp only [digits?_all _ hc, Option.map_some]
      rw [Int.natAbs_of_nonneg (Int.not_lt.mp hneg)]

/-! ## Fractions -/

theorem fraction?_digits {k : Nat} (hk : ds.length = k) (hpos : 0 < k) (hle : k ≤ 9)
    (hds : ∀ c ∈ ds, c.isDigit) {c : Char} (hc : c.isDigit = false) :
    fraction? ('.' :: ds ++ c :: rest) =
      some (Nat.ofDigitChars 10 ds 0 * tenPow (9 - k), c :: rest) := by
  have hne : ds ≠ [] := List.ne_nil_of_length_pos (hk ▸ hpos)
  have htake : ((ds ++ c :: rest).take 9).takeWhile Char.isDigit = ds :=
    takeWhile_take_append hds (hk ▸ hle) (.inr fun d hd => by cases hd; exact hc)
  rw [List.cons_append, fraction?, htake, natOfDigits?_of_isDigit hne hds, List.drop_left, hk,
    List.dropWhile_cons_of_neg (by simp [hc])]
  rfl

theorem fraction?_fractionChars (hn : n < nanosPerSecond) {c : Char} (hc : c.isDigit = false)
    (hpoint : c ≠ '.') : fraction? (fractionChars n ++ c :: rest) = some (n, c :: rest) := by
  have hn : n < 1000000000 := hn
  have hpadded {width k : Nat} (hwidth : 0 < width) (hle : width ≤ 9) (hk : k < 10 ^ width) :
      fraction? ('.' :: paddedDigits width k ++ c :: rest) =
        some (k * tenPow (9 - width), c :: rest) := by
    rw [fraction?_digits (length_paddedDigits hwidth hk) hwidth hle
      (fun c => isDigit_of_mem_paddedDigits) hc, ofDigitChars_paddedDigits]
  rw [fractionChars]
  split
  · next hzero =>
    rw [List.nil_append, fraction?, hzero]
    exact fun cs h => hpoint (List.cons.inj h).1
  · split
    · next hmillis =>
      rw [hpadded (by decide) (by decide) (by omega)]
      simp
      omega
    · split
      · next hmicros =>
        rw [hpadded (by decide) (by decide) (by omega)]
        simp
        omega
      · rw [hpadded (by decide) (by decide) hn]
        simp

/-! ## Whole texts -/

/-- The date of an instant, and its year. -/
theorem year_bounds (t : Instant) :
    -262143 ≤ (Date.ofDays t.day).year ∧ (Date.ofDays t.day).year ≤ 262142 := by
  obtain ⟨hfirst, hlast, -⟩ := t.valid
  unfold firstSecond at hfirst
  unfold lastSecond at hlast
  refine Date.year_ofDays_bounds ?_ ?_ <;> rw [day, secondsPerDay] <;> omega

/-- The second of the day, and the leap second that its minute may end with. -/
theorem exists_second (t : Instant) : ∃ second leap : ℕ,
    (t.seconds % secondsPerDay = second ∧ t.nanos / nanosPerSecond = leap) ∧
    t.seconds = t.day * secondsPerDay + second ∧ second < 86400 ∧
    (leap = 0 ∨ leap = 1 ∧ second % 60 = 59) ∧
    t.nanos % nanosPerSecond + leap * nanosPerSecond = t.nanos := by
  obtain ⟨-, -, hnanos⟩ := t.valid
  have hsecondsPerDay : secondsPerDay = 86400 := rfl
  have hnanosPerSecond : nanosPerSecond = 1000000000 := rfl
  rw [hnanosPerSecond] at hnanos
  obtain ⟨second, hsecond⟩ := Int.eq_ofNat_of_zero_le
    (Int.emod_nonneg t.seconds (show secondsPerDay ≠ 0 by decide))
  refine ⟨second, _, ⟨hsecond, rfl⟩, ?_, ?_, ?_, Nat.mod_add_div' _ _⟩
  · rw [day, ← hsecond, Int.ediv_mul_add_emod]
  · rw [hsecondsPerDay] at hsecond
    omega
  · rw [hsecondsPerDay] at hsecond
    rw [hnanosPerSecond]
    omega

/-- What is written is read back. -/
theorem ofChars?_toChars (t : Instant) : ofChars? t.toChars = some t := by
  obtain ⟨second, leap, ⟨hsecond, hleap⟩, hseconds, hday, hminuteEnd, hnanos⟩ := t.exists_second
  have hvalid := Date.isValid_ofDays t.day
  have hdays := Date.toDays_ofDays t.day
  have hhour : second / 3600 < 24 := by omega
  have hminute : second / 60 % 60 < 60 := by omega
  have hminuteLast : second % 60 + leap ≤ 60 ∧ (second % 60 + leap) / 60 = leap := by omega
  have hsecondOfMinute : second % 60 + leap < 100 := by omega
  have hfraction : fraction? (fractionChars (t.nanos % nanosPerSecond) ++ ['Z']) =
      some (t.nanos % nanosPerSecond, ['Z']) :=
    fraction?_fractionChars (Nat.mod_lt _ (by decide)) rfl (by decide)
  have hparts : ofParts? ((Date.ofDays t.day).toDays * secondsPerDay + ↑(second / 3600) * 3600 +
      ↑(second / 60 % 60) * 60 + (↑(second % 60 + leap) - ↑leap) - 0)
        (t.nanos % nanosPerSecond + leap * nanosPerSecond) = some t := by
    have hsum : t.day * secondsPerDay + ↑(second / 3600) * 3600 + ↑(second / 60 % 60) * 60 +
        (↑(second % 60 + leap) - ↑leap) - 0 = t.seconds := by omega
    rw [hdays, hsum, hnanos]
    exact dif_pos t.valid
  simp only [toChars, hsecond, hleap, Int.toNat_natCast, List.append_assoc, List.cons_append]
  -- the text is read part by part
  refine Option.bind_eq_some_iff.mpr ⟨_, year?_yearChars _ rfl, ?_⟩
  refine Option.bind_eq_some_iff.mpr ⟨_, mark?_cons rfl, ?_⟩
  refine Option.bind_eq_some_iff.mpr ⟨_, number?_padded hvalid.lt_hundred.1, ?_⟩
  refine Option.bind_eq_some_iff.mpr ⟨_, mark?_cons rfl, ?_⟩
  refine Option.bind_eq_some_iff.mpr ⟨_, number?_padded hvalid.lt_hundred.2, ?_⟩
  refine Option.bind_eq_some_iff.mpr ⟨_, number?_padded (Nat.lt_trans hhour (by decide)), ?_⟩
  refine Option.bind_eq_some_iff.mpr ⟨_, mark?_cons rfl, ?_⟩
  refine Option.bind_eq_some_iff.mpr ⟨_, number?_padded (Nat.lt_trans hminute (by decide)), ?_⟩
  refine Option.bind_eq_some_iff.mpr ⟨_, mark?_cons rfl, ?_⟩
  refine Option.bind_eq_some_iff.mpr ⟨_, number?_padded hsecondOfMinute, ?_⟩
  refine Option.bind_eq_some_iff.mpr ⟨_, hfraction, ?_⟩
  refine Option.bind_eq_some_iff.mpr ⟨_, rfl, ?_⟩
  -- and the parts make up the instant
  refine (if_pos ⟨hvalid, hhour, hminute, hminuteLast.1, rfl, year_bounds t⟩).trans ?_
  rw [hminuteLast.2]
  exact hparts

theorem ofText?_toText (t : Instant) : ofText? t.toText = some t := by
  rw [ofText?, toText, String.toList_ofList]
  exact ofChars?_toChars t

end Instant

end SimBroker
