import SimBroker.Instant.Calendar

/-!
# Dates and days

The date of a day exists, and the days to it are the day.  An era has 400 years, which begin in
March; a day of an era is in a year of it, and a day of a year in a month of it.

## Main definitions

* `Date.daysBefore`: the days of an era before a year of it
* `Date.Parts`: a day as an era, a year, a day of the year and a month

## Main results

* `Date.yearOfEra_spec`: the year of a day of an era
* `Date.isValid_ofDays`, `Date.toDays_ofDays`: the date of a day
* `Date.year_ofDays_bounds`: its year, within those of the calendar of instants
-/

namespace SimBroker

namespace Date

variable {days era year dayOfYear month : Int}

/-- The days of an era before a year of it. -/
def daysBefore (year : Int) : Int := 365 * year + year / 4 - year / 100

/-- A year has 365 days, unless its February has a leap day. -/
theorem daysBefore_succ_le (h : ¬ ((year + 1) % 4 = 0 ∧ (year + 1) % 100 ≠ 0)) :
    daysBefore (year + 1) ≤ daysBefore year + 365 := by
  unfold daysBefore
  have hcentury : year / 100 ≤ (year + 1) / 100 := by omega
  by_cases hleap : (year + 1) % 4 = 0
  · have : (year + 1) / 4 = year / 4 + 1 := by omega
    have : (year + 1) / 100 = year / 100 + 1 := by omega
    omega
  · have : (year + 1) / 4 = year / 4 := by omega
    omega

/-- A day of an era is in the year that its number divided by 365 gives, after the leap days of the
era have been taken out. -/
theorem yearOfEra_spec {n : Int} (h₀ : 0 ≤ n) (h₁ : n < 146097)
    (hyear : year = (n - n / 1460 + n / 36524 - n / 146096) / 365) :
    0 ≤ year ∧ daysBefore year ≤ n ∧ n ≤ daysBefore year + 365 ∧
      (year = 399 ∨ year < 399 ∧ n < daysBefore (year + 1)) := by
  unfold daysBefore
  by_cases hlast : n = 146096
  · -- the leap day that the era has for being one
    subst hlast
    subst hyear
    decide
  · have hera : n / 146096 = 0 := by omega
    rw [hera] at hyear
    -- the number of leap days and of centuries before the day
    generalize hq : n / 1460 = q at hyear
    generalize hc : n / 36524 = c at hyear
    have hcentury : 100 * c ≤ year ∧ year ≤ 100 * c + 99 := by omega
    have hyc : year / 100 = c := by omega
    have hleap : year / 4 ≤ q ∧ q ≤ year / 4 + 1 := by omega
    rw [hyc]
    refine ⟨by omega, by omega, by omega, ?_⟩
    by_cases hend : year = 100 * c + 99
    · have : (year + 1) / 100 = c + 1 := by omega
      have : (year + 1) / 4 = 25 * (c + 1) := by omega
      omega
    · have : (year + 1) / 100 = c := by omega
      have : q ≤ (year + 1) / 4 := by omega
      omega

/-- A day is in an era, a year of it, a day of the year and a month, all counted from March. -/
structure Parts (days era year dayOfYear month : Int) : Prop where
  days_eq : days + 719468 = era * 146097 + daysBefore year + dayOfYear
  year_nonneg : 0 ≤ year
  year_le : year ≤ 399
  dayOfYear_nonneg : 0 ≤ dayOfYear
  dayOfYear_le : dayOfYear ≤ 365
  /-- Only a year whose February has a leap day has so many days. -/
  leap : dayOfYear = 365 → year = 399 ∨ (year + 1) % 4 = 0 ∧ (year + 1) % 100 ≠ 0
  month_eq : month = (5 * dayOfYear + 2) / 153

/-- The date of a day, from its parts. -/
def ofParts (era year dayOfYear month : Int) : Date :=
  let day := dayOfYear - (153 * month + 2) / 5 + 1
  let number := if month < 10 then month + 3 else month - 9
  ⟨if number ≤ 2 then year + era * 400 + 1 else year + era * 400, number.toNat, day.toNat⟩

theorem exists_parts (days : Int) : ∃ era year dayOfYear month,
    Parts days era year dayOfYear month ∧ ofDays days = ofParts era year dayOfYear month := by
  have hn₀ : 0 ≤ (days + 719468) % 146097 := Int.emod_nonneg _ (by decide)
  have hn₁ : (days + 719468) % 146097 < 146097 := Int.emod_lt_of_pos _ (by decide)
  obtain ⟨hy₀, hle, hge, hlt⟩ := yearOfEra_spec hn₀ hn₁ rfl
  refine ⟨(days + 719468) / 146097, _, _, _, ⟨?_, hy₀, ?_, ?_, ?_, ?_, rfl⟩, rfl⟩
  all_goals
    generalize hn : (days + 719468) % 146097 = n at hy₀ hle hge hlt ⊢
    generalize (n - n / 1460 + n / 36524 - n / 146096) / 365 = year at hy₀ hle hge hlt ⊢
    have hdays : daysBefore year = 365 * year + year / 4 - year / 100 := rfl
  case refine_5 =>
    intro hlast
    refine hlt.imp_right fun ⟨_, hlt⟩ => ?_
    refine Decidable.byContradiction fun hleap => ?_
    have := daysBefore_succ_le hleap
    omega
  all_goals omega

namespace Parts

variable (h : Parts days era year dayOfYear month)
include h

theorem month_bounds : 0 ≤ month ∧ month ≤ 11 := by
  have := h.dayOfYear_nonneg
  have := h.dayOfYear_le
  have := h.month_eq
  omega

theorem isValid : (ofParts era year dayOfYear month).IsValid := by
  obtain ⟨hm₀, hm₁⟩ := h.month_bounds
  have hd₀ := h.dayOfYear_nonneg
  have hd₁ := h.dayOfYear_le
  have hleap := h.leap
  have hmonth := h.month_eq
  simp only [IsValid, ofParts, daysInMonth, isLeapYear, Bool.and_eq_true, Bool.or_eq_true,
    beq_iff_eq, bne_iff_ne]
  by_cases hfebruary : month = 11
  · subst hfebruary
    simp
    split <;> omega
  · -- every other month has its number of days in every year
    obtain rfl | rfl | rfl | rfl | rfl | rfl | rfl | rfl | rfl | rfl | rfl :
      month = 0 ∨ month = 1 ∨ month = 2 ∨ month = 3 ∨ month = 4 ∨ month = 5 ∨ month = 6 ∨
        month = 7 ∨ month = 8 ∨ month = 9 ∨ month = 10 := by omega
    all_goals
      simp
      omega

theorem toDays_ofParts : (ofParts era year dayOfYear month).toDays = days := by
  obtain ⟨hm₀, hm₁⟩ := h.month_bounds
  have hy₀ := h.year_nonneg
  have hy₁ := h.year_le
  have hd₀ := h.dayOfYear_nonneg
  have hdays := h.days_eq
  have hmonth := h.month_eq
  unfold daysBefore at hdays
  have hera : (year + era * 400) / 400 = era := by omega
  have hyear : (year + era * 400) % 400 = year := by omega
  have hday : 0 ≤ dayOfYear - (153 * month + 2) / 5 + 1 := by omega
  have hnumber : 0 ≤ if month < 10 then month + 3 else month - 9 := by split <;> omega
  simp only [toDays, ofParts, Int.toNat_of_nonneg hday, Int.toNat_of_nonneg hnumber]
  by_cases hlate : month < 10
  · have hnumber : ¬ month + 3 ≤ 2 := by omega
    have hmarch : ¬ (month + 3).toNat ≤ 2 := by omega
    simp only [if_pos hlate, if_neg hnumber, if_neg hmarch, hera, hyear]
    omega
  · have hnumber : month - 9 ≤ 2 := by omega
    have hmarch : (month - 9).toNat ≤ 2 := by omega
    simp only [if_neg hlate, if_pos hnumber, if_pos hmarch, Int.add_sub_cancel, hera, hyear]
    omega

end Parts

/-- The month and the day have two digits. -/
theorem IsValid.lt_hundred {x : Date} (h : x.IsValid) : x.month < 100 ∧ x.day < 100 := by
  obtain ⟨-, hmonth, -, hday⟩ := h
  unfold daysInMonth at hday
  constructor
  · omega
  · split at hday <;> split at hday <;> omega

/-- The date of a day exists. -/
theorem isValid_ofDays (days : Int) : (ofDays days).IsValid := by
  obtain ⟨era, year, dayOfYear, month, hparts, heq⟩ := exists_parts days
  rw [heq]
  exact hparts.isValid

/-- The days to the date of a day are the day. -/
theorem toDays_ofDays (days : Int) : (ofDays days).toDays = days := by
  obtain ⟨era, year, dayOfYear, month, hparts, heq⟩ := exists_parts days
  rw [heq]
  exact hparts.toDays_ofParts

/-- The first and the last day of the calendar of instants are in its first and its last year. -/
theorem year_ofDays_bounds (hfirst : -96465292 ≤ days) (hlast : days ≤ 95026236) :
    -262143 ≤ (ofDays days).year ∧ (ofDays days).year ≤ 262142 := by
  obtain ⟨era, year, dayOfYear, month, hparts, heq⟩ := exists_parts days
  rw [heq]
  have hy₀ := hparts.year_nonneg
  have hy₁ := hparts.year_le
  have hd₀ := hparts.dayOfYear_nonneg
  have hd₁ := hparts.dayOfYear_le
  have hdays := hparts.days_eq
  have hmonth := hparts.month_eq
  unfold daysBefore at hdays
  have hera : -656 ≤ era ∧ era ≤ 655 := by omega
  simp only [ofParts]
  split
  · split <;> omega
  · split <;> omega

end Date

end SimBroker
