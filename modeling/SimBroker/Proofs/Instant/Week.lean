import SimBroker.Instant.Basic
import SimBroker.Proofs.Instant.Calendar

/-!
# ISO weeks

An ISO week has a year and a number in it: it belongs to the year that its Thursday is in, and the
first week of a year is the one with the first Thursday.  The library counts weeks through all
years.  The two ways tell the same weeks apart, also around the end of a year, where a week may
belong to the year before or after the year of its days.

## Main definitions

* `Date.isoWeek`: the year of the ISO week of a day, and its number in that year
* `Instant.date`, `Instant.isoWeek`: the date and the ISO week of an instant

## Main results

* `Date.isoWeek_eq_iff`: days are in one ISO week if the count of weeks is the same
* `Instant.date_eq_iff`, `Instant.isoWeek_eq_iff`: the same for instants
* `Instant.day_le_day`, `Instant.week_le_week`: days and weeks go forward with the clock
-/

namespace SimBroker

namespace Date

/-- The Thursday of the week of a day; 1970-01-01 was one. -/
def thursday (days : Int) : Int := 7 * weekOfDay days

/-- The year of the ISO week of a day, and its number in that year. -/
def isoWeek (days : Int) : Int × Int :=
  let year := (ofDays (thursday days)).year
  (year, (thursday days - toDays ⟨year, 1, 1⟩) / 7 + 1)

/-- Days are in one ISO week if the count of weeks through all years is the same. -/
theorem isoWeek_eq_iff {a b : Int} : isoWeek a = isoWeek b ↔ weekOfDay a = weekOfDay b := by
  constructor
  · intro h
    obtain ⟨hyear, hnumber⟩ := Prod.mk.inj h
    rw [hyear] at hnumber
    -- both Thursdays are counted from the same first of January, in steps of seven days
    generalize toDays ⟨(ofDays (thursday b)).year, 1, 1⟩ = january at hnumber
    unfold thursday at hnumber
    omega
  · intro h
    unfold isoWeek thursday
    rw [h]

/-- The first days of 2021 are in the last week of 2020, and the last ones of 2024 in the first of
2025. -/
example : isoWeek (toDays ⟨2021, 1, 3⟩) = (2020, 53) ∧
    isoWeek (toDays ⟨2024, 12, 30⟩) = (2025, 1) := by
  decide

end Date

namespace Instant

variable {a b : Instant}

/-- The date of an instant, in UTC. -/
def date (t : Instant) : Date := Date.ofDays t.day

/-- The ISO week of an instant, in UTC. -/
def isoWeek (t : Instant) : Int × Int := Date.isoWeek t.day

theorem date_eq_iff : a.date = b.date ↔ a.day = b.day := by
  constructor
  · intro h
    rw [← Date.toDays_ofDays a.day, ← Date.toDays_ofDays b.day]
    exact congrArg Date.toDays h
  · exact congrArg Date.ofDays

theorem isoWeek_eq_iff : a.isoWeek = b.isoWeek ↔ a.week = b.week := Date.isoWeek_eq_iff

/-! ## A clock that does not go back -/

theorem day_le_day (h : a ≤ b) : a.day ≤ b.day := by
  have hseconds : a.seconds ≤ b.seconds := by
    rcases h with h | ⟨h, -⟩
    · exact Int.le_of_lt h
    · exact Int.le_of_eq h
  exact Int.ediv_le_ediv (by decide) hseconds

theorem week_le_week (h : a ≤ b) : a.week ≤ b.week :=
  Int.ediv_le_ediv (by decide) (Int.add_le_add_right (day_le_day h) 3)

end Instant

end SimBroker
