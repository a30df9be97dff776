/-!
# The calendar

Days are counted from 1970-01-01, in the proleptic Gregorian calendar.  `ofDate` and `toDate`
convert between the count and year, month and day by eras of 400 years whose years begin in March,
so that the leap day is the last of its year.  `week` numbers the ISO weeks, Monday to Sunday.
-/

namespace SimBroker

/-- A date of the calendar. -/
structure Date where
  year : Int
  month : Nat
  day : Nat
  deriving DecidableEq

namespace Date

/-- Every fourth year is a leap year, except the centuries not divisible by 400. -/
def isLeapYear (year : Int) : Bool :=
  year % 4 == 0 && (year % 100 != 0 || year % 400 == 0)

/-- The number of days of a month. -/
def daysInMonth (year : Int) (month : Nat) : Nat :=
  if month = 2 then (if isLeapYear year then 29 else 28)
  else if month = 4 ∨ month = 6 ∨ month = 9 ∨ month = 11 then 30
  else 31

/-- Whether the month and the day exist. -/
def IsValid (x : Date) : Prop :=
  1 ≤ x.month ∧ x.month ≤ 12 ∧ 1 ≤ x.day ∧ x.day ≤ daysInMonth x.year x.month

instance (x : Date) : Decidable x.IsValid := by unfold IsValid; infer_instance

/-- The days from 1970-01-01 to the date. -/
def toDays (x : Date) : Int :=
  let year := if x.month ≤ 2 then x.year - 1 else x.year
  let era := year / 400
  let yearOfEra := year % 400
  let monthFromMarch : Int := if x.month ≤ 2 then x.month + 9 else x.month - 3
  let dayOfYear := (153 * monthFromMarch + 2) / 5 + x.day - 1
  let dayOfEra := yearOfEra * 365 + yearOfEra / 4 - yearOfEra / 100 + dayOfYear
  era * 146097 + dayOfEra - 719468

/-- The date so many days after 1970-01-01. -/
def ofDays (days : Int) : Date :=
  let z := days + 719468
  let era := z / 146097
  let dayOfEra := z % 146097
  let yearOfEra := (dayOfEra - dayOfEra / 1460 + dayOfEra / 36524 - dayOfEra / 146096) / 365
  let dayOfYear := dayOfEra - (365 * yearOfEra + yearOfEra / 4 - yearOfEra / 100)
  let monthFromMarch := (5 * dayOfYear + 2) / 153
  let day := dayOfYear - (153 * monthFromMarch + 2) / 5 + 1
  let month := if monthFromMarch < 10 then monthFromMarch + 3 else monthFromMarch - 9
  let year := yearOfEra + era * 400
  ⟨if month ≤ 2 then year + 1 else year, month.toNat, day.toNat⟩

/-- The number of the ISO week that holds a day; 1970-01-01 was a Thursday. -/
def weekOfDay (days : Int) : Int := (days + 3) / 7

end Date

end SimBroker
