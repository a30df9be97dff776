import SimBroker.Instant.Calendar

/-!
# Instants

A point of time is a number of seconds from 1970-01-01T00:00:00Z and nanoseconds into the second.
A leap second is written as the second 60: it is the second 59 with nanoseconds from `10 ^ 9` on,
so the order of instants is the order of the pairs.  Years run from -262143 to 262142.
-/

namespace SimBroker

/-- The nanoseconds of a second. -/
def nanosPerSecond : Nat := 1000000000

/-- The seconds of a day. -/
def secondsPerDay : Int := 86400

namespace Instant

/-- The first second of the year -262143. -/
def firstSecond : Int := -8334601228800

/-- The last second of the year 262142. -/
def lastSecond : Int := 8210266876799

/-- Within the years of the calendar, with nanoseconds of one second, or of two in the last second
of a minute. -/
def Valid (seconds : Int) (nanos : Nat) : Prop :=
  firstSecond ≤ seconds ∧ seconds ≤ lastSecond ∧
    (nanos < nanosPerSecond ∨ (nanos < 2 * nanosPerSecond ∧ seconds % 60 = 59))

instance (seconds : Int) (nanos : Nat) : Decidable (Valid seconds nanos) := by
  unfold Valid; infer_instance

end Instant

/-- A point of time, in UTC. -/
structure Instant where
  seconds : Int
  nanos : Nat
  valid : Instant.Valid seconds nanos
  deriving DecidableEq

namespace Instant

/-- The instant of these parts, if there is one. -/
def ofParts? (seconds : Int) (nanos : Nat) : Option Instant :=
  if h : Valid seconds nanos then some ⟨seconds, nanos, h⟩ else none

/-- 1970-01-01T00:00:00Z. -/
def epoch : Instant := ⟨0, 0, by decide⟩

instance : Inhabited Instant := ⟨epoch⟩

instance : LT Instant :=
  ⟨fun a b => a.seconds < b.seconds ∨ (a.seconds = b.seconds ∧ a.nanos < b.nanos)⟩
instance : LE Instant :=
  ⟨fun a b => a.seconds < b.seconds ∨ (a.seconds = b.seconds ∧ a.nanos ≤ b.nanos)⟩

instance (a b : Instant) : Decidable (a < b) :=
  inferInstanceAs (Decidable (a.seconds < b.seconds ∨ (a.seconds = b.seconds ∧ a.nanos < b.nanos)))
instance (a b : Instant) : Decidable (a ≤ b) :=
  inferInstanceAs (Decidable (a.seconds < b.seconds ∨ (a.seconds = b.seconds ∧ a.nanos ≤ b.nanos)))

/-- The day of an instant, counted from 1970-01-01. -/
def day (t : Instant) : Int := t.seconds / secondsPerDay

/-- The number of the ISO week of an instant. -/
def week (t : Instant) : Int := Date.weekOfDay t.day

/-- So many seconds later; a leap second is left behind by any whole second.  None beyond the last
year. -/
def addSeconds? (t : Instant) (n : Nat) : Option Instant :=
  if n = 0 then some t
  else
    ofParts? (t.seconds + n)
      (if t.nanos < nanosPerSecond then t.nanos else t.nanos - nanosPerSecond)

theorem clamp_valid {seconds : Int} {nanos : Nat} (h : Valid seconds nanos) :
    Valid seconds (min nanos (nanosPerSecond - 1)) := by
  obtain ⟨first, last, _⟩ := h
  exact ⟨first, last, .inl (Nat.lt_of_le_of_lt (Nat.min_le_right _ _) (by decide))⟩

/-- The instant itself, or the last one before it that is not in a leap second: what a clock without
leap seconds shows. -/
def withoutLeap (t : Instant) : Instant :=
  ⟨t.seconds, min t.nanos (nanosPerSecond - 1), clamp_valid t.valid⟩

end Instant

end SimBroker
