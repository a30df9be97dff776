import SimBroker.Instant.Basic

/-!
# Clocks

What is carried out may look at the clock more than once, and the clock may go on between two looks.
So the time of a call is a sequence of readings, of which each step takes its own; those that no
step takes are passed over.  `Clock.still` is the clock of which all readings are equal.
-/

namespace SimBroker

/-- What a clock shows while something is carried out, one reading after another. -/
structure Clock where
  reading : Nat → Instant

namespace Clock

instance : CoeFun Clock fun _ => Nat → Instant := ⟨reading⟩

/-- What the clock shows after its first `n` readings. -/
def after (clock : Clock) (n : Nat) : Clock := ⟨fun i => clock (i + n)⟩

/-- A clock that stands still. -/
def still (now : Instant) : Clock := ⟨fun _ => now⟩

instance : Inhabited Clock := ⟨still default⟩

end Clock

end SimBroker
