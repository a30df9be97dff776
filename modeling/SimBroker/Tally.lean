/-!
# Tallies

How often each of some things has happened.  What never happened has no entry.  `count` is the view
of a tally, and `count_bump` says that one more of a thing adds one to its count alone.
-/

namespace SimBroker

/-- Counts, each at least one, in the order of the first occurrences. -/
structure Tally (κ : Type) where
  counts : List (κ × Nat) := []

namespace Tally

variable {κ : Type}

instance : Inhabited (Tally κ) := ⟨{}⟩

variable [DecidableEq κ]

/-- The counts with one more of a thing. -/
def bumpEntry (k : κ) : List (κ × Nat) → List (κ × Nat)
  | [] => [(k, 1)]
  | e :: es => if e.1 = k then (k, e.2 + 1) :: es else e :: bumpEntry k es

/-- One more of a thing. -/
def bump (t : Tally κ) (k : κ) : Tally κ := ⟨bumpEntry k t.counts⟩

/-- How often a thing has happened. -/
def count (t : Tally κ) (k : κ) : Nat := ((t.counts.find? fun e => e.1 = k).map Prod.snd).getD 0

theorem find?_bumpEntry {k x : κ} {es : List (κ × Nat)} :
    (((bumpEntry k es).find? fun e => e.1 = x).map Prod.snd).getD 0 =
      ((es.find? fun e => e.1 = x).map Prod.snd).getD 0 + if k = x then 1 else 0 := by
  induction es with
  | nil => by_cases h : k = x <;> simp [bumpEntry, h]
  | cons e es ih =>
    by_cases hk : e.1 = k
    · by_cases hx : k = x <;> simp [bumpEntry, hk, hx]
    · by_cases hx : e.1 = x
      · subst hx
        simp [bumpEntry, hk, Ne.symm hk]
      · simpa [bumpEntry, hk, hx] using ih

/-- One more of a thing is counted, and nothing else. -/
theorem count_bump (t : Tally κ) (k x : κ) :
    (t.bump k).count x = t.count x + if k = x then 1 else 0 :=
  find?_bumpEntry

end Tally

end SimBroker
