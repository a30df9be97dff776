import Mathlib.Data.List.Pairwise
import SimBroker.Instant.Clock
import SimBroker.Proofs.Instant.Week

/-!
# Readings of a clock

What is carried out in steps takes its readings one after another, so the readings of two steps
together are those of the first and then those that the clock has left for the second.  Things that
are done one after another have clocks in order: no clock goes back, and none begins before the
clocks before it have ended.

## Main definitions

* `Clock.upTo`: the first readings of a clock
* `Clock.Forward`, `Clock.InOrder`: a clock that does not go back, and clocks one after another
* `Clock.WithinDay`: a clock that does not pass midnight

## Main results

* `Clock.upTo_add`: the readings of two steps
* `Clock.InOrder.pairwise_upTo`: the readings of clocks in order
* `Clock.inOrder_still`: clocks that stand still are in order if their times are
-/

namespace SimBroker

namespace Clock

variable {clock : Clock} {m n : ℕ} {t : Instant} {clocks : List Clock}

/-! ## Readings -/

theorem after_zero (clock : Clock) : clock.after 0 = clock := rfl

theorem after_after (clock : Clock) (m n : ℕ) : (clock.after m).after n = clock.after (m + n) := by
  unfold after
  congr 1
  funext i
  show clock (i + n + m) = clock (i + (m + n))
  rw [Nat.add_assoc, Nat.add_comm n]

/-- The first `n` readings. -/
def upTo (clock : Clock) (n : ℕ) : List Instant := (List.range n).map clock

theorem mem_upTo : t ∈ clock.upTo n ↔ ∃ i < n, clock i = t := by
  simp only [upTo, List.mem_map, List.mem_range]

/-- The readings of two steps are those of the first, and then those of the second. -/
theorem upTo_add (clock : Clock) (m n : ℕ) :
    clock.upTo (m + n) = clock.upTo m ++ (clock.after m).upTo n := by
  rw [upTo, List.range_add, List.map_append, List.map_map]
  congr 1
  apply List.map_congr_left
  intro i _
  exact congrArg clock (Nat.add_comm m i)

theorem upTo_succ (clock : Clock) (n : ℕ) : clock.upTo (n + 1) = clock.upTo n ++ [clock n] := by
  rw [upTo, List.range_succ, List.map_append]
  rfl

theorem upTo_sublist (clock : Clock) (h : m ≤ n) : (clock.upTo m).Sublist (clock.upTo n) := by
  obtain ⟨k, rfl⟩ := Nat.exists_eq_add_of_le h
  rw [upTo_add]
  exact List.sublist_append_left _ _

/-! ## Clocks that do not go back -/

/-- The clock does not go back. -/
def Forward (clock : Clock) : Prop := ∀ i j, i ≤ j → clock i ≤ clock j

theorem Forward.pairwise_upTo (h : clock.Forward) (n : ℕ) :
    (clock.upTo n).Pairwise (· ≤ ·) := by
  refine List.pairwise_map.mpr (List.pairwise_lt_range.imp ?_)
  intro i j hij
  exact h i j (Nat.le_of_lt hij)

/-- Clocks of what is done one after another: none of them goes back, and what a clock shows is not
before anything that the clocks before it have shown. -/
def InOrder (clocks : List Clock) : Prop :=
  (∀ clock ∈ clocks, clock.Forward) ∧ clocks.Pairwise fun a b => ∀ i j, a i ≤ b j

/-- The readings of clocks in order, one clock after another, are in order. -/
theorem InOrder.pairwise_upTo (h : InOrder clocks) (n : ℕ) :
    (clocks.flatMap (·.upTo n)).Pairwise (· ≤ ·) := by
  obtain ⟨hforward, hbefore⟩ := h
  rw [List.pairwise_flatMap]
  refine ⟨fun clock hclock => (hforward clock hclock).pairwise_upTo n, hbefore.imp ?_⟩
  intro a b hab s hs t ht
  obtain ⟨i, -, rfl⟩ := mem_upTo.mp hs
  obtain ⟨j, -, rfl⟩ := mem_upTo.mp ht
  exact hab i j

/-- Clocks that stand still are in order if their times are. -/
theorem inOrder_still {times : List Instant} (h : times.Pairwise (· ≤ ·)) :
    InOrder (times.map still) := by
  constructor
  · intro clock hclock i j _
    obtain ⟨t, -, rfl⟩ := List.mem_map.mp hclock
    exact .inr ⟨rfl, Nat.le_refl _⟩
  · exact List.pairwise_map.mpr (h.imp fun hle _ _ => hle)

/-- The clock does not pass midnight. -/
def WithinDay (clock : Clock) : Prop := ∀ i, (clock i).day = (clock 0).day

theorem withinDay_still (t : Instant) : (still t).WithinDay := fun _ => rfl

end Clock

end SimBroker
