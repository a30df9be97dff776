import SimBroker.Table
import Mathlib.Algebra.BigOperators.Group.List.Basic
import Mathlib.Algebra.Order.Field.Rat
import Mathlib.Data.List.Nodup
import Mathlib.Tactic.Linarith

/-!
# Sums over a table

A sum over the values of a table does not depend on the order of the keys, so it is determined by
what the keys look up; `sum_values_eq` says what one key contributes.

## Main results

* `size_le`, `size_le_add`: the number of keys, where none is new, or only one
* `values_perm`: tables that look up the same have the same values, in some order
* `sum_values_eq`: a sum over the values, without one key and with it
-/

namespace SimBroker

namespace Table

variable {κ α β : Type}

theorem nodup_entries (t : Table κ α) : t.entries.Nodup := List.Nodup.of_map Prod.fst t.nodup

variable [DecidableEq κ] {t t' : Table κ α} {k : κ}

theorem mem_values_iff {a : α} : a ∈ t.values ↔ ∃ k, t.get? k = some a := by
  simp only [get?_eq_some_iff, values, List.mem_map, Prod.exists, exists_eq_right]

theorem mem_keys_iff : k ∈ t.keys ↔ (t.get? k).isSome := by
  simp only [keys, List.mem_map, Prod.exists, exists_and_right, exists_eq_right,
    Option.isSome_iff_exists, get?_eq_some_iff]

/-- The keys do not repeat, so there are no more of them than where they are found. -/
theorem size_le_length {ks : List κ} (h : ∀ x, (t.get? x).isSome → x ∈ ks) :
    t.size ≤ ks.length := by
  rw [size, ← List.length_map Prod.fst]
  exact (List.subperm_of_subset t.nodup fun x hx => h x (mem_keys_iff.mp hx)).length_le

theorem size_le (h : ∀ x, (t'.get? x).isSome → (t.get? x).isSome) : t'.size ≤ t.size :=
  (size_le_length fun x hx => mem_keys_iff.mpr (h x hx)).trans_eq (List.length_map _)

/-- Where one key may be new, the size is that of before, and one more if it was not there. -/
theorem size_le_add (h : ∀ x, (t'.get? x).isSome → x = k ∨ (t.get? x).isSome) :
    t'.size ≤ t.size + if (t.get? k).isSome then 0 else 1 := by
  split
  · next hk => exact size_le fun x hx => (h x hx).elim (fun heq => heq ▸ hk) id
  · have hkeys : ∀ x, (t'.get? x).isSome → x ∈ k :: t.keys := fun x hx =>
      List.mem_cons.mpr ((h x hx).imp_right mem_keys_iff.mpr)
    exact (size_le_length hkeys).trans_eq (congrArg Nat.succ (List.length_map _))

/-- Looking at values only through `f`, tables that look up the same have the same values. -/
theorem values_perm {f : α → β} (h : ∀ k, (t'.get? k).map f = (t.get? k).map f) :
    (t'.values.map f).Perm (t.values.map f) := by
  -- compared with their keys, which do not repeat, the entries are the same set
  have hnodup (t : Table κ α) : (t.entries.map fun e => (e.1, f e.2)).Nodup := by
    have hkeys : (t.entries.map fun e => (e.1, f e.2)).map Prod.fst = t.entries.map Prod.fst := by
      rw [List.map_map]
      rfl
    exact List.Nodup.of_map Prod.fst (hkeys ▸ t.nodup)
  have hmem (t : Table κ α) (k : κ) (b : β) :
      (k, b) ∈ (t.entries.map fun e => (e.1, f e.2)) ↔ (t.get? k).map f = some b := by
    rw [Option.map_eq_some_iff, List.mem_map]
    constructor
    · rintro ⟨⟨x, a⟩, ha, heq⟩
      obtain ⟨rfl, rfl⟩ := Prod.mk.inj heq
      exact ⟨a, get?_eq_some_iff.mpr ha, rfl⟩
    · rintro ⟨a, ha, rfl⟩
      exact ⟨(k, a), get?_eq_some_iff.mp ha, rfl⟩
  have hperm : (t'.entries.map fun e => (e.1, f e.2)).Perm (t.entries.map fun e => (e.1, f e.2)) :=
    (List.perm_ext_iff_of_nodup (hnodup t') (hnodup t)).mpr fun ⟨k, b⟩ => by
      rw [hmem, hmem, h]
  have hvalues (t : Table κ α) :
      (t.entries.map fun e => (e.1, f e.2)).map Prod.snd = t.values.map f := by
    rw [values, List.map_map, List.map_map]
    rfl
  rw [← hvalues, ← hvalues]
  exact hperm.map Prod.snd

theorem entries_perm {a : α} (h : t.get? k = some a) :
    t.entries.Perm ((k, a) :: (t.erase k).entries) := by
  have hself : (k, a) ∉ (t.erase k).entries := by
    rw [← get?_eq_some_iff, get?_erase, if_pos rfl]
    exact nofun
  -- neither list repeats an entry, so they need only have the same members
  refine (List.perm_ext_iff_of_nodup t.nodup_entries
    (List.nodup_cons.mpr ⟨hself, (t.erase k).nodup_entries⟩)).mpr fun ⟨x, b⟩ => ?_
  rw [List.mem_cons, ← get?_eq_some_iff, ← get?_eq_some_iff, get?_erase]
  by_cases hx : k = x
  · subst hx
    rw [if_pos rfl, h, Option.some.injEq, Prod.mk.injEq]
    simp [eq_comm]
  · rw [if_neg hx]
    simp [Ne.symm hx]

theorem sum_values_erase (t : Table κ α) (k : κ) (f : α → ℚ) :
    (t.values.map f).sum = ((t.erase k).values.map f).sum + (t.get? k).elim 0 f := by
  cases h : t.get? k with
  | none =>
    -- nothing is there to erase
    have hget : ∀ x, ((t.erase k).get? x).map f = (t.get? x).map f := fun x => by
      rw [get?_erase]
      split
      · next hx => rw [← hx, h]
      · rfl
    rw [(values_perm hget).sum_eq, Option.elim_none, add_zero]
  | some a =>
    have hperm := ((entries_perm h).map Prod.snd).map f
    rw [values, hperm.sum_eq, List.map_cons, List.map_cons, List.sum_cons, Option.elim_some,
      add_comm]
    rfl

/-- Sums over tables that differ in one key differ by what that key contributes. -/
theorem sum_values_eq (f : α → ℚ) (h : ∀ x, x ≠ k → t'.get? x = t.get? x) :
    (t'.values.map f).sum - (t'.get? k).elim 0 f = (t.values.map f).sum - (t.get? k).elim 0 f := by
  have hget : ∀ x, ((t'.erase k).get? x).map f = ((t.erase k).get? x).map f := fun x => by
    rw [get?_erase, get?_erase]
    split
    · rfl
    · next hx => rw [h x (Ne.symm hx)]
  rw [sum_values_erase t' k, sum_values_erase t k, (values_perm hget).sum_eq]
  linarith

end Table

end SimBroker
