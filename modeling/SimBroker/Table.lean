/-!
# Tables

A finite map as a list of entries, in the order in which the keys were first inserted.  No key
occurs twice, which the type says.  `get?` is the view of a table: `get?_insert` and `get?_erase`
say what the operations do to it, and `get?_eq_some_iff` that it shows every entry.
-/

namespace SimBroker

/-- A finite map from `κ` to `α`. -/
structure Table (κ α : Type) where
  entries : List (κ × α)
  nodup : (entries.map Prod.fst).Nodup

namespace Table

variable {κ α : Type}

instance : EmptyCollection (Table κ α) := ⟨⟨[], List.nodup_nil⟩⟩
instance : Inhabited (Table κ α) := ⟨∅⟩

/-- The keys, in order. -/
def keys (t : Table κ α) : List κ := t.entries.map Prod.fst

/-- The values, in the order of their keys. -/
def values (t : Table κ α) : List α := t.entries.map Prod.snd

/-- The number of keys. -/
def size (t : Table κ α) : Nat := t.entries.length

variable [DecidableEq κ]

/-- The value of a key. -/
def get? (t : Table κ α) (k : κ) : Option α := (t.entries.find? fun e => e.1 = k).map Prod.snd

/-- The entries with a key set: in its place if it is there, else at the end. -/
def setEntry (k : κ) (a : α) : List (κ × α) → List (κ × α)
  | [] => [(k, a)]
  | e :: es => if e.1 = k then (k, a) :: es else e :: setEntry k a es

theorem mem_keys_setEntry {k x : κ} {a : α} {es : List (κ × α)} :
    x ∈ (setEntry k a es).map Prod.fst ↔ x = k ∨ x ∈ es.map Prod.fst := by
  induction es with
  | nil => simp [setEntry]
  | cons e es ih => by_cases h : e.1 = k <;> grind [setEntry]

theorem nodup_setEntry {k : κ} {a : α} {es : List (κ × α)} (h : (es.map Prod.fst).Nodup) :
    ((setEntry k a es).map Prod.fst).Nodup := by
  induction es with
  | nil => simp [setEntry]
  | cons e es ih =>
    rw [List.map_cons, List.nodup_cons] at h
    by_cases hk : e.1 = k
    · rw [setEntry, if_pos hk, List.map_cons, List.nodup_cons]
      exact ⟨hk ▸ h.1, h.2⟩
    · rw [setEntry, if_neg hk, List.map_cons, List.nodup_cons, mem_keys_setEntry]
      exact ⟨by simp [hk, h.1], ih h.2⟩

/-- Sets the value of a key. -/
def insert (t : Table κ α) (k : κ) (a : α) : Table κ α :=
  ⟨setEntry k a t.entries, nodup_setEntry t.nodup⟩

/-- Removes a key. -/
def erase (t : Table κ α) (k : κ) : Table κ α :=
  ⟨t.entries.filter (fun e => e.1 ≠ k),
    (List.filter_sublist.map Prod.fst).nodup t.nodup⟩

/-! ## The view -/

theorem get?_empty (k : κ) : (∅ : Table κ α).get? k = none := rfl

theorem find?_setEntry {k x : κ} {a : α} {es : List (κ × α)} :
    ((setEntry k a es).find? fun e => e.1 = x).map Prod.snd =
      if k = x then some a else (es.find? fun e => e.1 = x).map Prod.snd := by
  induction es with
  | nil => by_cases h : k = x <;> simp [setEntry, h]
  | cons e es ih =>
    by_cases hk : e.1 = k
    · by_cases hx : k = x <;> simp [setEntry, hk, hx]
    · by_cases hx : e.1 = x
      · subst hx
        simp [setEntry, hk, Ne.symm hk]
      · simpa [setEntry, hk, hx] using ih

/-- Setting a key changes its own value and no other. -/
theorem get?_insert (t : Table κ α) (k x : κ) (a : α) :
    (t.insert k a).get? x = if k = x then some a else t.get? x :=
  find?_setEntry

theorem find?_erase {k x : κ} {es : List (κ × α)} :
    ((es.filter fun e => e.1 ≠ k).find? fun e => e.1 = x).map Prod.snd =
      if k = x then none else (es.find? fun e => e.1 = x).map Prod.snd := by
  induction es with
  | nil => simp
  | cons e es ih =>
    by_cases hk : e.1 = k
    · by_cases hx : k = x
      · simp [hk, hx]
      · simpa [hk, hx] using ih
    · by_cases hx : e.1 = x
      · subst hx
        simp [hk, Ne.symm hk]
      · simpa [hk, hx] using ih

/-- Removing a key leaves the values of all others. -/
theorem get?_erase (t : Table κ α) (k x : κ) :
    (t.erase k).get? x = if k = x then none else t.get? x :=
  find?_erase

/-- The entries are the keys with their values. -/
theorem get?_eq_some_iff {t : Table κ α} {k : κ} {a : α} :
    t.get? k = some a ↔ (k, a) ∈ t.entries := by
  obtain ⟨es, h⟩ := t
  rw [get?]
  induction es with
  | nil => simp
  | cons e es ih =>
    rw [List.map_cons, List.nodup_cons] at h
    rw [List.find?_cons, List.mem_cons]
    by_cases hk : e.1 = k
    · have hn : (k, a) ∉ es := fun hm => h.1 (hk ▸ List.mem_map_of_mem (f := Prod.fst) hm)
      simp [hk, hn, Prod.ext_iff, eq_comm]
    · have hne : (k, a) ≠ e := fun he => hk (he ▸ rfl)
      simpa [hk, hne] using ih h.2

end Table

end SimBroker
