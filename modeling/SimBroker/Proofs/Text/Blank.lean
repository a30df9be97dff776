import SimBroker.Text.Blank

/-!
# White space around a text

A text that neither begins nor ends with white space comes back when white space is put around it
and taken away again.

## Main results

* `trimBlank_append`: white space around a text
* `trimBlank_eq_nil`: nothing but white space
-/

namespace SimBroker

variable {c : Char} {cs before after : List Char}

theorem skipBlank_cons (h : isBlank c = false) : skipBlank (c :: cs) = c :: cs := by
  rw [skipBlank, List.dropWhile_cons_of_neg (by simp [h])]

theorem skipBlank_append (h : ∀ c ∈ before, isBlank c) : skipBlank (before ++ cs) = skipBlank cs :=
  List.dropWhile_append_of_pos h

theorem skipBlank_eq_nil (h : ∀ c ∈ cs, isBlank c) : skipBlank cs = [] := by
  rw [← List.append_nil cs, skipBlank_append h]
  rfl

theorem trimBlank_eq_nil (h : ∀ c ∈ cs, isBlank c) : trimBlank cs = [] := by
  rw [trimBlank, skipBlank_eq_nil h]
  rfl

/-- White space around a text from a first to a last character. -/
theorem trimBlank_append {first last : Char} (hbefore : ∀ c ∈ before, isBlank c)
    (hafter : ∀ c ∈ after, isBlank c) (hfirst : isBlank first = false)
    (hlast : isBlank last = false) :
    trimBlank (before ++ (first :: cs ++ [last]) ++ after) = first :: cs ++ [last] := by
  have hreverse : ∀ c ∈ after.reverse, isBlank c := fun c hc =>
    hafter c (List.mem_reverse.mp hc)
  rw [trimBlank, List.append_assoc, skipBlank_append hbefore, List.append_assoc, List.cons_append,
    skipBlank_cons hfirst, ← List.cons_append, ← List.append_assoc, List.reverse_append,
    skipBlank_append hreverse, List.reverse_append, List.reverse_singleton, List.singleton_append,
    skipBlank_cons hlast, List.reverse_cons, List.reverse_reverse]

/-- The first character of a text that is not white space stays the first. -/
theorem exists_trimBlank_eq_cons (hbefore : ∀ c ∈ before, isBlank c) (hc : isBlank c = false) :
    ∃ rest, trimBlank (before ++ c :: cs) = c :: rest := by
  rw [trimBlank, skipBlank_append hbefore, skipBlank_cons hc, List.reverse_cons, skipBlank,
    List.dropWhile_append]
  split
  · exact ⟨[], by rw [List.dropWhile_cons_of_neg (by simp [hc])]; rfl⟩
  · exact ⟨_, by rw [List.reverse_append]; rfl⟩

end SimBroker
