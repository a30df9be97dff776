import SimBroker.Decimal.Basic

/-!
# Calculations that succeed

A calculation stops at the first fault, so one that has a result has the results of all its parts.
The lemmas take such a calculation apart; they are used with `simp only` and `obtain`.
-/

namespace SimBroker

namespace Calc

variable {α β : Type}

@[simp] theorem ok_bind {a : α} {f : α → Calc β} : ((.ok a : Calc α) >>= f) = f a := rfl

theorem bind_eq_ok {x : Calc α} {f : α → Calc β} {b : β} :
    (x >>= f) = .ok b ↔ ∃ a, x = .ok a ∧ f a = .ok b := by
  cases x <;> simp [bind, Except.bind]

theorem bind_eq_error {x : Calc α} {f : α → Calc β} {e : ArithmeticFault} :
    (x >>= f) = .error e ↔ x = .error e ∨ ∃ a, x = .ok a ∧ f a = .error e := by
  cases x <;> simp [bind, Except.bind]

/-- After the first part nothing can fail any more. -/
theorem bind_pure_eq_error {x : Calc α} {f : α → β} {e : ArithmeticFault} :
    (x >>= fun a => pure (f a)) = .error e ↔ x = .error e := by
  cases x with
  | ok a => exact iff_of_false nofun nofun
  | error e' => simp [bind, Except.bind]

theorem pure_eq_ok {a b : α} : (pure a : Calc α) = .ok b ↔ a = b := by
  simp [pure, Except.pure]

theorem map_fst_eq_ok {x : Calc (α × β)} {a : α} :
    (fun r => r.1) <$> x = .ok a ↔ ∃ b, x = .ok (a, b) := by
  cases x <;> simp [Functor.map, Except.map, Prod.ext_iff]

theorem exists_ok_iff {x : Calc α} : (∃ a, x = .ok a) ↔ ∀ e, x ≠ .error e := by
  cases x <;> simp

/-- A calculation has a result if something can be said of it. -/
theorem exists_eq_ok {x : Calc α} {f : α → Option β} {b : β} (h : x.toOption.bind f = some b) :
    ∃ a, x = .ok a ∧ f a = some b := by
  cases x with
  | error e => exact nomatch h
  | ok a => exact ⟨a, rfl, h⟩

/-- A fold over a list with one more element is the fold over the list and then one more step. -/
theorem foldlM_concat_eq_ok {f : β → α → Calc β} {xs : List α} {x : α} {b c : β} :
    (xs ++ [x]).foldlM f b = .ok c ↔ ∃ d, xs.foldlM f b = .ok d ∧ f d x = .ok c := by
  rw [List.foldlM_append, bind_eq_ok]
  simp only [List.foldlM_cons, List.foldlM_nil, bind_pure]

/-- What is said of the result of a calculation, if it has one. -/
def All (x : Calc α) (P : α → Prop) : Prop := ∀ a, x = .ok a → P a

theorem all_ok {a : α} {P : α → Prop} : All (.ok a) P ↔ P a :=
  ⟨fun h => h a rfl, fun h _ ha => Except.ok.inj ha ▸ h⟩

instance (x : Calc α) (P : α → Prop) [DecidablePred P] : Decidable (x.All P) :=
  match x with
  | .error _ => isTrue nofun
  | .ok _ => decidable_of_iff _ all_ok.symm

end Calc

end SimBroker
