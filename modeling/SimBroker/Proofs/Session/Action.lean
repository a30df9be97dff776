import SimBroker.Proofs.Calc
import SimBroker.Proofs.Instant.Clock
import SimBroker.Session.Operations

/-!
# Actions that succeed

An action stops at the first fault, so one that ends has ended all its parts.  The lemmas take such
an action apart, as those for calculations do.
-/

namespace SimBroker

namespace Session

namespace Action

variable {α β : Type} {s s' : Session}

theorem bind_eq_ok {x : Action α} {f : α → Action β} {b : β} :
    (x >>= f).run s = .ok b s' ↔ ∃ a s₁, x.run s = .ok a s₁ ∧ (f a).run s₁ = .ok b s' := by
  show EStateM.bind x f s = _ ↔ _
  unfold EStateM.bind EStateM.run
  cases x s with
  | ok a s₁ => simp [and_assoc]
  | error e s₁ => simp

theorem pure_eq_ok {a b : α} : (pure a : Action α).run s = .ok b s' ↔ a = b ∧ s = s' := by
  simp [EStateM.run, pure, EStateM.pure]

theorem get_eq_ok {a : Session} :
    (get : Action Session).run s = .ok a s' ↔ s = a ∧ s = s' := by
  show EStateM.Result.ok s s = .ok a s' ↔ _
  rw [EStateM.Result.ok.injEq]

theorem modify_eq_ok {f : Session → Session} {u : Unit} :
    (modify f : Action Unit).run s = .ok u s' ↔ f s = s' := by
  show EStateM.Result.ok () (f s) = .ok u s' ↔ _
  simp

theorem compute_eq_ok {x : Calc α} {a : α} :
    (compute x).run s = .ok a s' ↔ x = .ok a ∧ s = s' := by
  cases x with
  | ok b =>
    show EStateM.Result.ok b s = .ok a s' ↔ _
    simp
  | error e =>
    show EStateM.Result.error e s = .ok a s' ↔ _
    simp

theorem map_eq_ok {x : Action α} {f : α → β} {b : β} :
    (f <$> x).run s = .ok b s' ↔ ∃ a, x.run s = .ok a s' ∧ f a = b := by
  show EStateM.map f x s = _ ↔ _
  unfold EStateM.map EStateM.run
  cases x s with
  | ok a s₁ =>
    simp only [EStateM.Result.ok.injEq]
    exact ⟨fun ⟨hb, hs⟩ => ⟨a, ⟨rfl, hs⟩, hb⟩, fun ⟨_, ⟨ha, hs⟩, hb⟩ => ⟨ha ▸ hb, hs⟩⟩
  | error e s₁ => simp

theorem discard_eq_ok {x : Action α} {u : Unit} :
    (discard x).run s = .ok u s' ↔ ∃ a, x.run s = .ok a s' := by
  show EStateM.run ((fun _ => ()) <$> x) s = _ ↔ _
  simp only [map_eq_ok, and_true]

/-- What every action for an element of a list preserves is preserved by all of them in order. -/
theorem forM_induction {P : Session → Prop} {f : α → Action Unit} {xs : List α} {u : Unit}
    (hs : P s) (hstep : ∀ x ∈ xs, ∀ {s s' u}, P s → (f x).run s = .ok u s' → P s')
    (h : (xs.forM f).run s = .ok u s') : P s' := by
  induction xs generalizing s with
  | nil =>
    obtain ⟨-, rfl⟩ := pure_eq_ok.mp h
    exact hs
  | cons x xs ih =>
    obtain ⟨_, s₁, hx, h⟩ := bind_eq_ok.mp h
    exact ih (hstep x List.mem_cons_self hs hx)
      (fun y hy => hstep y (List.mem_cons_of_mem _ hy)) h

/-- What acts for every element of a list leaves the clock behind all the readings for them. -/
theorem forEach_cases {n : ℕ} {f : α → Clock → Action Unit} {xs : List α} {clock clock' : Clock}
    (h : (forEach n f xs clock).run s = .ok clock' s') :
    clock' = clock.after (n * xs.length) := by
  induction xs generalizing s clock with
  | nil =>
    obtain ⟨rfl, -⟩ := pure_eq_ok.mp h
    exact (Clock.after_zero clock).symm
  | cons x xs ih =>
    obtain ⟨_, s₁, -, h⟩ := bind_eq_ok.mp h
    rw [ih h, Clock.after_after, List.length_cons, Nat.mul_succ, Nat.add_comm]

/-- The session that an action ends in, if it does. -/
def ended? (x : Action α) (s : Session) : Option Session :=
  match x.run s with
  | .ok _ s' => some s'
  | .error _ _ => none

theorem ended?_eq_some {x : Action α} : ended? x s = some s' ↔ ∃ a, x.run s = .ok a s' := by
  unfold ended?
  cases x.run s <;> simp

/-- The answer of an action, if it ends. -/
def answer? (x : Action α) (s : Session) : Option α :=
  match x.run s with
  | .ok a _ => some a
  | .error _ _ => none

theorem answer?_eq_some {x : Action α} {a : α} :
    answer? x s = some a ↔ ∃ s', x.run s = .ok a s' := by
  unfold answer?
  cases x.run s <;> simp

theorem run_eq_ok {x : Action α} {a : α} (hended : ended? x s = some s')
    (hanswer : answer? x s = some a) : x.run s = .ok a s' := by
  obtain ⟨a', h⟩ := ended?_eq_some.mp hended
  obtain ⟨_, h'⟩ := answer?_eq_some.mp hanswer
  obtain ⟨rfl, -⟩ := EStateM.Result.ok.inj (h'.symm.trans h)
  exact h

end Action

end Session

end SimBroker
