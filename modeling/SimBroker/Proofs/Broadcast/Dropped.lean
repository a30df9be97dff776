import SimBroker.Proofs.Broadcast.Hub

/-!
# Subscribers that a message removes

A hub counts the subscribers that it drops as it publishes.  Whoever asks to be removed, or is
removed because the hub stops, is not counted.  So the count grows by the subscribers that were
registered before a message and are not after it, and by nobody else.

## Main definitions

* `gone`: the subscribers of a hub that are not registered any more with a later one
* `goneBy`: the subscribers that a command removes by a message

## Main results

* `dropped_step`, `dropped_messages`: what a command, and what some messages in a row, add to the
  count
-/

namespace SimBroker

namespace Hub

variable {μ : Type} {h h' h₁ : Hub μ} {ms : List μ} {f g : Subscriber μ → Subscriber μ}

/-- The subscribers that are registered with a hub, and not any more with a later one, where all
keep their places. -/
def gone (h h' : Hub μ) : List (Subscriber μ) :=
  ((h.subscribers.zip h'.subscribers).filter fun e => e.1.registered && !e.2.registered).map
    Prod.fst

/-- The subscribers that a command removes by a message. -/
def goneBy (h : Hub μ) (c : Command μ) : List (Subscriber μ) :=
  match c with
  | .publish _ => h.gone (h.step c)
  | _ => []

/-- Where each subscriber is changed for itself, those are gone that the change removes. -/
theorem length_gone (hsubscribers : h'.subscribers = h.subscribers.map f) :
    (h.gone h').length = h.subscribers.countP fun s => s.registered && !(f s).registered := by
  have hzip : h.subscribers.zip (h.subscribers.map f) = h.subscribers.map fun s => (s, f s) := by
    rw [List.zip_map_right, List.zip_eq_zipWith, List.zipWith_self, List.map_map]
    rfl
  rw [gone, hsubscribers, hzip, List.length_map, ← List.countP_eq_length_filter, List.countP_map]
  rfl

/-- Nobody who was removed comes back, so losses add up. -/
theorem length_gone_trans (hf : h₁.subscribers = h.subscribers.map f)
    (hg : h'.subscribers = h₁.subscribers.map g)
    (hback : ∀ s, (f s).registered → s.registered) (hback' : ∀ s, (g s).registered → s.registered) :
    (h.gone h').length = (h.gone h₁).length + (h₁.gone h').length := by
  have hgf : h'.subscribers = h.subscribers.map (g ∘ f) := by rw [hg, hf, List.map_map]
  rw [length_gone hgf, length_gone hf, length_gone hg, hf, List.countP_map]
  -- a registered subscriber that is removed by both changes is removed by one of them
  have hone : ∀ before between after : Bool, (between → before) → (after → between) →
      (if before && !after then 1 else 0) =
        (if before && !between then 1 else 0) + if between && !after then 1 else 0 := by decide
  induction h.subscribers with
  | nil => rfl
  | cons s subscribers ih =>
    have hs := hone s.registered (f s).registered (g (f s)).registered (hback s) (hback' (f s))
    rw [List.countP_cons, List.countP_cons, List.countP_cons, ih, Function.comp_apply,
      Function.comp_apply, hs]
    omega

/-! ## Messages -/

theorem registered_of_deliver {s : Subscriber μ} {m : μ} (h : (s.deliver m).registered) :
    s.registered := by
  rcases s.deliver_cases m with ⟨hs, heq⟩ | ⟨hs, -, heq⟩ | ⟨hs, -, heq⟩
  · rwa [heq] at h
  · exact hs
  · exact hs

/-- A message removes the registered subscribers that are stuck. -/
theorem removed_deliver (s : Subscriber μ) (m : μ) :
    (s.registered && !(s.deliver m).registered) = (s.registered && s.isStuck) := by
  rcases s.deliver_cases m with ⟨hs, heq⟩ | ⟨hs, hstuck, heq⟩ | ⟨hs, hstuck, heq⟩
  · rw [heq, hs]
    rfl
  · rw [heq, hs, hstuck]
    rfl
  · rw [heq, hs, hstuck]
    rfl

theorem subscribers_report (h : Hub μ) : h.report.subscribers = h.subscribers := by
  unfold report
  split <;> rfl

theorem dropped_report (h : Hub μ) : h.report.dropped = h.dropped := by
  unfold report
  split <;> rfl

theorem subscribers_publish (h : Hub μ) (m : μ) :
    (h.publish m).subscribers = h.subscribers.map (Subscriber.deliver · m) :=
  subscribers_report _

theorem dropped_publish (h : Hub μ) (m : μ) :
    (h.publish m).dropped = h.dropped + (h.gone (h.publish m)).length := by
  rw [length_gone (h.subscribers_publish m), publish, dropped_report]
  simp only [removed_deliver, List.countP_eq_length_filter]

/-- The subscribers after some messages in a row, each of which nobody comes back by. -/
theorem subscribers_messages (h : Hub μ) (ms : List μ) :
    (h.run (ms.map .publish)).subscribers = h.subscribers.map (ms.foldl .deliver) := by
  induction ms generalizing h with
  | nil => exact (List.map_id _).symm
  | cons m ms ih =>
    show ((h.publish m).run (ms.map .publish)).subscribers = _
    rw [ih, subscribers_publish, List.map_map]
    rfl

theorem registered_of_delivers {s : Subscriber μ} (h : (ms.foldl .deliver s).registered) :
    s.registered := by
  induction ms generalizing s with
  | nil => exact h
  | cons m ms ih => exact registered_of_deliver (ih h)

/-- Messages in a row are counted to drop the subscribers that they remove. -/
theorem dropped_messages (h : Hub μ) (ms : List μ) :
    (h.run (ms.map .publish)).dropped =
      h.dropped + (h.gone (h.run (ms.map .publish))).length := by
  induction ms generalizing h with
  | nil =>
    show h.dropped = h.dropped + (h.gone h).length
    rw [length_gone (List.map_id _).symm]
    simp
  | cons m ms ih =>
    show ((h.publish m).run (ms.map .publish)).dropped =
      h.dropped + (h.gone ((h.publish m).run (ms.map .publish))).length
    rw [ih, dropped_publish, length_gone_trans (h.subscribers_publish m)
      (subscribers_messages (h.publish m) ms) (fun _ => registered_of_deliver)
      (fun _ => registered_of_delivers), Nat.add_assoc]

/-! ## Commands -/

/-- A command is counted to drop the subscribers that it removes by a message. -/
theorem dropped_step (h : Hub μ) (c : Command μ) :
    (h.step c).dropped = h.dropped + (h.goneBy c).length := by
  cases c with
  | publish m => exact h.dropped_publish m
  | subscribe capacity =>
    show (h.subscribe capacity).2.dropped = h.dropped
    unfold subscribe
    dsimp only
    split
    · rfl
    · exact dropped_report _
  | unsubscribe id => exact dropped_report _
  | count => exact dropped_report _
  | receive id =>
    show (((h.receive id).map Prod.snd).getD h).dropped = h.dropped
    unfold receive
    cases h.subscriber? id with
    | none => rfl
    | some s =>
      dsimp only [Option.bind_eq_bind, Option.bind_some]
      split <;> rfl
  | release id => rfl

end Hub

end SimBroker
