import SimBroker.Broadcast.Hub
import Mathlib.Data.List.Basic

/-!
# One subscriber of a hub

Most commands to a hub mean nothing to a given subscriber; the others are its *share*.  Its queue
takes the messages that are published while it is registered, in order, and gives them back in that
order, until the receiving end is let go of, which discards what is queued.

## Main definitions

* `Share`: what a command means to one subscriber
* `Subscriber.step`, `Subscriber.run`: a subscriber after its shares
* `Subscriber.received`, `Subscriber.discarded`: what a share takes out of the queue
* `Subscriber.during`: the shares before the one that removes the subscriber

## Main results

* `Subscriber.queue_append_published`: where the messages of the time of registration are
* `Subscriber.isRegistered_step_iff`: what removes a subscriber
* `Subscriber.drains`: what can be received after removal
-/

namespace SimBroker

variable {μ : Type}

/-- What a command to a hub means to one subscriber. -/
inductive Share (μ : Type) where
  | message (m : μ)
  | receive
  /-- The hub does not deliver any more. -/
  | removal
  /-- The receiving end is let go of. -/
  | release

/-- The messages that are published. -/
def Share.published (xs : List (Share μ)) : List μ :=
  xs.filterMap fun
    | .message m => some m
    | _ => none

theorem Share.published_cons (x : Share μ) (xs : List (Share μ)) :
    published (x :: xs) = published [x] ++ published xs := by
  rw [published, published, published, ← List.filterMap_append]
  rfl

namespace Subscriber

variable {s : Subscriber μ} {x : Share μ} {xs : List (Share μ)} {m : μ}

/-- The subscriber after one share. -/
def step (s : Subscriber μ) : Share μ → Subscriber μ
  | .message m => s.deliver m
  | .receive => if s.held then s.receive.2 else s
  | .removal => { s with registered := false }
  | .release => { s with held := false, queue := [] }

/-- The subscriber after some shares. -/
def run (s : Subscriber μ) (xs : List (Share μ)) : Subscriber μ := xs.foldl step s

/-- What a share hands to the subscriber. -/
def received (s : Subscriber μ) : Share μ → List μ
  | .receive => if s.held then s.queue.take 1 else []
  | _ => []

/-- What a share discards. -/
def discarded (s : Subscriber μ) : Share μ → List μ
  | .release => s.queue
  | _ => []

/-- All that `f` says of the subscriber and its next share, share by share. -/
def along (f : Subscriber μ → Share μ → List μ) : Subscriber μ → List (Share μ) → List μ
  | _, [] => []
  | s, x :: xs => f s x ++ along f (s.step x) xs

/-- The shares before the one that removes the subscriber. -/
def during : Subscriber μ → List (Share μ) → List (Share μ)
  | _, [] => []
  | s, x :: xs => if (s.step x).registered then x :: during (s.step x) xs else []

/-! ## One share -/

/-- A message reaches nobody, drops the subscriber, or is queued. -/
theorem deliver_cases (s : Subscriber μ) (m : μ) :
    (s.registered = false ∧ s.deliver m = s) ∨
    (s.registered ∧ s.isStuck ∧ s.deliver m = { s with registered := false }) ∨
    (s.registered ∧ s.isStuck = false ∧ s.deliver m = { s with queue := s.queue ++ [m] }) := by
  unfold deliver
  cases s.registered <;> cases s.isStuck <;> simp

theorem receive_snd (s : Subscriber μ) : s.receive.2 = { s with queue := s.queue.tail } := by
  obtain ⟨_, _, queue, _, _⟩ := s
  cases queue <;> rfl

/-- A share changes neither the id nor the capacity. -/
theorem exists_step_eq (s : Subscriber μ) (x : Share μ) :
    ∃ queue registered held, s.step x = { s with queue, registered, held } := by
  cases x with
  | message m => rcases s.deliver_cases m with ⟨-, h⟩ | ⟨-, -, h⟩ | ⟨-, -, h⟩ <;> exact ⟨_, _, _, h⟩
  | receive =>
    rw [step, receive_snd]
    split <;> exact ⟨_, _, _, rfl⟩
  | removal | release => exact ⟨_, _, _, rfl⟩

theorem id_step (s : Subscriber μ) (x : Share μ) : (s.step x).id = s.id := by
  obtain ⟨_, _, _, h⟩ := s.exists_step_eq x
  rw [h]

theorem capacity_step (s : Subscriber μ) (x : Share μ) : (s.step x).capacity = s.capacity := by
  obtain ⟨_, _, _, h⟩ := s.exists_step_eq x
  rw [h]

/-- Only letting go of it changes whether the receiving end is there. -/
theorem held_step (s : Subscriber μ) (hx : x ≠ .release) : (s.step x).held = s.held := by
  cases x with
  | message m => rcases s.deliver_cases m with ⟨-, h⟩ | ⟨-, -, h⟩ | ⟨-, -, h⟩ <;> rw [step, h]
  | receive =>
    rw [step, receive_snd]
    split <;> rfl
  | removal => rfl
  | release => exact absurd rfl hx

/-- A message removes a subscriber that is stuck, and so does a removal. -/
theorem isRegistered_step_iff (hs : s.registered) :
    (s.step x).registered = false ↔ x = .removal ∨ s.isStuck ∧ ∃ m, x = .message m := by
  cases x with
  | message m =>
    rcases s.deliver_cases m with ⟨h, -⟩ | ⟨-, hstuck, h⟩ | ⟨-, hstuck, h⟩
    · exact nomatch hs.symm.trans h
    · simp [step, h, hstuck]
    · simp [step, h, hs, hstuck]
  | receive =>
    rw [step, receive_snd]
    split <;> simp [hs]
  | removal => simp [step]
  | release => simp [step, hs]

/-- Who was removed is not registered again. -/
theorem registered_step_eq_false (hs : s.registered = false) : (s.step x).registered = false := by
  cases x with
  | message m => simp [step, deliver, hs]
  | receive =>
    rw [step, receive_snd]
    split <;> exact hs
  | removal => rfl
  | release => exact hs

theorem registered_run_eq_false (hs : s.registered = false) : (s.run xs).registered = false := by
  induction xs generalizing s with
  | nil => exact hs
  | cons x xs ih => exact ih (registered_step_eq_false hs)

theorem during_eq_nil (hs : s.registered = false) : s.during xs = [] := by
  cases xs with
  | nil => rfl
  | cons x xs => rw [during, registered_step_eq_false hs, if_neg Bool.false_ne_true]

/-! ## Queues -/

/-- A queue is within its capacity, and gone with the receiving end. -/
structure Sound (s : Subscriber μ) : Prop where
  length_le : s.queue.length ≤ s.capacity
  queue_eq_nil : s.held = false → s.queue = []

/-- A message finds a subscriber stuck whose queue is full or whose receiving end is gone. -/
theorem Sound.isStuck_iff (hs : s.Sound) :
    s.isStuck ↔ s.queue.length = s.capacity ∨ s.held = false := by
  have hfull : s.capacity ≤ s.queue.length ↔ s.queue.length = s.capacity :=
    ⟨fun hge => Nat.le_antisymm hs.length_le hge, fun heq => Nat.le_of_eq heq.symm⟩
  rw [isStuck, Bool.or_eq_true, Bool.not_eq_true', decide_eq_true_eq, hfull, or_comm]

theorem Sound.step (hs : s.Sound) (x : Share μ) : (s.step x).Sound := by
  cases x with
  | message m =>
    rw [Subscriber.step]
    rcases s.deliver_cases m with ⟨-, h⟩ | ⟨-, -, h⟩ | ⟨-, hstuck, h⟩ <;> rw [h]
    · exact hs
    · exact ⟨hs.length_le, hs.queue_eq_nil⟩
    · -- there is room, and somebody to receive
      obtain ⟨hheld, hroom⟩ : s.held ∧ s.queue.length < s.capacity := by
        simpa [isStuck] using hstuck
      refine ⟨?_, fun h => nomatch hheld.symm.trans h⟩
      rw [List.length_append]
      exact hroom
  | receive =>
    rw [Subscriber.step, receive_snd]
    split
    · next hheld =>
      refine ⟨?_, fun h => nomatch hheld.symm.trans h⟩
      rw [List.length_tail]
      exact Nat.le_trans (Nat.sub_le _ _) hs.length_le
    · exact hs
  | removal => exact ⟨hs.length_le, hs.queue_eq_nil⟩
  | release => exact ⟨Nat.zero_le _, fun _ => rfl⟩

theorem Sound.run (hs : s.Sound) (xs : List (Share μ)) : (s.run xs).Sound := by
  induction xs generalizing s with
  | nil => exact hs
  | cons x xs ih => exact ih (hs.step x)

@[simp] theorem capacity_run (s : Subscriber μ) (xs : List (Share μ)) :
    (s.run xs).capacity = s.capacity := by
  induction xs generalizing s with
  | nil => rfl
  | cons x xs ih => exact (ih _).trans (s.capacity_step x)

/-- Without a receiving end nothing is received. -/
theorem received_eq_nil (hs : s.held = false) : along received s xs = [] := by
  induction xs generalizing s with
  | nil => rfl
  | cons x xs ih =>
    have hx : (s.step x).held = false := by
      cases x with
      | release => rfl
      | _ =>
        rw [held_step, hs]
        exact nofun
    rw [along, ih hx, List.append_nil]
    cases x <;> simp [received, hs]

/-- The message that a share puts in the queue, if the subscriber stays registered. -/
def admitted (s : Subscriber μ) (x : Share μ) : List μ :=
  if (s.step x).registered then Share.published [x] else []

theorem along_admitted (s : Subscriber μ) (xs : List (Share μ)) :
    along admitted s xs = Share.published (s.during xs) := by
  induction xs generalizing s with
  | nil => rfl
  | cons x xs ih =>
    rw [along, during, ih, admitted]
    cases hx : (s.step x).registered with
    | true => rw [if_pos rfl, if_pos rfl, Share.published_cons x (during _ _)]
    | false =>
      rw [during_eq_nil hx]
      rfl

/-- One share puts a message at the end of the queue, takes one from its front, or discards it. -/
theorem queue_append_admitted (s : Subscriber μ) (x : Share μ) :
    s.queue ++ s.admitted x = s.received x ++ s.discarded x ++ (s.step x).queue := by
  rw [admitted]
  cases x with
  | message m =>
    rw [step]
    rcases s.deliver_cases m with ⟨hout, h⟩ | ⟨-, -, h⟩ | ⟨hin, -, h⟩ <;> rw [h]
    · simp [hout, received, discarded]
    · simp [received, discarded]
    · simp [hin, received, discarded, Share.published]
  | receive =>
    rw [step, receive_snd]
    split
    · next hheld =>
      have htake : s.queue.take 1 ++ s.queue.tail = s.queue := by
        rw [← List.drop_one, List.take_append_drop]
      simp [received, discarded, Share.published, hheld, htake]
    · next hheld => simp [received, discarded, Share.published, hheld]
  | removal => simp [step, received, discarded]
  | release => simp [step, received, discarded, Share.published]

/-- After messages were discarded, none is received. -/
theorem discarded_eq_nil_or (s : Subscriber μ) (x : Share μ) (xs : List (Share μ)) :
    s.discarded x = [] ∨ along received (s.step x) xs = [] := by
  cases x with
  | release => exact .inr (received_eq_nil rfl)
  | _ => exact .inl rfl

/-- What was queued, followed by what is published until the subscriber is removed, is what it
receives, what is discarded with its receiving end and what is queued at the end. -/
theorem queue_append_published (s : Subscriber μ) (xs : List (Share μ)) :
    s.queue ++ Share.published (s.during xs) =
      along received s xs ++ along discarded s xs ++ (s.run xs).queue := by
  rw [← along_admitted]
  induction xs generalizing s with
  | nil => simp [along, run]
  | cons x xs ih =>
    calc s.queue ++ along admitted s (x :: xs)
      _ = s.queue ++ s.admitted x ++ along admitted (s.step x) xs := by
        rw [along, List.append_assoc]
      _ = s.received x ++ s.discarded x ++ ((s.step x).queue ++ along admitted (s.step x) xs) := by
        rw [queue_append_admitted, List.append_assoc _ (s.step x).queue]
      _ = s.received x ++ (s.discarded x ++ along received (s.step x) xs) ++
          along discarded (s.step x) xs ++ ((s.step x).run xs).queue := by
        rw [ih]
        simp only [List.append_assoc]
      _ = along received s (x :: xs) ++ along discarded s (x :: xs) ++ (s.run (x :: xs)).queue := by
        rcases s.discarded_eq_nil_or x xs with h | h <;>
          simp only [along, run, h, List.foldl_cons, List.append_nil, List.nil_append,
            List.append_assoc]

/-! ## Messages alone -/

/-- A queue takes all messages that it has room for. -/
theorem run_messages {ms : List μ} (hs : s.registered) (hheld : s.held)
    (hroom : s.queue.length + ms.length ≤ s.capacity) :
    s.run (ms.map .message) = { s with queue := s.queue ++ ms } := by
  induction ms generalizing s with
  | nil => simp [run]
  | cons m ms ih =>
    rw [List.length_cons] at hroom
    have hstuck : s.isStuck = false := by
      simp only [isStuck, hheld, Bool.not_true, Bool.false_or, decide_eq_false_iff_not]
      omega
    have hdeliver : s.deliver m = { s with queue := s.queue ++ [m] } := by
      simp [deliver, hs, hstuck]
    show (s.deliver m).run (ms.map .message) = _
    rw [List.append_cons s.queue m ms, hdeliver]
    refine ih hs hheld ?_
    show (s.queue ++ [m]).length + ms.length ≤ s.capacity
    rw [List.length_append, List.length_singleton]
    omega

/-- Who is still registered has all messages in its queue. -/
theorem queue_run_messages {ms : List μ} (h : (s.run (ms.map .message)).registered) :
    (s.run (ms.map .message)).queue = s.queue ++ ms := by
  induction ms generalizing s with
  | nil => exact (List.append_nil _).symm
  | cons m ms ih =>
    change ((s.deliver m).run (ms.map .message)).registered at h
    show ((s.deliver m).run (ms.map .message)).queue = _
    rw [List.append_cons s.queue m ms]
    -- a message that is not queued leaves the subscriber unregistered for good
    rcases s.deliver_cases m with ⟨hout, heq⟩ | ⟨-, -, heq⟩ | ⟨-, -, heq⟩ <;> rw [heq] at h ⊢
    · exact nomatch h.symm.trans (registered_run_eq_false hout)
    · exact nomatch h.symm.trans (registered_run_eq_false rfl)
    · exact ih h

/-! ## After removal -/

/-- Letting go of the receiving end is the only share that discards anything. -/
theorem discarded_eq_nil (h : .release ∉ xs) : along discarded s xs = [] := by
  induction xs generalizing s with
  | nil => rfl
  | cons x xs ih =>
    obtain ⟨hx, hxs⟩ := List.ne_and_not_mem_of_not_mem_cons h
    rw [along, ih hxs, List.append_nil]
    cases x <;> first | rfl | exact absurd rfl hx

/-- The receiving end is there until it is let go of. -/
theorem held_run_iff : (s.run xs).held ↔ s.held ∧ .release ∉ xs := by
  induction xs generalizing s with
  | nil => simp [run]
  | cons x xs ih =>
    show ((s.step x).run xs).held ↔ _
    rw [ih, List.mem_cons, not_or]
    by_cases hx : x = .release
    · subst hx
      exact iff_of_false (fun h => nomatch h.1) fun h => h.2.1 rfl
    · rw [s.held_step hx]
      exact and_congr_right fun _ => (and_iff_right (Ne.symm hx)).symm

/-- After its removal a subscriber receives what was queued, and nothing else. -/
theorem drains (hs : s.registered = false) (h : .release ∉ xs) :
    along received s xs ++ (s.run xs).queue = s.queue := by
  have hblock := s.queue_append_published xs
  rw [during_eq_nil hs, discarded_eq_nil h, List.append_nil] at hblock
  exact hblock.symm.trans (List.append_nil _)

/-! ## The id does not matter -/

/-- The subscriber under another id. -/
def withId (s : Subscriber μ) (id : ℕ) : Subscriber μ := { s with id }

theorem step_withId (s : Subscriber μ) (id : ℕ) (x : Share μ) :
    (s.withId id).step x = (s.step x).withId id := by
  cases x with
  | message m =>
    show (s.withId id).deliver m = (s.deliver m).withId id
    unfold deliver
    show (if !s.registered then _ else if s.isStuck then _ else _) = _
    split
    · rfl
    · split <;> rfl
  | receive =>
    rw [step, step, receive_snd, receive_snd]
    show (if s.held then _ else _) = _
    split <;> rfl
  | removal | release => rfl

/-- Subscribers that differ in their ids receive the same. -/
theorem received_withId (s : Subscriber μ) (id : ℕ) (xs : List (Share μ)) :
    along received (s.withId id) xs = along received s xs := by
  induction xs generalizing s with
  | nil => rfl
  | cons x xs ih =>
    rw [along, along, step_withId, ih]
    cases x <;> rfl

end Subscriber

end SimBroker
