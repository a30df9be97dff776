import SimBroker.Proofs.Broadcast.Hub

/-!
# What a hub delivers

Every subscriber receives the messages that are published while it is registered, all of them, once
and in order; what it has not received yet is queued.  It is removed by a message that finds no
room in its queue or nobody to receive, by its own wish, or by a request of anyone for a longer
queue than there can be, which removes everyone.  What is queued then can still be received.  How
other subscribers come, fall behind and go is nothing to it.

## Main definitions

* `heard`, `lost`: what a subscriber has received, and what was discarded with its receiving end
* `during`: the commands before the one that removes a subscriber
* `Served`: how a hub has served a subscriber

## Main results

* `delivery`: when a subscription succeeds, how the subscriber is served then, that its id is its
  own, and that it receives the same whatever others do
* `delivery_stops`: a request for too long a queue removes a subscriber that has room
-/

namespace SimBroker

namespace Hub

variable {μ : Type} {h h' : Hub μ} {id : ℕ} {s : Subscriber μ} {c : Command μ}

/-! ## What can be seen of a subscriber -/

/-- The messages that commands publish. -/
def Command.published (cs : List (Command μ)) : List μ :=
  cs.filterMap fun
    | .publish m => some m
    | _ => none

/-- Whether the subscriber with an id is registered. -/
def isRegistered (h : Hub μ) (id : ℕ) : Bool := (h.subscriber? id).any (·.registered)

/-- What a command hands to the subscriber with an id. -/
def received (id : ℕ) (h : Hub μ) : Command μ → List μ
  | .receive j =>
    if j = id then
      match h.receive id with
      | some (.message m, _) => [m]
      | _ => []
    else []
  | _ => []

/-- What a command discards of the queue of the subscriber with an id. -/
def discarded (id : ℕ) (h : Hub μ) : Command μ → List μ
  | .release j => if j = id then ((h.subscriber? id).map Subscriber.queue).getD [] else []
  | _ => []

/-- All that `f` says of the hub and its next command, command by command. -/
def along (f : Hub μ → Command μ → List μ) : Hub μ → List (Command μ) → List μ
  | _, [] => []
  | h, c :: cs => f h c ++ along f (h.step c) cs

/-- What the subscriber with an id has received. -/
def heard (h : Hub μ) (id : ℕ) (cs : List (Command μ)) : List μ := along (received id) h cs

/-- What was discarded with the receiving end of the subscriber with an id. -/
def lost (h : Hub μ) (id : ℕ) (cs : List (Command μ)) : List μ := along (discarded id) h cs

/-- The commands before the one that removes the subscriber with an id. -/
def during (id : ℕ) : Hub μ → List (Command μ) → List (Command μ)
  | _, [] => []
  | h, c :: cs => if (h.step c).isRegistered id then c :: during id (h.step c) cs else []

/-! ## Commands and shares -/

/-- What is said of the share is said of the command. -/
theorem WellFormed.along_eq {f : Hub μ → Command μ → List μ}
    {g : Subscriber μ → Share μ → List μ}
    (hfg : ∀ {h s} c, h.subscriber? id = some s → f h c = (c.share h.queueDepth id).elim [] (g s))
    (hh : h.WellFormed) (hs : h.subscriber? id = some s) (cs : List (Command μ)) :
    along f h cs = Subscriber.along g s (shares h.queueDepth id cs) := by
  induction cs generalizing h s with
  | nil => rfl
  | cons c cs ih =>
    rw [along, hfg c hs, ih (hh.step c) (hh.subscriber?_step hs c), (hh.stepped c).queueDepth_eq,
      shares, shares, List.filterMap_cons, Command.serve, id_of_subscriber? hs]
    cases c.share h.queueDepth id <;> rfl

theorem receive_eq (hs : h.subscriber? id = some s) :
    h.receive id =
      if s.held then some (s.receive.1, h.modify id fun _ => s.receive.2) else none := by
  unfold receive
  rw [hs]
  rfl

theorem WellFormed.heard_eq (hh : h.WellFormed) (hs : h.subscriber? id = some s)
    (cs : List (Command μ)) :
    h.heard id cs = Subscriber.along Subscriber.received s (shares h.queueDepth id cs) := by
  refine hh.along_eq (fun {h s} c hs => ?_) hs cs
  cases c with
  | receive j =>
    simp only [received, Command.share]
    split
    · rw [receive_eq hs, Option.elim_some, Subscriber.received]
      cases s.held with
      | false => rfl
      | true =>
        -- only a message that was queued is heard
        obtain ⟨_, _, queue, registered, _⟩ := s
        cases queue <;> cases registered <;> rfl
    · rfl
  | subscribe | unsubscribe | release =>
    simp only [received, Command.share]
    split <;> rfl
  | _ => rfl

theorem WellFormed.lost_eq (hh : h.WellFormed) (hs : h.subscriber? id = some s)
    (cs : List (Command μ)) :
    h.lost id cs = Subscriber.along Subscriber.discarded s (shares h.queueDepth id cs) := by
  refine hh.along_eq (fun {h s} c hs => ?_) hs cs
  cases c with
  | release j =>
    simp only [discarded, Command.share, hs]
    split <;> rfl
  | subscribe | unsubscribe | receive =>
    simp only [discarded, Command.share]
    split <;> rfl
  | _ => rfl

theorem published_cons (c : Command μ) (cs : List (Command μ)) :
    Command.published (c :: cs) = Command.published [c] ++ Command.published cs := by
  rw [Command.published, Command.published, Command.published, ← List.filterMap_append]
  rfl

/-- A command publishes what its share does. -/
theorem published_share (depth id : ℕ) (c : Command μ) :
    Command.published [c] = (c.share depth id).elim [] fun x => Share.published [x] := by
  cases c with
  | subscribe | unsubscribe | receive | release =>
    simp only [Command.share]
    split <;> rfl
  | _ => rfl

theorem WellFormed.isRegistered_step (hh : h.WellFormed) (hs : h.subscriber? id = some s)
    (c : Command μ) : (h.step c).isRegistered id = (c.serve h.queueDepth s).registered := by
  rw [isRegistered, hh.subscriber?_step hs]
  rfl

theorem WellFormed.published_during (hh : h.WellFormed) (hs : h.subscriber? id = some s)
    (cs : List (Command μ)) :
    Command.published (during id h cs) =
      Share.published (s.during (shares h.queueDepth id cs)) := by
  induction cs generalizing h s with
  | nil => rfl
  | cons c cs ih =>
    have ih := ih (hh.step c) (hh.subscriber?_step hs c)
    rw [(hh.stepped c).queueDepth_eq] at ih
    have hpublished := published_share h.queueDepth id c
    rw [during, hh.isRegistered_step hs]
    unfold Command.serve at ih ⊢
    rw [id_of_subscriber? hs] at ih ⊢
    rw [shares, List.filterMap_cons]
    cases hshare : c.share h.queueDepth id with
    | none =>
      -- the command means nothing to the subscriber, and publishes nothing
      rw [hshare] at hpublished ih
      cases hregistered : s.registered with
      | true =>
        rw [Option.elim_none, if_pos hregistered, published_cons, hpublished]
        exact ih
      | false =>
        rw [Option.elim_none, if_neg (Bool.eq_false_iff.mp hregistered),
          Subscriber.during_eq_nil hregistered]
        rfl
    | some x =>
      rw [hshare] at hpublished ih
      show _ = Share.published (if _ then _ else _)
      rw [Option.elim_some]
      split
      · rw [published_cons, Share.published_cons, hpublished]
        exact congrArg _ ih
      · rfl

/-- A subscriber is registered as long as no command has removed it. -/
theorem WellFormed.isRegistered_run (hh : h.WellFormed) (hs : h.subscriber? id = some s)
    (hregistered : s.registered) (cs : List (Command μ)) :
    (h.run cs).isRegistered id ↔ during id h cs = cs := by
  induction cs generalizing h s with
  | nil =>
    rw [during, isRegistered]
    show (h.subscriber? id).any _ = true ↔ _
    rw [hs]
    exact iff_of_true hregistered rfl
  | cons c cs ih =>
    have hstep := hh.subscriber?_step hs c
    rw [during, hh.isRegistered_step hs]
    cases hc : (c.serve h.queueDepth s).registered with
    | true =>
      rw [if_pos rfl, List.cons.injEq]
      exact (ih (hh.step c) hstep hc).trans (and_iff_right rfl).symm
    | false =>
      -- who is removed by the first command is not registered at the end
      rw [if_neg Bool.false_ne_true]
      refine iff_of_false ?_ (List.cons_ne_nil _ _).symm
      show ¬ ((h.step c).run cs).isRegistered id
      rw [isRegistered, (hh.step c).subscriber?_run hstep, Option.any_some,
        Subscriber.registered_run_eq_false hc]
      exact Bool.false_ne_true

/-! ## Removal -/

/-- A subscriber is removed by a message when it is stuck, by its own wish, or by a request that
stops the hub. -/
theorem registered_serve_iff {depth : ℕ} (hs : s.registered) :
    (c.serve depth s).registered = false ↔
      (∃ m, c = .publish m ∧ s.isStuck) ∨ c = .unsubscribe s.id ∨ c.oversize depth := by
  cases c with
  | publish m =>
    show (s.step (.message m)).registered = false ↔ _
    rw [Subscriber.isRegistered_step_iff hs]
    simp [Command.oversize]
  | subscribe capacity =>
    rw [Command.serve_subscribe]
    split <;> simp [*, Command.oversize]
  | unsubscribe j =>
    rw [Command.serve_unsubscribe]
    split <;> simp [*, Command.oversize]
  | receive j =>
    rw [Command.serve_receive]
    split <;> simp [*, Command.oversize, Subscriber.isRegistered_step_iff hs]
  | release j =>
    rw [Command.serve_release]
    split <;> simp [*, Command.oversize]
  | count => simp [Command.serve, Command.share, Command.oversize, hs]

/-! ## Service -/

/-- How a hub has served the subscriber with an id through some commands, at the end of which it is
`s`. -/
structure Served (h : Hub μ) (id : ℕ) (cs : List (Command μ)) (s : Subscriber μ) : Prop where
  subscriber?_eq : (h.run cs).subscriber? id = some s
  /-- What was published until its removal has been received or lost, or is queued. -/
  published_eq : h.heard id cs ++ h.lost id cs ++ s.queue = Command.published (during id h cs)
  lost_eq_nil : s.held → h.lost id cs = []
  length_le : s.queue.length ≤ s.capacity
  registered_iff : s.registered ↔ during id h cs = cs
  removed_iff : s.registered → ∀ c, ((h.run cs).step c).isRegistered id = false ↔
    (∃ m, c = .publish m ∧ (s.queue.length = s.capacity ∨ s.held = false)) ∨
      c = .unsubscribe id ∨ c.oversize h.queueDepth
  /-- After its removal what is queued can be received, and then the stream ends. -/
  drains : s.registered = false → s.held → ∀ later, .release id ∉ later → ∃ t,
    ((h.run cs).run later).subscriber? id = some t ∧
      (h.run cs).heard id later ++ t.queue = s.queue ∧
      (((h.run cs).run later).receive id).map Prod.fst =
        some (t.queue.head?.elim .ended .message)

theorem release_not_mem_shares {depth : ℕ} {cs : List (Command μ)} (h : .release id ∉ cs) :
    .release ∉ shares depth id cs := by
  intro hmem
  obtain ⟨c, hc, hshare⟩ := List.mem_filterMap.mp hmem
  cases c with
  | release j =>
    rw [Command.share] at hshare
    split at hshare
    · next hid => exact h (hid ▸ hc)
    · exact nomatch hshare
  | subscribe | unsubscribe | receive =>
    rw [Command.share] at hshare
    split at hshare <;> exact nomatch hshare
  | publish | count => exact nomatch hshare

theorem fst_receive (s : Subscriber μ) (hs : s.registered = false) :
    s.receive.1 = s.queue.head?.elim .ended .message := by
  obtain ⟨_, _, queue, _, _⟩ := s
  obtain rfl := hs
  cases queue <;> rfl

/-- A subscriber that was removed can receive what is queued, and then its stream ends. -/
theorem WellFormed.drains (hh : h.WellFormed) (hs : h.subscriber? id = some s)
    (hremoved : s.registered = false) (hheld : s.held) {later : List (Command μ)}
    (hlater : .release id ∉ later) : ∃ t, (h.run later).subscriber? id = some t ∧
      h.heard id later ++ t.queue = s.queue ∧
      ((h.run later).receive id).map Prod.fst = some (t.queue.head?.elim .ended .message) := by
  have hshares : .release ∉ shares h.queueDepth id later := release_not_mem_shares hlater
  have ht := hh.subscriber?_run hs later
  refine ⟨_, ht, ?_, ?_⟩
  · rw [hh.heard_eq hs]
    exact Subscriber.drains hremoved hshares
  · rw [receive_eq ht, if_pos (Subscriber.held_run_iff.mpr ⟨hheld, hshares⟩), Option.map_some,
      fst_receive _ (Subscriber.registered_run_eq_false hremoved)]

/-- A hub serves everyone who has just subscribed. -/
theorem WellFormed.served (hh : h.WellFormed) (hs : h.subscriber? id = some s)
    (hsound : s.Sound) (hregistered : s.registered) (hqueue : s.queue = [])
    (cs : List (Command μ)) :
    h.Served id cs (s.run (shares h.queueDepth id cs)) where
  subscriber?_eq := hh.subscriber?_run hs cs
  published_eq := by
    rw [hh.heard_eq hs, hh.lost_eq hs, hh.published_during hs, ← Subscriber.queue_append_published,
      hqueue, List.nil_append]
  lost_eq_nil hheld := by
    rw [hh.lost_eq hs]
    exact Subscriber.discarded_eq_nil (Subscriber.held_run_iff.mp hheld).2
  length_le := (hsound.run _).length_le
  registered_iff := by
    rw [← hh.isRegistered_run hs hregistered, isRegistered, hh.subscriber?_run hs]
    rfl
  removed_iff hstill c := by
    have hrun := hh.subscriber?_run hs cs
    rw [(hh.run cs).isRegistered_step hrun, registered_serve_iff hstill, id_of_subscriber? hrun,
      hh.queueDepth_run]
    simp only [(hsound.run _).isStuck_iff]
  drains hremoved hheld later hlater :=
    (hh.run cs).drains (hh.subscriber?_run hs cs) hremoved hheld hlater

theorem sound_subscriber (id capacity : ℕ) : ({ id, capacity } : Subscriber μ).Sound :=
  ⟨Nat.zero_le _, fun _ => rfl⟩

/-- What a subscription after any commands has made. -/
theorem subscribed {depth : ℕ} {before : List (Command μ)} {capacity : Option ℕ}
    (hsubscribe : ((new depth).run before).subscribe capacity = (.ok id, h)) :
    h.WellFormed ∧ h.queueDepth = max depth 1 ∧
      h.subscriber? id = some { id, capacity := max (capacity.getD (max depth 1)) 1 } := by
  have hnew := (wellFormed_new depth).run before
  have hdepth : ((new depth).run before).queueDepth = max depth 1 :=
    (wellFormed_new depth).queueDepth_run before
  have hs := hnew.subscriber?_subscribe hsubscribe
  obtain ⟨-, -, rfl⟩ := subscribe_eq_ok hsubscribe
  rw [hdepth] at hs
  exact ⟨hnew.step _, (hnew.stepped _).queueDepth_eq.trans hdepth, hs⟩

/-- A subscription after any commands succeeds if no one has asked for a longer queue than there
can be.  Then, after any commands:
* the subscriber has been served, with a queue of the length that it asked for, at least one;
* everyone who subscribes later has a greater id;
* in every other run, after any other commands, a subscriber with a queue of the same length
  receives the same, if its shares of the commands are the same. -/
theorem delivery (depth : ℕ) (before : List (Command μ)) (capacity : Option ℕ) :
    ((∃ id h, ((new depth).run before).subscribe capacity = (.ok id, h)) ↔
      ∀ c ∈ .subscribe capacity :: before, c.oversize (max depth 1) = false) ∧
    ∀ id h, ((new depth).run before).subscribe capacity = (.ok id, h) → ∀ after,
      (∃ s, h.Served id after s ∧ s.capacity = max (capacity.getD (max depth 1)) 1) ∧
      (∀ capacity' id' h', (h.run after).subscribe capacity' = (.ok id', h') → id < id') ∧
      ∀ depth' before' capacity' id' h' after',
        ((new depth').run before').subscribe capacity' = (.ok id', h') →
        max (capacity'.getD (max depth' 1)) 1 = max (capacity.getD (max depth 1)) 1 →
        shares (max depth' 1) id' after' = shares (max depth 1) id after →
        h'.heard id' after' = h.heard id after := by
  constructor
  · rw [isOk_subscribe_iff, (wellFormed_new depth).stopped_run,
      (wellFormed_new depth).queueDepth_run, Bool.or_eq_false_iff, and_comm, List.forall_mem_cons]
    refine and_congr_right fun _ => ?_
    show before.any (Command.oversize (max depth 1)) = false ↔ _
    simp only [List.any_eq_false, Bool.not_eq_true]
  · intro id h hsubscribe after
    obtain ⟨hh, hdepth, hs⟩ := subscribed hsubscribe
    refine ⟨⟨_, hh.served hs (sound_subscriber _ _) rfl rfl after, Subscriber.capacity_run _ _⟩,
      ?_, ?_⟩
    · intro capacity' id' h' hsubscribe'
      obtain ⟨-, rfl, -⟩ := subscribe_eq_ok hsubscribe'
      have hlt : id < h.nextId := id_of_subscriber? hs ▸ hh.id_lt (List.mem_of_find?_eq_some hs)
      exact Nat.lt_of_lt_of_le hlt (hh.nextId_le_run after)
    · intro depth' before' capacity' id' h' after' hsubscribe' hcapacity hshares
      obtain ⟨hh', hdepth', hs'⟩ := subscribed hsubscribe'
      rw [hh'.heard_eq hs', hh.heard_eq hs, hdepth, hdepth', hshares, hcapacity]
      exact Subscriber.received_withId { id, capacity := max (capacity.getD (max depth 1)) 1 } id' _

/-- Five messages for a queue of two, one of which is received in time. -/
def fiveMessages : List (Command ℕ) :=
  [.publish 1, .subscribe (some 1), .publish 2, .receive 1, .publish 3, .publish 4, .publish 5]

theorem delivery_fiveMessages : ∃ id h s,
    ((new 1).run []).subscribe (some 2) = (.ok id, h) ∧ h.Served id fiveMessages s ∧
    s.registered = false ∧ h.heard id fiveMessages = [1] ∧ s.queue = [2, 3] ∧
    Command.published (during id h fiveMessages) = [1, 2, 3] := by
  obtain ⟨hok, hserved⟩ := delivery 1 ([] : List (Command ℕ)) (some 2)
  obtain ⟨id, h, hsubscribe⟩ := hok.mpr (by decide)
  obtain ⟨⟨s, hs, -⟩, -⟩ := hserved id h hsubscribe fiveMessages
  obtain ⟨-, rfl, rfl⟩ := subscribe_eq_ok hsubscribe
  have hend := hs.subscriber?_eq
  have hfound : ((((new 1).run []).step (.subscribe (some 2))).run fiveMessages).subscriber? 1 =
      some { id := 1, capacity := 2, queue := [2, 3], registered := false } := by decide
  obtain rfl := Option.some.inj (hfound.symm.trans hend)
  exact ⟨_, _, _, hsubscribe, hs, rfl, by decide, rfl, by decide⟩

/-- Two messages, with a request for too long a queue between them. -/
def oversizeRequest : List (Command ℕ) :=
  [.publish 1, .subscribe (some (maxCapacity + 1)), .publish 2]

/-- The request removes a subscriber that has received nothing and has room for more, so it misses
the second message. -/
theorem delivery_stops : ∃ id h s,
    (new 1).subscribe (some 2) = (.ok id, h) ∧ (h.run oversizeRequest).subscriber? id = some s ∧
    s.registered = false ∧ s.held ∧ s.queue.length < s.capacity ∧
    h.heard id oversizeRequest ++ s.queue = [1] ∧ Command.published oversizeRequest = [1, 2] :=
  ⟨1, (new 1).step (.subscribe (some 2)),
    { id := 1, capacity := 2, queue := [1], registered := false },
    by decide, by decide, rfl, rfl, by decide, by decide, by decide⟩

end Hub

end SimBroker
