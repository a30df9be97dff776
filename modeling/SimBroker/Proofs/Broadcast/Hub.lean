import SimBroker.Proofs.Broadcast.Subscriber
import Mathlib.Data.List.Nodup

/-!
# Subscribers and their shares of commands

A hub serves its subscribers one by one: what a command does to a subscriber is its share of the
command, and the other subscribers have no part in it.  The one command that reaches every
subscriber is a request for a longer queue than there can be, which stops the hub.

## Main definitions

* `Command.share`: the share of a command that the subscriber with an id has
* `Command.oversize`: whether a command asks for a longer queue than there can be
* `WellFormed`: what holds of every hub that commands have made
* `Stepped`: a hub after one command

## Main results

* `WellFormed.stepped`, `WellFormed.step`: what one command does
* `WellFormed.subscriber?_run`: a subscriber after commands is the subscriber after its shares
-/

namespace SimBroker

namespace Hub

variable {μ : Type} {h h' : Hub μ} {id : ℕ} {s : Subscriber μ} {c : Command μ}
  {cs : List (Command μ)} {capacity : Option ℕ}

/-! ## Commands and their shares -/

/-- Whether a subscriber asks for a longer queue than there can be. -/
def tooLong (depth : ℕ) (capacity : Option ℕ) : Bool :=
  decide (maxCapacity < max (capacity.getD depth) 1)

namespace Command

/-- Whether a command asks for a longer queue than there can be. -/
def oversize (depth : ℕ) : Command μ → Bool
  | .subscribe capacity => tooLong depth capacity
  | _ => false

/-- The share of a command that the subscriber with an id has, if any. -/
def share (depth id : ℕ) : Command μ → Option (Share μ)
  | .subscribe capacity => if tooLong depth capacity then some .removal else none
  | .unsubscribe j => if j = id then some .removal else none
  | .publish m => some (.message m)
  | .count => none
  | .receive j => if j = id then some .receive else none
  | .release j => if j = id then some .release else none

end Command

/-- The shares of some commands that the subscriber with an id has. -/
def shares (depth id : ℕ) (cs : List (Command μ)) : List (Share μ) :=
  cs.filterMap (Command.share depth id)

/-! ## One command -/

/-- What holds of every hub that commands have made: ids are given in turn, and nobody is
registered at a hub that has stopped. -/
structure WellFormed (h : Hub μ) : Prop where
  ids_eq : h.subscribers.map Subscriber.id = List.range' 1 h.subscribers.length
  nextId_eq : h.nextId = 1 + h.subscribers.length
  registered_of_stopped : h.stopped → ∀ s ∈ h.subscribers, s.registered = false

theorem wellFormed_new (depth : ℕ) : (new depth : Hub μ).WellFormed :=
  ⟨rfl, rfl, fun _ => List.forall_mem_nil _⟩

theorem WellFormed.id_lt (hh : h.WellFormed) (hs : s ∈ h.subscribers) : s.id < h.nextId := by
  have hid : s.id ∈ List.range' 1 h.subscribers.length := hh.ids_eq ▸ List.mem_map_of_mem hs
  rw [hh.nextId_eq]
  exact (List.mem_range'_1.mp hid).2

theorem id_of_subscriber? (hs : h.subscriber? id = some s) : s.id = id := by
  simpa using List.find?_some hs

/-- The subscribers are those that their ids find. -/
theorem WellFormed.subscriber?_id (hh : h.WellFormed) (hs : s ∈ h.subscribers) :
    h.subscriber? s.id = some s := by
  cases hfind : h.subscriber? s.id with
  | none => simpa using List.find?_eq_none.mp hfind s hs
  | some t =>
    have ht := List.mem_of_find?_eq_some hfind
    have hnodup : (h.subscribers.map Subscriber.id).Nodup := hh.ids_eq ▸ List.nodup_range'
    rw [List.inj_on_of_nodup_map hnodup ht hs (id_of_subscriber? hfind)]

/-- A subscriber after its share of a command. -/
def Command.serve (c : Command μ) (depth : ℕ) (s : Subscriber μ) : Subscriber μ :=
  (c.share depth s.id).elim s s.step

section Serve

variable (depth j : ℕ) (s : Subscriber μ)

theorem elim_ite {p : Prop} [Decidable p] (x : Share μ) :
    (if p then some x else none).elim s s.step = if p then s.step x else s := by
  split <;> rfl

theorem Command.serve_subscribe (capacity : Option ℕ) :
    (subscribe capacity).serve depth s =
      if tooLong depth capacity then { s with registered := false } else s :=
  elim_ite s _

theorem Command.serve_unsubscribe :
    (unsubscribe j).serve depth s = if j = s.id then { s with registered := false } else s :=
  elim_ite s _

theorem Command.serve_receive :
    (receive j).serve depth s = if j = s.id then s.step .receive else s :=
  elim_ite s _

theorem Command.serve_release :
    (release j).serve depth s = if j = s.id then { s with held := false, queue := [] } else s :=
  elim_ite s _

end Serve

theorem Command.id_serve (c : Command μ) (depth : ℕ) (s : Subscriber μ) :
    (c.serve depth s).id = s.id := by
  unfold serve
  cases c.share depth s.id with
  | none => rfl
  | some x => exact s.id_step x

theorem Command.registered_serve (c : Command μ) (depth : ℕ) (hs : s.registered = false) :
    (c.serve depth s).registered = false := by
  unfold serve
  cases c.share depth s.id with
  | none => exact hs
  | some x => exact Subscriber.registered_step_eq_false hs

/-- A request that stops the hub removes everyone. -/
theorem Command.registered_serve_of_oversize {depth : ℕ} (hc : c.oversize depth)
    (s : Subscriber μ) : (c.serve depth s).registered = false := by
  cases c with
  | subscribe capacity =>
    have htooLong : tooLong depth capacity := hc
    rw [serve_subscribe, if_pos htooLong]
  | _ => exact nomatch hc

/-- Who subscribes by a command. -/
def fresh (h : Hub μ) : Command μ → List (Subscriber μ)
  | .subscribe capacity =>
    if h.stopped || tooLong h.queueDepth capacity then []
    else [{ id := h.nextId, capacity := max (capacity.getD h.queueDepth) 1 }]
  | _ => []

/-- A request is met by a running hub, if there can be the queue, and the next id is given. -/
theorem fresh_cases (h : Hub μ) (c : Command μ) :
    h.fresh c = [] ∨ (h.stopped || c.oversize h.queueDepth) = false ∧
      ∃ s, h.fresh c = [s] ∧ s.id = h.nextId := by
  cases c with
  | subscribe capacity =>
    by_cases hrefused : (h.stopped || tooLong h.queueDepth capacity) = true
    · exact .inl (if_pos hrefused)
    · exact .inr ⟨Bool.eq_false_iff.mpr hrefused, _, if_neg hrefused, rfl⟩
  | _ => exact .inl rfl

/-- A hub after one command, as far as later commands depend on it. -/
structure Stepped (h : Hub μ) (c : Command μ) (h' : Hub μ) : Prop where
  queueDepth_eq : h'.queueDepth = h.queueDepth
  subscribers_eq : h'.subscribers = h.subscribers.map (c.serve h.queueDepth) ++ h.fresh c
  nextId_eq : h'.nextId = h.nextId + (h.fresh c).length
  stopped_eq : h'.stopped = (h.stopped || c.oversize h.queueDepth)

theorem stepped_report {h₁ : Hub μ} (hstep : h.Stepped c h₁) : h.Stepped c h₁.report := by
  unfold report
  split
  · exact hstep
  · exact ⟨hstep.queueDepth_eq, hstep.subscribers_eq, hstep.nextId_eq, hstep.stopped_eq⟩

/-- A command that changes the subscribers there are, and adds none. -/
theorem stepped_map {f : Subscriber μ → Subscriber μ} (hfresh : h.fresh c = [])
    (hf : ∀ s ∈ h.subscribers, f s = c.serve h.queueDepth s) (hdepth : h'.queueDepth = h.queueDepth)
    (hsubscribers : h'.subscribers = h.subscribers.map f) (hnextId : h'.nextId = h.nextId)
    (hstopped : h'.stopped = (h.stopped || c.oversize h.queueDepth)) : h.Stepped c h' := by
  refine ⟨hdepth, ?_, ?_, hstopped⟩
  · rw [hfresh, List.append_nil, hsubscribers]
    exact List.map_congr_left hf
  · rw [hfresh]
    exact hnextId

/-- Where no subscriber has a share of it, a command that adds none changes nothing. -/
theorem stepped_self (hfresh : h.fresh c = []) (hoversize : c.oversize h.queueDepth = false)
    (hshare : ∀ s ∈ h.subscribers, c.serve h.queueDepth s = s) : h.Stepped c h :=
  stepped_map (f := id) hfresh (fun s hs => (hshare s hs).symm) rfl (List.map_id _).symm rfl
    (by rw [hoversize, Bool.or_false])

/-- A hub that stops removes every subscriber, if it has not done so before. -/
theorem WellFormed.stepped_stop (hh : h.WellFormed)
    (hrefused : (h.stopped || tooLong h.queueDepth capacity) = true) :
    h.Stepped (.subscribe capacity) h.stop := by
  refine stepped_map (if_pos hrefused) (fun s hs => ?_) rfl rfl rfl hrefused.symm
  rw [Command.serve_subscribe]
  split
  · rfl
  · next hfits =>
    have hstopped : h.stopped := by simpa [hfits] using hrefused
    rw [← hh.registered_of_stopped hstopped s hs]

/-- A new subscriber gets the next id. -/
theorem stepped_subscribe
    (haccepted : ¬ (h.stopped || tooLong h.queueDepth capacity) = true)
    (hdepth : h'.queueDepth = h.queueDepth) (hsubscribers : h'.subscribers = h.subscribers ++
      [{ id := h.nextId, capacity := max (capacity.getD h.queueDepth) 1 }])
    (hnextId : h'.nextId = h.nextId + 1) (hstopped : h'.stopped = h.stopped) :
    h.Stepped (.subscribe capacity) h' := by
  have hfresh : h.fresh (.subscribe capacity) =
      [{ id := h.nextId, capacity := max (capacity.getD h.queueDepth) 1 }] := if_neg haccepted
  obtain ⟨-, hfits⟩ := Bool.or_eq_false_iff.mp (Bool.eq_false_iff.mpr haccepted)
  have hserve : (Command.subscribe capacity : Command μ).serve h.queueDepth = id := by
    funext s
    rw [Command.serve_subscribe, hfits]
    rfl
  refine ⟨hdepth, ?_, ?_, ?_⟩
  · rw [hfresh, hsubscribers, hserve, List.map_id]
  · rw [hfresh]
    exact hnextId
  · rw [Command.oversize, hfits, Bool.or_false, hstopped]

theorem WellFormed.stepped_receive (hh : h.WellFormed) (j : ℕ) :
    h.Stepped (.receive j) (h.step (.receive j)) := by
  show h.Stepped _ ((h.receive j).map Prod.snd |>.getD h)
  unfold receive
  cases hfind : h.subscriber? j with
  | none =>
    refine stepped_self rfl rfl fun s hs => ?_
    rw [Command.serve_receive, if_neg]
    rintro rfl
    exact nomatch hfind.symm.trans (hh.subscriber?_id hs)
  | some t =>
    -- an id finds only one subscriber
    have hshare (s : Subscriber μ) (hs : s ∈ h.subscribers) (hid : j = s.id) : s = t := by
      subst hid
      exact Option.some.inj ((hh.subscriber?_id hs).symm.trans hfind)
    show h.Stepped _ ((if t.held then _ else _ : Option _).map _ |>.getD h)
    split
    · next hheld =>
      refine stepped_map rfl (fun s hs => ?_) rfl rfl rfl (Bool.or_false _).symm
      rw [Command.serve_receive, Subscriber.step]
      by_cases hid : j = s.id
      · rw [hshare s hs hid, if_pos (id_of_subscriber? hfind), if_pos hheld,
          if_pos (id_of_subscriber? hfind).symm]
        rfl
      · rw [if_neg (Ne.symm hid), if_neg hid]
    · next hgone =>
      refine stepped_self rfl rfl fun s hs => ?_
      rw [Command.serve_receive, Subscriber.step]
      by_cases hid : j = s.id
      · rw [hshare s hs hid, if_neg hgone, ite_self]
      · rw [if_neg hid]

theorem WellFormed.stepped (hh : h.WellFormed) (c : Command μ) : h.Stepped c (h.step c) := by
  cases c with
  | subscribe capacity =>
    unfold step subscribe
    dsimp only
    split
    · next hrefused => exact hh.stepped_stop hrefused
    · next haccepted => exact stepped_report (stepped_subscribe haccepted rfl rfl rfl rfl)
  | unsubscribe j =>
    refine stepped_report (stepped_map rfl (fun s _ => ?_) rfl rfl rfl (Bool.or_false _).symm)
    rw [Command.serve_unsubscribe]
    exact if_congr eq_comm rfl rfl
  | publish m =>
    exact stepped_report (stepped_map rfl (fun _ _ => rfl) rfl rfl rfl (Bool.or_false _).symm)
  | count => exact stepped_report (stepped_self rfl rfl fun _ _ => rfl)
  | receive j => exact hh.stepped_receive j
  | release j =>
    refine stepped_map rfl (fun s _ => ?_) rfl rfl rfl (Bool.or_false _).symm
    rw [Command.serve_release]
    exact if_congr eq_comm rfl rfl

/-- A hub stays one that commands have made. -/
theorem WellFormed.step (hh : h.WellFormed) (c : Command μ) : (h.step c).WellFormed := by
  obtain ⟨-, hsubscribers, hnextId, hstopped⟩ := hh.stepped c
  have hids : (h.step c).subscribers.map Subscriber.id =
      List.range' 1 h.subscribers.length ++ (h.fresh c).map Subscriber.id := by
    rw [hsubscribers, List.map_append, List.map_map, ← hh.ids_eq]
    congr 1
    exact List.map_congr_left fun s _ => c.id_serve h.queueDepth s
  have hlength : (h.step c).subscribers.length = h.subscribers.length + (h.fresh c).length := by
    rw [hsubscribers, List.length_append, List.length_map]
  refine ⟨?_, ?_, fun hstop s hs => ?_⟩
  · rw [hids, hlength]
    rcases h.fresh_cases c with hfresh | ⟨-, s, hfresh, hid⟩ <;> rw [hfresh]
    · exact List.append_nil _
    · rw [List.length_singleton, List.range'_concat, List.map_singleton, hid, hh.nextId_eq,
        Nat.one_mul]
  · rw [hnextId, hlength, hh.nextId_eq, Nat.add_assoc]
  · rw [hstopped] at hstop
    -- nobody has come, and those who were there are removed, now or before
    rcases h.fresh_cases c with hfresh | ⟨haccepted, -⟩
    · rw [hsubscribers, hfresh, List.append_nil] at hs
      obtain ⟨t, ht, rfl⟩ := List.mem_map.mp hs
      rcases (Bool.or_eq_true ..).mp hstop with hstop | hover
      · exact c.registered_serve _ (hh.registered_of_stopped hstop t ht)
      · exact Command.registered_serve_of_oversize hover t
    · exact nomatch haccepted.symm.trans hstop

/-- A subscriber after a command is the subscriber after its share. -/
theorem WellFormed.subscriber?_step (hh : h.WellFormed) (hs : h.subscriber? id = some s)
    (c : Command μ) : (h.step c).subscriber? id = some (c.serve h.queueDepth s) := by
  have hid : ((fun s : Subscriber μ => decide (s.id = id)) ∘ c.serve h.queueDepth) =
      fun s => decide (s.id = id) := by
    funext s
    simp [c.id_serve]
  unfold subscriber? at hs ⊢
  rw [(hh.stepped c).subscribers_eq, List.find?_append, List.find?_map, hid, hs]
  rfl

/-! ## Runs of commands -/

theorem WellFormed.queueDepth_run (hh : h.WellFormed) (cs : List (Command μ)) :
    (h.run cs).queueDepth = h.queueDepth := by
  induction cs generalizing h with
  | nil => rfl
  | cons c cs ih => exact (ih (hh.step c)).trans (hh.stepped c).queueDepth_eq

theorem WellFormed.run (hh : h.WellFormed) (cs : List (Command μ)) : (h.run cs).WellFormed := by
  induction cs generalizing h with
  | nil => exact hh
  | cons c cs ih => exact ih (hh.step c)

theorem run_shares_cons (depth : ℕ) (hid : s.id = id) (c : Command μ) (cs : List (Command μ)) :
    s.run (shares depth id (c :: cs)) = (c.serve depth s).run (shares depth id cs) := by
  subst hid
  unfold shares Command.serve
  rw [List.filterMap_cons]
  cases c.share depth s.id <;> rfl

/-- A subscriber after some commands is the subscriber after its shares. -/
theorem WellFormed.subscriber?_run (hh : h.WellFormed) (hs : h.subscriber? id = some s)
    (cs : List (Command μ)) :
    (h.run cs).subscriber? id = some (s.run (shares h.queueDepth id cs)) := by
  induction cs generalizing h s with
  | nil => exact hs
  | cons c cs ih =>
    rw [run_shares_cons _ (id_of_subscriber? hs), ← (hh.stepped c).queueDepth_eq]
    exact ih (hh.step c) (hh.subscriber?_step hs c ▸ (hh.stepped c).queueDepth_eq ▸ rfl)

theorem WellFormed.nextId_le_run (hh : h.WellFormed) (cs : List (Command μ)) :
    h.nextId ≤ (h.run cs).nextId := by
  induction cs generalizing h with
  | nil => exact Nat.le_refl _
  | cons c cs ih =>
    have hle : h.nextId ≤ (h.step c).nextId := (hh.stepped c).nextId_eq ▸ Nat.le_add_right _ _
    exact Nat.le_trans hle (ih (hh.step c))

/-- A hub stops at the first request for a longer queue than there can be. -/
theorem WellFormed.stopped_run (hh : h.WellFormed) (cs : List (Command μ)) :
    (h.run cs).stopped = (h.stopped || cs.any (Command.oversize h.queueDepth)) := by
  induction cs generalizing h with
  | nil => exact (Bool.or_false _).symm
  | cons c cs ih =>
    rw [List.any_cons, ← Bool.or_assoc, ← (hh.stepped c).stopped_eq, ← (hh.stepped c).queueDepth_eq]
    exact ih (hh.step c)

/-! ## Recorders -/

/-- A hub with one subscriber, which has room for `n` messages. -/
def recorder (n : ℕ) : Hub μ where
  queueDepth := n
  nextId := 2
  subscribers := [{ id := 1, capacity := n }]

theorem run_publish_append (h : Hub μ) (ms ms' : List μ) :
    h.run ((ms ++ ms').map .publish) = (h.run (ms.map .publish)).run (ms'.map .publish) := by
  rw [List.map_append]
  exact List.foldl_append

/-- What a recorder with room for it was sent is told by what the recorder is then. -/
theorem eq_of_run_recorder {ms ms' : List μ}
    (h : (recorder ms.length).run (ms.map .publish) =
      (recorder ms.length).run (ms'.map .publish)) : ms' = ms := by
  have hshares (sent : List μ) :
      shares ms.length 1 (sent.map Command.publish) = sent.map Share.message := by
    rw [shares, List.filterMap_map]
    exact congrFun List.filterMap_eq_map sent
  have hwell : (recorder ms.length : Hub μ).WellFormed := ⟨rfl, rfl, nofun⟩
  have hrun (sent : List μ) : ((recorder ms.length).run (sent.map .publish)).subscriber? 1 =
      some (Subscriber.run { id := 1, capacity := ms.length } (sent.map .message)) := by
    rw [hwell.subscriber?_run rfl, ← hshares]
    rfl
  have hkept : Subscriber.run { id := 1, capacity := ms.length } (ms.map .message) =
      { id := 1, capacity := ms.length, queue := ms } :=
    Subscriber.run_messages rfl rfl (Nat.le_of_eq (Nat.zero_add _))
  have heq := (hrun ms').symm.trans ((congrArg (subscriber? · 1) h.symm).trans (hrun ms))
  rw [hkept, Option.some.injEq] at heq
  -- the recorder is still registered, so it has all that it was sent
  have hqueue := Subscriber.queue_run_messages (congrArg Subscriber.registered heq)
  rw [heq] at hqueue
  exact hqueue.symm

/-! ## Subscriptions -/

/-- A request is met unless the hub has stopped, or stops now. -/
theorem subscribe_cases (h : Hub μ) (capacity : Option ℕ) :
    ((h.stopped || tooLong h.queueDepth capacity) = true ∧
      ∃ e, (h.subscribe capacity).1 = .error e) ∨
    ((h.stopped || tooLong h.queueDepth capacity) = false ∧
      (h.subscribe capacity).1 = .ok h.nextId) := by
  unfold subscribe
  dsimp only
  split
  · next hrefused => exact .inl ⟨hrefused, _, rfl⟩
  · next haccepted => exact .inr ⟨Bool.eq_false_iff.mpr haccepted, rfl⟩

theorem subscribe_eq_ok (hsubscribe : h.subscribe capacity = (.ok id, h')) :
    (h.stopped || tooLong h.queueDepth capacity) = false ∧
      id = h.nextId ∧ h' = h.step (.subscribe capacity) := by
  rcases h.subscribe_cases capacity with ⟨-, e, he⟩ | ⟨haccepted, hid⟩
  · rw [hsubscribe] at he
    exact nomatch he
  · rw [hsubscribe] at hid
    exact ⟨haccepted, Except.ok.inj hid, (congrArg Prod.snd hsubscribe).symm⟩

theorem isOk_subscribe_iff :
    (∃ id h', h.subscribe capacity = (.ok id, h')) ↔
      (h.stopped || tooLong h.queueDepth capacity) = false := by
  constructor
  · rintro ⟨id, h', hsubscribe⟩
    exact (subscribe_eq_ok hsubscribe).1
  · intro haccepted
    rcases h.subscribe_cases capacity with ⟨hrefused, -⟩ | ⟨-, hid⟩
    · exact nomatch haccepted.symm.trans hrefused
    · exact ⟨h.nextId, (h.subscribe capacity).2, Prod.ext hid rfl⟩

/-- Who has subscribed is there under the id that was given. -/
theorem WellFormed.subscriber?_subscribe (hh : h.WellFormed)
    (hsubscribe : h.subscribe capacity = (.ok id, h')) :
    h'.subscriber? id = some { id, capacity := max (capacity.getD h.queueDepth) 1 } := by
  obtain ⟨haccepted, rfl, rfl⟩ := subscribe_eq_ok hsubscribe
  have hfresh : h.fresh (.subscribe capacity) = [_] := if_neg (Bool.eq_false_iff.mp haccepted)
  unfold subscriber?
  rw [(hh.stepped _).subscribers_eq, hfresh, List.find?_append, List.find?_eq_none.mpr]
  · simp
  · -- those who were there before have smaller ids
    refine List.forall_mem_map.mpr fun s hs => ?_
    rw [Command.id_serve, decide_eq_true_eq]
    exact Nat.ne_of_lt (hh.id_lt hs)

end Hub

end SimBroker
