import SimBroker.Proofs.Risk.Log
import SimBroker.Proofs.Session.Sync

/-!
# What a call records and publishes

The log of the risk manager is bounded, so it does not show how much a call has added to it, and a
hub without subscribers does not show what was published.  But no call looks at the log or at the
hub: whatever these hold, the call does the same, adds the same to the log and publishes the same
messages.  So a call records what it leaves in a log that was empty, and publishes what it does to
all hubs.

## Main definitions

* `Sends`: what an action publishes to whatever hub, and how it ends
* `Alike`: an action does the same whatever the log and the hub hold
* `recorded`, `recordedIn`: what a call, and what a run of calls, adds to the log

## Main results

* `Alike.bind`, `Alike.get`: an action is alike if its parts are
* `alike_perform`: every call is alike
* `Alike.exists_messages`: the messages of an action, whatever hub it finds
* `perform_unlogged`: a call does the same with an empty log, and leaves there what it records
-/

namespace SimBroker

namespace Session

open Session.Action

variable {α β : Type} {s s' t : Session} {clock : Clock} {earlier : List RiskEvent}
  {hub : Hub Message} {ms : List Message} {a : α}

/-- The session with earlier entries behind those of its log, and with another hub. -/
def within (earlier : List RiskEvent) (hub : Hub Message) (s : Session) : Session :=
  { s with risk := s.risk.behind earlier, hub }

/-- The session with earlier entries behind those of its log. -/
def behind (earlier : List RiskEvent) (s : Session) : Session := s.within earlier s.hub

/-- An action, which may take the earlier entries from the log, publishes messages to whatever hub,
and ends in the same session apart from the log and the hub. -/
def Sends (x : List RiskEvent → Action α) (s : Session) (a : α) (ms : List Message) (t : Session) :
    Prop :=
  ∀ earlier hub, (x earlier).run (s.within earlier hub) =
    .ok a (t.within earlier (hub.run (ms.map .publish)))

/-- An action does the same whatever the log and the hub hold. -/
def Alike (x : List RiskEvent → Action α) : Prop :=
  ∀ s earlier hub a s', (x earlier).run (s.within earlier hub) = .ok a s' →
    ∃ t ms, Sends x s a ms t

theorem Sends.eq_within {x : List RiskEvent → Action α} (h : Sends x s a ms t)
    (hrun : (x earlier).run (s.within earlier hub) = .ok a s') :
    s' = t.within earlier (hub.run (ms.map .publish)) := by
  rw [h, EStateM.Result.ok.injEq] at hrun
  exact hrun.2.symm

namespace Alike

/-! ## Actions in general -/

theorem pure (a : α) : Alike fun _ => (pure a : Action α) := by
  intro s earlier hub b s' h
  obtain ⟨rfl, -⟩ := pure_eq_ok.mp h
  exact ⟨s, [], fun _ _ => rfl⟩

theorem bind {x : List RiskEvent → Action α} {f : List RiskEvent → α → Action β} (hx : Alike x)
    (hf : ∀ a, Alike fun earlier => f earlier a) :
    Alike fun earlier => x earlier >>= f earlier := by
  intro s earlier hub b s' h
  obtain ⟨a, s₁, hrun, h⟩ := bind_eq_ok.mp h
  obtain ⟨t₁, ms, hsends⟩ := hx _ _ _ _ _ hrun
  obtain rfl := hsends.eq_within hrun
  -- the second action finds a hub that has the messages of the first
  obtain ⟨t, ms', hsends'⟩ := hf a _ _ _ _ _ h
  refine ⟨t, ms ++ ms', fun earlier hub => ?_⟩
  rw [Hub.run_publish_append]
  exact bind_eq_ok.mpr ⟨a, _, hsends earlier hub, hsends' earlier _⟩

/-- What is done with the session may depend on the earlier entries. -/
theorem get_behind {f : Session → Action α}
    (hf : ∀ s earlier hub, f (within earlier hub s) = f (behind earlier s))
    (h : ∀ s, Alike fun earlier => f (behind earlier s)) : Alike fun _ => get >>= f := by
  intro s earlier hub a s' hrun
  obtain ⟨_, _, hget, hrun⟩ := bind_eq_ok.mp hrun
  obtain ⟨rfl, rfl⟩ := get_eq_ok.mp hget
  rw [hf] at hrun
  obtain ⟨t, ms, hsends⟩ := h s s _ _ _ _ hrun
  refine ⟨t, ms, fun earlier hub => bind_eq_ok.mpr ⟨_, _, get_eq_ok.mpr ⟨rfl, rfl⟩, ?_⟩⟩
  rw [hf]
  exact hsends earlier hub

theorem get {f : Session → Action α} (hf : ∀ s earlier hub, f (within earlier hub s) = f s)
    (h : ∀ s, Alike fun _ => f s) : Alike fun _ => get >>= f := by
  refine get_behind (fun s earlier hub => ?_) fun s => ?_
  · rw [hf, behind, hf]
  · simp only [behind, hf]
    exact h s

/-- A manager with the earlier entries in its log takes the place of the one before. -/
theorem modify_risk {f : List RiskEvent → Session → Session} (g : Session → Session)
    (h : ∀ s earlier hub, f earlier (within earlier hub s) = within earlier hub (g s)) :
    Alike fun earlier => modify (f earlier) := by
  intro s earlier hub u s' hrun
  exact ⟨g s, [], fun earlier hub => modify_eq_ok.mpr (h s earlier hub)⟩

theorem modify {f : Session → Session}
    (h : ∀ s earlier hub, f (within earlier hub s) = within earlier hub (f s)) :
    Alike fun _ => modify f :=
  modify_risk f h

theorem compute (x : Calc α) : Alike fun _ => Session.compute x := by
  intro s earlier hub a s' h
  obtain ⟨hx, rfl⟩ := compute_eq_ok.mp h
  exact ⟨s, [], fun _ _ => compute_eq_ok.mpr ⟨hx, rfl⟩⟩

/-- A calculation whose result differs by the earlier entries only. -/
theorem compute_map {x : List RiskEvent → Calc α} {y : Calc α} {f : List RiskEvent → α → α}
    {k : α → Action β} (hx : ∀ earlier, x earlier = f earlier <$> y)
    (hk : ∀ a, Alike fun earlier => k (f earlier a)) :
    Alike fun earlier => Session.compute (x earlier) >>= k := by
  obtain rfl : x = fun earlier => f earlier <$> y := funext hx
  cases y with
  | ok a => exact hk a
  | error e =>
    -- after a fault there is no end to compare
    intro s earlier hub b s' hrun
    obtain ⟨_, _, herror, -⟩ := bind_eq_ok.mp hrun
    exact nomatch (compute_eq_ok.mp herror).1

theorem ite {c : Prop} [Decidable c] {x y : List RiskEvent → Action α} (hx : Alike x)
    (hy : Alike y) : Alike fun earlier => if c then x earlier else y earlier := by
  split
  · exact hx
  · exact hy

theorem discard {x : List RiskEvent → Action α} (hx : Alike x) :
    Alike fun earlier => discard (x earlier) := by
  intro s earlier hub u s' h
  obtain ⟨a, hrun⟩ := discard_eq_ok.mp h
  obtain ⟨t, ms, hsends⟩ := hx _ _ _ _ _ hrun
  exact ⟨t, ms, fun earlier hub => discard_eq_ok.mpr ⟨a, hsends earlier hub⟩⟩

theorem forEach {f : α → Clock → Action Unit} (hf : ∀ a clock, Alike fun _ => f a clock) (n : ℕ)
    (xs : List α) (clock : Clock) : Alike fun _ => Session.forEach n f xs clock := by
  induction xs generalizing clock with
  | nil => exact pure clock
  | cons x xs ih => exact (hf x clock).bind fun _ => ih (clock.after n)

end Alike

/-! ## Messages and logs -/

theorem alike_publish (payload : Payload) (now : Instant) : Alike fun _ => publish payload now := by
  intro s earlier hub u s' h
  exact ⟨s, [⟨payload, now⟩], fun _ _ => rfl⟩

theorem alike_pushError (source message : String) (clock : Clock) :
    Alike fun _ => pushError source message clock := by
  unfold pushError
  exact .bind (.modify fun _ _ _ => rfl) fun _ => alike_publish _ _

theorem alike_recordSignal (signal : Signal) (outcome : SignalOutcome) (clock : Clock) :
    Alike fun _ => recordSignal signal outcome clock := by
  unfold recordSignal
  exact .bind (.modify fun _ _ _ => rfl) fun _ => alike_publish _ _

theorem alike_handleError (source : String) (e : TradingError) (clock : Clock) :
    Alike fun _ => handleError source e clock := by
  unfold handleError
  cases e with
  | invariantViolation message =>
    -- the halt is logged behind the earlier entries
    refine .bind (.modify fun s earlier hub => ?_) fun _ =>
      .bind (.modify fun _ _ _ => rfl) fun _ => alike_pushError _ _ _
    exact congrArg (fun risk => { s with risk, status := .halted, hub })
      (RiskManager.halt_behind (.invariantViolation message))
  | _ => exact .bind (.modify fun _ _ _ => rfl) fun _ => alike_pushError _ _ _

/-! ## Bringing the session up to date -/

theorem alike_forward (event : LedgerEvent) (clock : Clock) :
    Alike fun _ => forward event clock := by
  unfold forward
  cases event with
  | position change position trade =>
    cases trade with
    | none => exact alike_publish _ _
    | some trade =>
      have hpublish : Alike fun _ =>
          (do publish (.trade trade) (clock 1); publish (.position ⟨change, position⟩) (clock 2)) :=
        .bind (alike_publish _ _) fun _ => alike_publish _ _
      refine .ite (.get_behind (fun _ _ _ => rfl) fun s => ?_) hpublish
      refine .compute_map (fun _ => RiskManager.recordTrade_behind _) fun risk => ?_
      exact .bind (.modify_risk (fun s => { s with risk }) fun _ _ _ => rfl) fun _ => hpublish
  | _ => exact .pure ()

theorem alike_drain (clock : Clock) : Alike fun _ => drain clock := by
  unfold drain
  exact .get (fun _ _ _ => rfl) fun s => .bind (.modify fun _ _ _ => rfl) fun _ =>
    .forEach alike_forward 3 s.ledger.takeEvents.1 clock

theorem alike_sync (clock : Clock) : Alike fun _ => sync clock := by
  unfold sync
  refine .bind (alike_drain clock) fun clock => .get (fun _ _ _ => rfl) fun s => ?_
  refine .bind (.compute _) fun account => .get_behind (fun _ _ _ => rfl) fun s => ?_
  refine .compute_map (fun _ => RiskManager.updateEquity_behind _) fun risk => ?_
  refine .bind (.compute (risk.status (clock 2))) fun status => ?_
  -- the manager has logged the same for the next taker
  refine .bind (.modify_risk (fun s => { s with
    risk := risk.takeNewEvents.2
    status := if risk.isHalted ∧ (s.status = .running ∨ s.status = .paused) then .halted
      else s.status }) fun _ _ _ => rfl) fun _ => ?_
  have hrisks := Alike.forEach (fun e clock => alike_publish (.risk e) (clock 0)) 1
    risk.takeNewEvents.1 (clock.after 3)
  refine .bind hrisks fun clock => ?_
  refine .bind (.modify fun _ _ _ => rfl) fun _ => .get (fun _ _ _ => rfl) fun s => ?_
  exact .bind (.modify fun _ _ _ => rfl) fun _ => alike_publish _ _

/-! ## The calls -/

theorem alike_sync_pure (a : α) (clock : Clock) : Alike fun _ => do sync clock; return a :=
  .bind (alike_sync clock) fun _ => .pure a

theorem alike_onLedger (f : Ledger → Calc (Ledger × α)) : Alike fun _ => onLedger f := by
  unfold onLedger
  exact .get (fun _ _ _ => rfl) fun s => .bind (.compute (f s.ledger)) fun _ =>
    .bind (.modify fun _ _ _ => rfl) fun _ => .pure _

theorem alike_evaluate (signal : Signal) (clock : Clock) :
    Alike fun _ => evaluate signal clock := by
  unfold evaluate
  refine .get (fun _ _ _ => rfl) fun s => ?_
  refine .bind (.compute (s.ledger.summary (clock 0))) fun account => ?_
  refine .get_behind (fun _ _ _ => rfl) fun s => ?_
  refine .compute_map (fun _ => RiskManager.evaluate_behind signal account.exposure) fun m => ?_
  exact .bind (.modify_risk (fun s => { s with risk := m.1 }) fun _ _ _ => rfl) fun _ => .pure _

theorem alike_evaluateAndPlace (signal : Signal) (clock : Clock) :
    Alike fun _ => evaluateAndPlace signal clock := by
  unfold evaluateAndPlace
  refine .get (fun _ _ _ => rfl) fun s => .ite (.pure _) ?_
  refine .bind (alike_evaluate signal clock) fun outcome => ?_
  split
  · exact .pure _
  · exact .pure _
  · refine .bind (alike_onLedger _) fun placed => ?_
    split <;> exact .pure _

theorem alike_onSignal (signal : Signal) (clock : Clock) :
    Alike fun _ => onSignal signal clock := by
  unfold onSignal
  refine .get (fun _ _ _ => rfl) fun s => ?_
  refine .ite (.bind (alike_recordSignal _ _ _) fun _ => .pure _) ?_
  refine .bind (alike_evaluateAndPlace signal clock) fun outcome => ?_
  split
  · exact .bind (alike_recordSignal _ _ _) fun _ => alike_sync_pure _ _
  · exact .bind (alike_handleError _ _ _) fun _ => .bind (alike_recordSignal _ _ _) fun _ =>
      alike_sync_pure _ _

theorem alike_closeTriggered (timestamp : Instant) (marked : Outcome (Option Ledger.Trigger)) :
    Alike fun _ => closeTriggered timestamp marked := by
  match marked with
  | .ok (some trigger) => exact alike_onLedger (·.executeTrigger trigger timestamp)
  | .ok none | .error _ => exact .pure _

theorem alike_finishPrice (tick : PriceTick) (marked : Outcome (Option Ledger.Trigger))
    (clock : Clock) : Alike fun _ => finishPrice tick marked clock := by
  unfold finishPrice
  refine .bind (alike_closeTriggered _ marked) fun outcome => ?_
  split
  · exact .bind (alike_handleError _ _ _) fun _ => alike_sync_pure _ _
  · exact .bind (alike_publish _ _) fun _ => alike_sync_pure _ _

theorem alike_finishCandle (c : Candle) (marked : Outcome (Option Ledger.Trigger))
    (clock : Clock) : Alike fun _ => finishCandle c marked clock := by
  unfold finishCandle
  refine .bind (alike_closeTriggered _ marked) fun outcome => ?_
  split
  · exact .bind (alike_handleError _ _ _) fun _ => .bind (alike_publish _ _) fun _ =>
      alike_sync_pure _ _
  · exact .bind (alike_publish _ _) fun _ => alike_sync_pure _ _

theorem alike_transition (action : String) (sources : List TradingStatus) (target : TradingStatus)
    (clock : Clock) : Alike fun _ => transition action sources target clock := by
  unfold transition
  refine .get (fun _ _ _ => rfl) fun s => .ite ?_ (.pure _)
  exact .bind (.modify fun _ _ _ => rfl) fun _ => alike_sync_pure _ _

theorem alike_manual (source : String) (f : Instant → Ledger → Calc (Ledger × Outcome α))
    (clock : Clock) :
    Alike fun _ => manual source f clock := by
  unfold manual
  refine .bind (alike_onLedger _) fun outcome => ?_
  split
  · refine .ite ?_ (alike_sync_pure _ _)
    exact .bind (alike_handleError _ _ _) fun _ => alike_sync_pure _ _
  · exact alike_sync_pure _ _

/-- A call does the same whatever the log and the hub hold. -/
theorem alike_perform (call : Call) (clock : Clock) : Alike fun _ => perform call clock := by
  cases call with
  | start | pause | resume | stop => exact .discard (alike_transition _ _ _ clock)
  | resetCircuitBreaker =>
    have hsync : Alike fun _ => (do sync (clock.after 1); return (← get).status) :=
      .bind (alike_sync _) fun _ => .get (fun _ _ _ => rfl) fun s => .pure s.status
    refine .discard (.bind (.modify fun s earlier hub => ?_) fun _ => hsync)
    exact congrArg (fun risk : RiskManager => ({ s with
      risk
      hub
      status := if s.status = .halted then .running else s.status } : Session))
        RiskManager.reset_behind
  | signal signal => exact .discard (alike_onSignal signal clock)
  | price tick => exact .discard (.bind (alike_onLedger _) fun _ => alike_finishPrice tick _ clock)
  | candle c => exact .discard (.bind (alike_onLedger _) fun _ => alike_finishCandle c _ clock)
  | mark tick => exact .discard (alike_onLedger _)
  | finishPrice tick marked => exact .discard (alike_finishPrice tick marked clock)
  | finishCandle c marked => exact .discard (alike_finishCandle c marked clock)
  | indicators v => exact alike_publish _ _
  | place request =>
    exact .discard (.get (fun _ _ _ => rfl) fun s => .ite (.pure _) (alike_manual _ _ clock))
  | cancel | close | setExit => exact .discard (alike_manual _ _ clock)
  | strategies | regime => exact .bind (.modify fun _ _ _ => rfl) fun _ => alike_sync clock
  | reportError source message =>
    exact .bind (alike_pushError source message clock) fun _ => alike_sync _

/-! ## All hubs -/

theorem within_nil (hlog : s.risk.events.length ≤ maxRiskEvents) (hub : Hub Message) :
    s.within [] hub = { s with hub } := by
  have hevents : lastOf maxRiskEvents ([] ++ s.risk.events) = s.risk.events := lastOf_eq_self hlog
  exact congrArg (fun events => { s with risk := { s.risk with events }, hub }) hevents

/-- What is known of the messages of an action whatever hub it finds is true of the messages that it
publishes to all hubs. -/
theorem Alike.exists_messages {x : Action α} {P : List Message → Prop} (hx : Alike fun _ => x)
    (hlog : s.risk.events.length ≤ maxRiskEvents) (h : x.run s = .ok a s')
    (hP : ∀ hub hub', x.run { s with hub } = .ok a { s' with hub := hub' } →
      ∃ ms : List Message, hub' = hub.run (ms.map .publish) ∧ P ms) :
    ∃ ms : List Message,
      (∀ hub, x.run { s with hub } = .ok a { s' with hub := hub.run (ms.map .publish) }) ∧
      P ms := by
  have hwithin : x.run (s.within [] s.hub) = .ok a s' := by
    rw [within_nil hlog]
    exact h
  obtain ⟨t, ms, hsends⟩ := hx s [] s.hub a s' hwithin
  have hended : s' = t.within [] (s.hub.run (ms.map .publish)) := hsends.eq_within hwithin
  have hrun (hub : Hub Message) :
      x.run { s with hub } = .ok a { s' with hub := hub.run (ms.map .publish) } := by
    rw [← within_nil hlog, hended]
    exact hsends [] hub
  -- a hub that records all messages tells them apart
  obtain ⟨ms', hms', hPms⟩ := hP _ _ (hrun (.recorder ms.length))
  obtain rfl : ms' = ms := Hub.eq_of_run_recorder hms'
  exact ⟨ms', hrun, hPms⟩

/-! ## What is recorded -/

/-- The session with an empty log. -/
def unlogged (s : Session) : Session := { s with risk := { s.risk with events := [] } }

/-- What a call adds to the log: what it leaves in an empty one. -/
def recorded (call : Call) (clock : Clock) (s : Session) : List RiskEvent :=
  ((ended? (perform call clock) s.unlogged).map (·.risk.events)).getD []

/-- What a run of calls adds to the log. -/
def recordedIn : List (Call × Clock) → Session → List RiskEvent
  | [], _ => []
  | (call, clock) :: calls, s =>
    recorded call clock s ++ ((ended? (perform call clock) s).map (recordedIn calls)).getD []

theorem within_unlogged (h : s.risk.events.length ≤ maxRiskEvents) (hub : Hub Message) :
    within s.risk.events hub s.unlogged = { s with hub } := by
  have hevents : lastOf maxRiskEvents (s.risk.events ++ []) = s.risk.events := by
    rw [List.append_nil, lastOf_eq_self h]
  exact congrArg (fun events => { s with risk := { s.risk with events }, hub }) hevents

theorem within_within_nil (t : Session) (hub hub' : Hub Message) :
    within earlier hub (within [] hub' t) = within earlier hub t :=
  congrArg (fun events => { t with risk := { t.risk with events }, hub })
    (lastOf_append_lastOf maxRiskEvents earlier t.risk.events)

/-- A call does the same with an empty log and with any hub.  It leaves in the empty log what it
records, and publishes the same messages to all hubs. -/
theorem perform_unlogged {call : Call} {u : Unit} (hlog : s.risk.events.length ≤ maxRiskEvents)
    (h : (perform call clock).run s = .ok u s') :
    ∃ (t : Session) (ms : List Message),
      (∀ hub, (perform call clock).run { s.unlogged with hub } =
        .ok u { t with hub := hub.run (ms.map .publish) }) ∧
      recorded call clock s = t.risk.events ∧
      ∀ hub, (perform call clock).run { s with hub } =
        .ok u (within s.risk.events (hub.run (ms.map .publish)) t) := by
  -- the session is its unlogged self within its own log and hub
  obtain ⟨t, ms, hsends⟩ := alike_perform call clock s.unlogged s.risk.events s.hub u s'
    (by rwa [within_unlogged hlog])
  have hunlogged (hub : Hub Message) : (perform call clock).run { s.unlogged with hub } =
      .ok u (within [] (hub.run (ms.map .publish)) t) := hsends [] hub
  have hended : ended? (perform call clock) s.unlogged =
      some (within [] (s.hub.run (ms.map .publish)) t) :=
    ended?_eq_some.mpr ⟨u, hunlogged s.hub⟩
  refine ⟨within [] s.hub t, ms, hunlogged, ?_, fun hub => ?_⟩
  · rw [recorded, hended]
    rfl
  · rw [← within_unlogged hlog, within_within_nil]
    exact hsends s.risk.events hub

end Session

end SimBroker
