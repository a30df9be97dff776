import SimBroker.Proofs.Session.Recorded
import SimBroker.Proofs.Session.Status

/-!
# What a session passes on

The ledger tells of its trades, the risk manager records those that give back and logs its
decisions, and the hub publishes the trades and the decisions.  Between calls nothing is on its way:
the ledger has nothing left to tell and the manager nothing left to be taken.  So every trade and
every decision has gone its way once, and in order.

A call is followed with an empty log and with a hub that has room for all its messages, where
nothing is lost of what it records and publishes; it does the same with the log and the hub that it
finds.

## Main definitions

* `AtRest`: a session between calls
* `Carried`: what a call has done that has come to `sync`
* `Settled`: what a call has done that began with an empty log
* `PassedOn`: an action publishes the trades that it makes and some decisions, which it logs

## Main results

* `AtRest.settled`: every call settles
* `AtRest.passedOn_perform`, `AtRest.passedOn_runCalls`: what a call passes on, and what a run does
* `run_delivers`: what all runs of a new session have passed on
-/

namespace SimBroker

namespace Session

open Session.Action

variable {s s' s₁ s₂ : Session} {call : Call} {clock : Clock} {k : ℕ} {limits : RiskSettings}
  {risks risks' : List RiskEvent}

/-- A session between calls.  The ledger has nothing left to tell, and the risk manager nothing left
to be taken; the manager has recorded the trades that gave back. -/
structure AtRest (limits : RiskSettings) (s : Session) : Prop where
  limits_eq : s.risk.limits = limits
  consistent : s.ledger.Consistent
  entered : s.ledger.Entered
  events_eq : s.ledger.events = some []
  unpublished_eq : s.risk.unpublished = []
  length_le : s.risk.events.length ≤ maxRiskEvents
  totalTrades_eq : s.risk.totalTrades = s.ledger.exitTrades.length
  pnlHistory_eq :
    s.risk.pnlHistory = lastOf (max limits.tradeHistory 1) (resultsOf s.ledger.exitTrades)

theorem atRest_new {settings : Settings} {hub : Hub Message} {firstId : Uuid}
    (h : new settings hub firstId clock = .ok s) :
    s.AtRest settings.risk ∧ s.ledger.trades = [] ∧ s.risk.events = [] := by
  simp only [new, Calc.bind_eq_ok, Calc.pure_eq_ok] at h
  obtain ⟨account, -, risk, -, rfl⟩ := h
  refine ⟨?_, rfl, rfl⟩
  exact ⟨rfl, Ledger.consistent_new _ firstId true, Ledger.entered_new _ firstId true, rfl, rfl,
    Nat.zero_le _, rfl, (lastOf_eq_self (Nat.zero_le _)).symm⟩

/-- A session is at rest whatever its log and its hub hold. -/
theorem AtRest.unlogged (h : s.AtRest limits) (hub : Hub Message) :
    AtRest limits { s.unlogged with hub } :=
  { h with length_le := Nat.zero_le _ }

/-! ## A call with an empty log -/

/-- After a call that has begun with an empty log: the trades that the call has made and the
decisions that it has logged were published, and they have not filled the log. -/
structure Settled (limits : RiskSettings) (s s' : Session) : Prop where
  atRest : s'.AtRest limits
  published : ∃ trades, s'.ledger.trades = s.ledger.trades ++ trades ∧
    s.Published trades s'.risk.events s'
  length_lt : s'.risk.events.length < maxRiskEvents

/-- A call that does not come to `sync` has nothing to pass on. -/
theorem AtRest.settled_apart (hs : s.AtRest limits) (hnone : s.risk.events = [])
    (hrisk : s'.risk = s.risk) (hremarked : s.ledger.Remarked none s'.ledger)
    (hpublished : s.Published [] [] s') : s.Settled limits s' where
  atRest := by
    have hquiet := hremarked.quiet
    refine ⟨?_, hs.consistent.quiet hquiet, hs.entered.quiet hquiet, ?_, ?_, ?_, ?_, ?_⟩
    · rw [hrisk, hs.limits_eq]
    · rw [hremarked.events_eq, hs.events_eq]
      rfl
    · rw [hrisk, hs.unpublished_eq]
    · rw [hrisk]
      exact hs.length_le
    · rw [hrisk, Ledger.exitTrades_eq_of_trades_eq hquiet.trades_eq, hs.totalTrades_eq]
    · rw [hrisk, Ledger.exitTrades_eq_of_trades_eq hquiet.trades_eq, hs.pnlHistory_eq]
  published := by
    rw [hrisk, hnone]
    exact ⟨[], by rw [hremarked.quiet.trades_eq, List.append_nil], hpublished⟩
  length_lt := by
    rw [hrisk, hnone]
    exact Nat.zero_lt_succ _

/-- What a call has done that has come to `sync` after `k` readings of the clock: its turns have
told these events, and the manager was `risk` when its decisions were taken. -/
structure Carried (call : Call) (clock : Clock) (k : ℕ) (s : Session) (told : List LedgerEvent)
    (risk : RiskManager) (s' : Session) : Prop where
  consistent : s'.ledger.Consistent
  entered : s'.ledger.Entered
  events_eq : s'.ledger.events = some []
  trades_eq : s'.ledger.trades = s.ledger.trades ++ told.filterMap LedgerEvent.trade?
  exitTrades_eq : s'.ledger.exitTrades = s.ledger.exitTrades ++ told.filterMap LedgerEvent.exit?
  dated : ∀ event ∈ told, event.Dated (clock.upTo k ++ call.eventTime?.toList)
  tracked : s.risk.Tracked (resultsOf (told.filterMap LedgerEvent.exit?)) 12 risk
  revalued : s.risk.monitor.Revalued clock (recordings (clock.after k) told) risk.monitor
  risk_eq : s'.risk = risk.takeNewEvents.2
  published : s.Published (told.filterMap LedgerEvent.trade?) risk.unpublished s'

theorem AtRest.carried (hs : s.AtRest limits) (hacted : Acted call clock k s s₁)
    (hsynced : s₁.Synced (clock.after k) s') :
    ∃ told risk, Carried call clock k s told risk s' := by
  obtain ⟨ts, hturns, hledger⟩ := hacted.turns_eq
  obtain ⟨hl₁, he₁, told, htells⟩ := hs.consistent.tells_turns hs.entered hledger
  obtain ⟨risk, hdelivered⟩ := hsynced.delivered
  have hevents : s₁.ledger.events = some told := by
    rw [htells.events_eq, hs.events_eq]
    rfl
  obtain ⟨htaken, hleft⟩ := Ledger.takeEvents_of_events_eq hevents
  have hquiet : s₁.ledger.Quiet s'.ledger := by
    rw [hsynced.ledger_eq]
    exact .takeEvents _
  have htracked := hacted.tracked.trans hdelivered.tracked
  have hrevalued := hacted.informed.revalued hdelivered.revalued
  have hpublished := hacted.published.trans hdelivered.published
  rw [htaken] at htracked hrevalued hpublished
  refine ⟨told, risk, hl₁.quiet hquiet, he₁.quiet hquiet, ?_, ?_, ?_, ?_, ?_, hrevalued,
    hdelivered.risk_eq, hpublished⟩
  · rw [hsynced.ledger_eq, hleft]
  · rw [hquiet.trades_eq, htells.trades_eq]
  · rw [Ledger.exitTrades_eq_of_trades_eq hquiet.trades_eq, htells.exitTrades_eq]
  · -- the readings for the turns are among those before `sync`
    intro event hevent
    have hreadings := (clock.upTo_sublist hacted.readings_le).append_right call.eventTime?.toList
    exact (htells.dated event hevent).mono (List.Subset.trans hturns.times_subset hreadings.subset)
  · -- four decisions on the way to `sync`, three for each of two trades and two for the equity
    refine htracked.mono ?_
    have hexits := htells.length_le
    have hlength := hturns.length_le
    omega

/-- A call that comes to `sync` passes on what its turns have told, and what the manager has logged
since. -/
theorem Carried.settled {told : List LedgerEvent} {risk : RiskManager}
    (h : Carried call clock k s told risk s') (hs : s.AtRest limits) (hnone : s.risk.events = []) :
    s.Settled limits s' := by
  -- the log and what is to be taken were both empty, and were written to alike
  have hlog : s'.risk.events = risk.unpublished := by
    rw [h.risk_eq]
    exact h.tracked.events_eq (hnone.trans hs.unpublished_eq.symm)
  have hlength : s'.risk.events.length < maxRiskEvents := by
    have hle := h.tracked.length_le
    rw [hs.unpublished_eq, ← hlog] at hle
    exact hle.trans_lt (by decide)
  refine ⟨⟨?_, h.consistent, h.entered, h.events_eq, ?_, hlength.le, ?_, ?_⟩,
    ⟨_, h.trades_eq, hlog ▸ h.published⟩, hlength⟩
  · rw [h.risk_eq, ← hs.limits_eq]
    exact h.tracked.limits_eq
  · rw [h.risk_eq]
    rfl
  · rw [h.risk_eq, h.exitTrades_eq, List.length_append, ← hs.totalTrades_eq]
    exact h.tracked.totalTrades_eq.trans (by rw [List.length_map])
  · rw [h.risk_eq, h.exitTrades_eq, resultsOf, List.map_append, ← hs.limits_eq]
    refine h.tracked.pnlHistory_eq _ ?_
    rw [hs.limits_eq, hs.pnlHistory_eq]

theorem AtRest.settled (hs : s.AtRest limits) (hnone : s.risk.events = [])
    (h : Performed call clock s s') : s.Settled limits s' := by
  cases h with
  | synced _ acted synced =>
    obtain ⟨told, risk, hcarried⟩ := hs.carried acted synced
    exact hcarried.settled hs hnone
  | apart _ _ risk_eq _ remarked published =>
    exact hs.settled_apart hnone risk_eq remarked published

/-- A call never fills the log, so all that it records is left in an empty one. -/
theorem AtRest.length_recorded_lt (hs : s.AtRest limits) (call : Call) (clock : Clock) :
    (recorded call clock s).length < maxRiskEvents := by
  rw [recorded]
  cases hended : ended? (perform call clock) s.unlogged with
  | none => exact Nat.zero_lt_succ _
  | some t =>
    obtain ⟨u, h⟩ := ended?_eq_some.mp hended
    exact ((hs.unlogged s.hub).settled rfl (perform_cases h)).length_lt

/-! ## All calls -/

/-- An action publishes the trades that it makes and decisions, to whatever hub, and logs the
decisions. -/
structure PassedOn (limits : RiskSettings) (x : Action Unit) (s : Session)
    (risks : List RiskEvent) (s' : Session) : Prop where
  atRest : s'.AtRest limits
  messages : ∃ ms : List Message,
    (∀ hub, x.run { s with hub } = .ok () { s' with hub := hub.run (ms.map .publish) }) ∧
    s'.ledger.trades = s.ledger.trades ++ ms.filterMap Message.trade? ∧
    ms.filterMap Message.risk? = risks
  events_eq : s'.risk.events = lastOf maxRiskEvents (s.risk.events ++ risks)

theorem PassedOn.pure (hs : s.AtRest limits) : PassedOn limits (pure ()) s [] s where
  atRest := hs
  messages := ⟨[], fun _ => rfl, (List.append_nil _).symm, rfl⟩
  events_eq := by rw [List.append_nil, lastOf_eq_self hs.length_le]

theorem PassedOn.bind {x : Action Unit} {f : Unit → Action Unit}
    (h₁ : PassedOn limits x s risks s₁) (h₂ : PassedOn limits (f ()) s₁ risks' s') :
    PassedOn limits (x >>= f) s (risks ++ risks') s' where
  atRest := h₂.atRest
  messages := by
    obtain ⟨ms, hrun, htrades, rfl⟩ := h₁.messages
    obtain ⟨ms', hrun', htrades', rfl⟩ := h₂.messages
    refine ⟨ms ++ ms', fun hub => ?_, ?_, List.filterMap_append⟩
    · rw [Hub.run_publish_append]
      exact bind_eq_ok.mpr ⟨(), _, hrun hub, hrun' _⟩
    · rw [htrades', htrades, List.filterMap_append, List.append_assoc]
  events_eq := by
    rw [h₂.events_eq, h₁.events_eq, lastOf_lastOf_append, List.append_assoc]

/-- What a call passes on. -/
theorem AtRest.passedOn_perform {u : Unit} (hs : s.AtRest limits)
    (h : (perform call clock).run s = .ok u s') :
    PassedOn limits (perform call clock) s (recorded call clock s) s' := by
  obtain ⟨t, ms, hunlogged, hrecorded, hrun⟩ := perform_unlogged hs.length_le h
  -- with an empty log, and a hub that records all messages
  have hsettled := (hs.unlogged (.recorder ms.length)).settled rfl (perform_cases (hunlogged _))
  obtain ⟨trades, htrades, sent, hsent, rfl, hrisks⟩ := hsettled.published
  obtain rfl : sent = ms := Hub.eq_of_run_recorder hsent
  -- with the log and the hub as they are
  obtain ⟨-, rfl⟩ := EStateM.Result.ok.inj (h.symm.trans (hrun s.hub))
  refine ⟨{ hsettled.atRest with length_le := length_lastOf_le _ _ },
    ⟨sent, hrun, htrades, hrisks.trans hrecorded.symm⟩, ?_⟩
  rw [hrecorded]
  rfl

/-- What a run of calls passes on. -/
theorem AtRest.passedOn_runCalls {u : Unit} {calls : List (Call × Clock)} (hs : s.AtRest limits)
    (h : (runCalls calls).run s = .ok u s') :
    PassedOn limits (runCalls calls) s (recordedIn calls s) s' := by
  induction calls generalizing s with
  | nil =>
    obtain ⟨-, rfl⟩ := pure_eq_ok.mp h
    exact .pure hs
  | cons c calls ih =>
    -- the first call leaves the session at rest for the others
    obtain ⟨_, s₁, hcall, hcalls⟩ := bind_eq_ok.mp h
    have hfirst := hs.passedOn_perform hcall
    have hrecorded : recordedIn (c :: calls) s = recorded c.1 c.2 s ++ recordedIn calls s₁ := by
      rw [recordedIn, ended?_eq_some.mpr ⟨_, hcall⟩]
      rfl
    rw [hrecorded]
    exact hfirst.bind (ih hfirst.atRest hcalls)

/-- A run of a new session leaves it at rest. -/
theorem atRest_run {settings : Settings} {hub : Hub Message} {firstId : Uuid} {u : Unit}
    {calls : List (Call × Clock)} {s₀ : Session} (hnew : new settings hub firstId clock = .ok s₀)
    (hrun : (runCalls calls).run s₀ = .ok u s) : s.AtRest settings.risk := by
  obtain ⟨hs₀, -, -⟩ := atRest_new hnew
  exact (hs₀.passedOn_runCalls hrun).atRest

/-- After every call of a run:

* the ledger has nothing left to tell;
* the risk manager has counted the trades that gave back, and keeps the last results of them;
* the messages that the run publishes, to whatever hub, tell of the trades of the ledger and of what
  the calls have recorded, each once and in order;
* the log of the manager is the last of what was recorded, and no call can fill it. -/
theorem run_delivers (settings : Settings) (hub : Hub Message) (firstId : Uuid) (begin : Clock)
    (calls : List (Call × Clock)) {s₀ : Session}
    (hnew : new settings hub firstId begin = .ok s₀)
    (hrun : (runCalls calls).run s₀ = .ok () s) :
    s.ledger.events = some [] ∧
    s.risk.totalTrades = s.ledger.exitTrades.length ∧
    s.risk.pnlHistory = lastOf (max settings.risk.tradeHistory 1)
      (s.ledger.exitTrades.map Trade.realizedPnl) ∧
    (∃ ms : List Message,
      (∀ hub', (runCalls calls).run { s₀ with hub := hub' } =
        .ok () { s with hub := hub'.run (ms.map .publish) }) ∧
      ms.filterMap Message.trade? = s.ledger.tradeList none ∧
      ms.filterMap Message.risk? = recordedIn calls s₀) ∧
    s.risk.events = lastOf maxRiskEvents (recordedIn calls s₀) ∧
    ∀ call clock, (recorded call clock s).length < maxRiskEvents := by
  obtain ⟨hs₀, htrades, hevents⟩ := atRest_new hnew
  obtain ⟨hs, ⟨ms, hms, htraded, hrisks⟩, hlog⟩ := hs₀.passedOn_runCalls hrun
  rw [htrades, List.nil_append] at htraded
  rw [hevents, List.nil_append] at hlog
  exact ⟨hs.events_eq, hs.totalTrades_eq, hs.pnlHistory_eq, ⟨ms, hms, htraded.symm, hrisks⟩, hlog,
    hs.length_recorded_lt⟩

/-- A position is opened and closed at a loss that halts the account: two trades, one of which gave
back, and one decision. -/
theorem run_delivers_halt : ∃ s₀ s, ∃ ms : List Message,
    new freeSettings (.new 1) default default = .ok s₀ ∧
    (runCalls (losingCalls ++ [(.close 1, default)])).run s₀ = .ok () s ∧
    (∀ hub, (runCalls (losingCalls ++ [(.close 1, default)])).run { s₀ with hub } =
      .ok () { s with hub := hub.run (ms.map .publish) }) ∧
    s.ledger.exitTrades.length = 1 ∧ s.risk.totalTrades = 1 ∧
    (ms.filterMap Message.trade?).length = 2 ∧ (ms.filterMap Message.risk?).length = 1 := by
  have hclosed : ((new freeSettings (.new 1) default default).toOption.bind fun s₀ =>
      (ended? (runCalls (losingCalls ++ [(.close 1, default)])) s₀).map fun s =>
        (s.ledger.trades.length, s.risk.totalTrades,
          (recordedIn (losingCalls ++ [(.close 1, default)]) s₀).length)) =
      some (2, 1, 1) := by decide +kernel
  obtain ⟨s₀, hnew, h⟩ := Calc.exists_eq_ok hclosed
  obtain ⟨s, hended, h⟩ := Option.map_eq_some_iff.mp h
  obtain ⟨⟨⟩, hrun⟩ := ended?_eq_some.mp hended
  simp only [Prod.mk.injEq] at h
  obtain ⟨htrades, htotal, hrecorded⟩ := h
  obtain ⟨-, hcounted, -, ⟨ms, hms, htraded, hrisks⟩, -⟩ :=
    run_delivers freeSettings (.new 1) default default _ hnew hrun
  refine ⟨s₀, s, ms, hnew, hrun, hms, hcounted ▸ htotal, htotal, ?_, hrisks ▸ hrecorded⟩
  rw [htraded]
  exact htrades

end Session

end SimBroker
