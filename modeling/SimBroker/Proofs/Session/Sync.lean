import SimBroker.Proofs.Broadcast.Hub
import SimBroker.Proofs.Ledger.ExitTrades
import SimBroker.Proofs.Risk.Monitor
import SimBroker.Proofs.Session.Steps

/-!
# Bringing a session up to date

`sync` empties the events of the ledger: it records what their trades have realized, and publishes
the trades.  Then it lets the risk manager take the new equity, and publishes what the manager has
logged.  Whatever the session was before, after it a halted manager does not let the session run,
and a limit that is exceeded has halted the manager.

## Main definitions

* `Published`: messages were published, with these trades and events of the risk manager
* `Logged`: only logs and messages have changed
* `Forwarded`: events of the ledger were passed on
* `Delivered`: what the risk manager has recorded and logged was passed on
* `Synced`: what a session is like after `sync`

## Main results

* `synced`: `sync` does what `Synced` says
* `Synced.status_of_halted`, `Synced.halted_of_exceeds`: an exceeded limit stops the session
-/

namespace SimBroker

/-- The trade that a message tells of. -/
def Message.trade? (m : Message) : Option Trade :=
  match m.payload with
  | .trade t => some t
  | _ => none

/-- The event of the risk manager that a message tells of. -/
def Message.risk? (m : Message) : Option RiskEvent :=
  match m.payload with
  | .risk e => some e
  | _ => none

theorem Ledger.equity_of_summary {l : Ledger} {account : AccountSummary} {now : Instant}
    (h : l.summary now = .ok account) : l.equity = .ok account.equity := by
  simp only [summary, Calc.bind_eq_ok, Calc.pure_eq_ok] at h
  obtain ⟨equity, hequity, _, -, rfl⟩ := h
  exact hequity

namespace Session

open Session.Action

variable {s s' s₁ s₂ : Session} {u : Unit} {now : Instant} {clock clock' : Clock}
  {trades trades' : List Trade} {risks risks' : List RiskEvent} {events events' : List LedgerEvent}

/-! ## Messages -/

/-- Messages were published, and those of trades and of the risk manager were these. -/
def Published (s : Session) (trades : List Trade) (risks : List RiskEvent) (s' : Session) : Prop :=
  ∃ ms : List Message, s'.hub = s.hub.run (ms.map .publish) ∧
    ms.filterMap Message.trade? = trades ∧ ms.filterMap Message.risk? = risks

namespace Published

theorem of_hub_eq (h : s'.hub = s.hub) : s.Published [] [] s' := ⟨[], h, rfl, rfl⟩

theorem trans (h₁ : s.Published trades risks s₁) (h₂ : s₁.Published trades' risks' s₂) :
    s.Published (trades ++ trades') (risks ++ risks') s₂ := by
  obtain ⟨ms, hhub, rfl, rfl⟩ := h₁
  obtain ⟨ms', hhub', rfl, rfl⟩ := h₂
  refine ⟨ms ++ ms', ?_, List.filterMap_append, List.filterMap_append⟩
  rw [hhub', hhub, Hub.run_publish_append]

end Published

/-! ## Logs -/

/-- Only logs have changed, and messages were published. -/
structure Logged (s : Session) (trades : List Trade) (risks : List RiskEvent) (s' : Session) :
    Prop where
  ledger_eq : s'.ledger = s.ledger
  risk_eq : s'.risk = s.risk
  status_eq : s'.status = s.status
  published : s.Published trades risks s'

theorem Logged.refl (s : Session) : s.Logged [] [] s := ⟨rfl, rfl, rfl, .of_hub_eq rfl⟩

theorem Logged.trans (h₁ : s.Logged trades risks s₁) (h₂ : s₁.Logged trades' risks' s₂) :
    s.Logged (trades ++ trades') (risks ++ risks') s₂ :=
  ⟨h₂.ledger_eq.trans h₁.ledger_eq, h₂.risk_eq.trans h₁.risk_eq, h₂.status_eq.trans h₁.status_eq,
    h₁.published.trans h₂.published⟩

/-- What was done before has changed only logs, and published nothing. -/
theorem Logged.after (h : s₁.Logged trades risks s') (hbefore : s.Logged [] [] s₁) :
    s.Logged trades risks s' :=
  hbefore.trans h

theorem logged_publish {payload : Payload} (h : (publish payload now).run s = .ok u s') :
    s.Logged (Message.trade? ⟨payload, now⟩).toList (Message.risk? ⟨payload, now⟩).toList s' := by
  obtain rfl := modify_eq_ok.mp h
  refine ⟨rfl, rfl, rfl, [⟨payload, now⟩], rfl, ?_, ?_⟩ <;> cases payload <;> rfl

theorem logged_pushError {source message : String}
    (h : (pushError source message clock).run s = .ok u s') : s.Logged [] [] s' := by
  obtain ⟨_, s₁, hmodify, hpublish⟩ := bind_eq_ok.mp h
  obtain rfl := modify_eq_ok.mp hmodify
  exact (logged_publish hpublish).after ⟨rfl, rfl, rfl, .of_hub_eq rfl⟩

theorem logged_recordSignal {signal : Signal} {outcome : SignalOutcome}
    (h : (recordSignal signal outcome clock).run s = .ok u s') : s.Logged [] [] s' := by
  obtain ⟨_, s₁, hmodify, hpublish⟩ := bind_eq_ok.mp h
  obtain rfl := modify_eq_ok.mp hmodify
  exact (logged_publish hpublish).after ⟨rfl, rfl, rfl, .of_hub_eq rfl⟩

theorem logged_publishRisk {es : List RiskEvent}
    (h : (forEach 1 (fun e clock => publish (.risk e) (clock 0)) es clock).run s = .ok clock' s') :
    s.Logged [] es s' := by
  induction es generalizing s clock with
  | nil =>
    obtain ⟨-, rfl⟩ := pure_eq_ok.mp h
    exact .refl s
  | cons e es ih =>
    obtain ⟨_, s₁, hpublish, h⟩ := bind_eq_ok.mp h
    exact (logged_publish hpublish).trans (ih h)

/-! ## Events of the ledger -/

/-- What trades have realized. -/
abbrev resultsOf (trades : List Trade) : List Decimal := trades.map Trade.realizedPnl

/-- Events that are passed on, each with the reading of the clock at which the manager records its
trade. -/
def stamped (clock : Clock) : List LedgerEvent → List (Instant × LedgerEvent)
  | [] => []
  | event :: events => (clock 0, event) :: stamped (clock.after 3) events

theorem stamped_append (clock : Clock) (events events' : List LedgerEvent) :
    stamped clock (events ++ events') =
      stamped clock events ++ stamped (clock.after (3 * events.length)) events' := by
  induction events generalizing clock with
  | nil => rw [List.nil_append, List.length_nil, Nat.mul_zero, Clock.after_zero, stamped,
      List.nil_append]
  | cons event events ih =>
    rw [List.cons_append, stamped, stamped, ih, Clock.after_after, List.cons_append,
      List.length_cons, Nat.mul_succ, Nat.add_comm 3]

/-- The results that the manager records of events that are passed on. -/
def recordings (clock : Clock) (events : List LedgerEvent) : List (Instant × Decimal) :=
  (stamped clock events).filterMap fun e => e.2.exit?.map fun t => (e.1, t.realizedPnl)

theorem recordings_append (clock : Clock) (events events' : List LedgerEvent) :
    recordings clock (events ++ events') =
      recordings clock events ++ recordings (clock.after (3 * events.length)) events' := by
  rw [recordings, stamped_append, List.filterMap_append]
  rfl

/-- Events were passed on: the manager has recorded the trades that give back, and all trades were
published. -/
structure Forwarded (s : Session) (clock : Clock) (events : List LedgerEvent) (s' : Session) :
    Prop where
  ledger_eq : s'.ledger = s.ledger
  status_eq : s'.status = s.status
  tracked : s.risk.Tracked (resultsOf (events.filterMap LedgerEvent.exit?))
    (3 * (events.filterMap LedgerEvent.exit?).length) s'.risk
  informed : s.risk.monitor.Informed clock (3 * events.length) (recordings clock events)
    s'.risk.monitor
  published : s.Published (events.filterMap LedgerEvent.trade?) [] s'

theorem Forwarded.refl (s : Session) (clock : Clock) : s.Forwarded clock [] s :=
  ⟨rfl, rfl, .refl _, .refl .., .of_hub_eq rfl⟩

theorem Forwarded.trans (h₁ : s.Forwarded clock events s₁)
    (h₂ : s₁.Forwarded (clock.after (3 * events.length)) events' s₂) :
    s.Forwarded clock (events ++ events') s₂ where
  ledger_eq := h₂.ledger_eq.trans h₁.ledger_eq
  status_eq := h₂.status_eq.trans h₁.status_eq
  tracked := by
    rw [List.filterMap_append, resultsOf, List.map_append, List.length_append, Nat.mul_add]
    exact h₁.tracked.trans h₂.tracked
  informed := by
    rw [recordings_append, List.length_append, Nat.mul_add]
    exact h₁.informed.trans h₂.informed
  published := by
    rw [List.filterMap_append]
    exact h₁.published.trans h₂.published

/-- Passing on an event that realizes nothing only publishes. -/
theorem Logged.forwarded {event : LedgerEvent} (h : s.Logged event.trade?.toList [] s')
    (hexit : event.exit? = none) : s.Forwarded clock [event] s' where
  ledger_eq := h.ledger_eq
  status_eq := h.status_eq
  tracked := by
    rw [h.risk_eq, List.filterMap_cons_none hexit]
    exact .refl _
  informed := by
    have hnone : recordings clock [event] = [] := by
      simp only [recordings, stamped, List.filterMap_cons, hexit, Option.map_none,
        List.filterMap_nil]
    rw [h.risk_eq, hnone]
    exact .refl ..
  published := by
    have hevent : [event].filterMap LedgerEvent.trade? = event.trade?.toList := by
      cases htrade : event.trade? <;> simp [htrade]
    rw [hevent]
    exact h.published

theorem forwarded_forward {event : LedgerEvent} (h : (forward event clock).run s = .ok u s') :
    s.Forwarded clock [event] s' := by
  cases event with
  | position change position trade =>
    cases trade with
    | none => exact (logged_publish h).forwarded rfl
    | some t =>
      dsimp only [forward] at h
      split at h
      · next hrealizes =>
        -- a trade that closes or reduces a position is recorded
        simp only [bind_eq_ok, get_eq_ok, compute_eq_ok, modify_eq_ok] at h
        obtain ⟨_, _, ⟨rfl, rfl⟩, risk, _, ⟨hrisk, rfl⟩, _, _, rfl, _, _, htrade, hposition⟩ := h
        have hlogged := (logged_publish htrade).trans (logged_publish hposition)
        have hexit : (LedgerEvent.position change position (some t)).exit? = some t :=
          if_pos hrealizes
        refine ⟨hlogged.ledger_eq, hlogged.status_eq, ?_, ?_, hlogged.published⟩
        · rw [List.filterMap_cons_some hexit, hlogged.risk_eq]
          exact RiskManager.tracked_recordTrade hrisk
        · have hone : recordings clock [.position change position (some t)] =
              [(clock 0, t.realizedPnl)] := by
            simp only [recordings, stamped, List.filterMap_cons, hexit, Option.map_some,
              List.filterMap_nil]
          rw [hone, hlogged.risk_eq]
          exact DrawdownMonitor.informed_perform (c := .recordPnl t.realizedPnl (clock 0))
            (RiskManager.recordPnl_of_recordTrade hrisk) rfl (Nat.zero_lt_succ 2)
      · next hrealizes =>
        obtain ⟨_, _, htrade, hposition⟩ := bind_eq_ok.mp h
        exact ((logged_publish htrade).trans (logged_publish hposition)).forwarded
          (if_neg hrealizes)
  | _ =>
    obtain ⟨-, rfl⟩ := pure_eq_ok.mp h
    exact (Logged.refl _).forwarded rfl

theorem forwarded_forEach (h : (forEach 3 forward events clock).run s = .ok clock' s') :
    s.Forwarded clock events s' := by
  induction events generalizing s clock with
  | nil =>
    obtain ⟨-, rfl⟩ := pure_eq_ok.mp h
    exact .refl s clock
  | cons event events ih =>
    obtain ⟨_, s₁, hforward, h⟩ := bind_eq_ok.mp h
    exact (forwarded_forward hforward).trans (ih h)

/-- The events of the ledger are taken, and passed on. -/
theorem drained (h : (drain clock).run s = .ok clock' s') :
    Forwarded { s with ledger := s.ledger.takeEvents.2 } clock s.ledger.takeEvents.1 s' ∧
      clock' = clock.after (3 * s.ledger.takeEvents.1.length) := by
  have h := drain_run h
  exact ⟨forwarded_forEach h, forEach_cases h⟩

/-! ## The new equity -/

/-- What the ledger had to tell was recorded by the manager and published, and what the manager had
logged then was taken and published. -/
structure Delivered (s : Session) (clock : Clock) (risk : RiskManager) (s' : Session) :
    Prop where
  tracked : s.risk.Tracked (resultsOf (s.ledger.takeEvents.1.filterMap LedgerEvent.exit?))
    (3 * (s.ledger.takeEvents.1.filterMap LedgerEvent.exit?).length + 2) risk
  revalued : s.risk.monitor.Revalued clock (recordings clock s.ledger.takeEvents.1) risk.monitor
  risk_eq : s'.risk = risk.takeNewEvents.2
  published : s.Published (s.ledger.takeEvents.1.filterMap LedgerEvent.trade?) risk.unpublished s'

/-- What a session is like after `sync`. -/
structure Synced (s : Session) (clock : Clock) (s' : Session) : Prop where
  ledger_eq : s'.ledger = s.ledger.takeEvents.2
  limits_eq : s'.risk.limits = s.risk.limits
  status_eq : s'.status =
    if s'.risk.isHalted ∧ (s.status = .running ∨ s.status = .paused) then .halted else s.status
  equity_eq : s'.ledger.equity = .ok s'.risk.monitor.currentEquity
  within : s'.risk.isHalted ∨ ¬ s'.risk.monitor.Exceeds s'.risk.limits
  delivered : ∃ risk, s.Delivered clock risk s'

theorem synced (h : (sync clock).run s = .ok u s') : s.Synced clock s' := by
  obtain ⟨s₁, s₂, account, risk, _, _, _, hdrain, haccount, hrisk, -, hpublish, hstate⟩ :=
    sync_run h
  -- the manager takes the equity after the trades, and what follows only logs
  obtain ⟨hdrained, rfl⟩ := drained hdrain
  obtain ⟨hlimits, hequity, hwithin⟩ := RiskManager.updateEquity_cases hrisk
  have hupdate := RiskManager.update_of_updateEquity hrisk
  have hlast : s₂.Logged [] [] s' :=
    (logged_publish hstate).after ⟨rfl, rfl, rfl, .of_hub_eq rfl⟩
  have hlogged := (logged_publishRisk hpublish).trans hlast
  rw [List.append_nil, List.append_nil] at hlogged
  have htracked := hdrained.tracked.trans (RiskManager.tracked_updateEquity hrisk)
  rw [List.append_nil] at htracked
  -- the equity is told at the second reading after the trades
  have hinformed := hdrained.informed.mono (Nat.le_add_left _ 1)
  refine ⟨hlogged.ledger_eq.trans hdrained.ledger_eq, ?_, ?_, ?_, ?_, risk, htracked,
    ⟨_, _, account.equity, hinformed, hupdate⟩, hlogged.risk_eq, ?_⟩
  · rw [hlogged.risk_eq]
    exact htracked.limits_eq
  · have hstatus : s₁.status = s.status := hdrained.status_eq
    rw [hlogged.status_eq, hlogged.risk_eq, taking, hstatus]
    rfl
  · rw [hlogged.ledger_eq, hlogged.risk_eq]
    exact (Ledger.equity_of_summary haccount).trans (congrArg Except.ok hequity.symm)
  · rw [hlogged.risk_eq]
    exact hwithin
  · have hpublished := hdrained.published.trans hlogged.published
    rw [List.append_nil] at hpublished
    exact hpublished

namespace Synced

/-- A session with a halted manager does not run. -/
theorem status_of_halted (h : s.Synced clock s') (hhalted : s'.risk.isHalted) :
    s'.status ≠ .running ∧ s'.status ≠ .paused := by
  rw [h.status_eq]
  split
  · exact ⟨nofun, nofun⟩
  · next hstatus =>
    exact ⟨fun hrunning => hstatus ⟨hhalted, .inl hrunning⟩,
      fun hpaused => hstatus ⟨hhalted, .inr hpaused⟩⟩

/-- A limit that is exceeded has halted the manager. -/
theorem halted_of_exceeds (h : s.Synced clock s')
    (hexceeds : s'.risk.monitor.Exceeds s'.risk.limits) : s'.risk.isHalted :=
  h.within.resolve_right fun hwithin => hwithin hexceeds

/-- The status is the one from before, or halted. -/
theorem status_eq_or (h : s.Synced clock s') : s'.status = s.status ∨ s'.status = .halted := by
  rw [h.status_eq]
  split
  · exact .inr rfl
  · exact .inl rfl

end Synced

end Session

end SimBroker
