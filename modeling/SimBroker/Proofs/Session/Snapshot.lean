import SimBroker.Proofs.Session.Audit

/-!
# The trading state

`sync` is the last thing that a call does, so what it shows is still true when the call has ended:
the run state, the account and the risk as they are then, the newest entries of the logs, and what
the dashboard was told last.  The trading state is also the last message of the call, so who has got
it has heard of every trade, position and decision that it sums up.

## Main results

* `Ledger.summary_at`, `RiskManager.status_at`: summaries differ by their times only
* `exists_last_message`: the last message of a call that ends in `sync`, to whatever hub
* `snapshot_consistent`: the trading state after a call that ends in `sync`
-/

namespace SimBroker

theorem Ledger.summary_at {l : Ledger} {account : AccountSummary} {now : Instant}
    (h : l.summary now = .ok account) (t : Instant) :
    l.summary t = .ok { account with timestamp := t } := by
  simp only [summary, Calc.bind_eq_ok, Calc.pure_eq_ok] at h ⊢
  obtain ⟨equity, hequity, unrealized, hunrealized, rfl⟩ := h
  exact ⟨equity, hequity, unrealized, hunrealized, rfl⟩

theorem RiskManager.status_at {m : RiskManager} {status : RiskStatus} {now : Instant}
    (h : m.status now = .ok status) (t : Instant) :
    m.status t = .ok { status with timestamp := t } := by
  simp only [RiskManager.status, Calc.bind_eq_ok, Calc.pure_eq_ok] at h ⊢
  obtain ⟨drawdown, hdrawdown, rfl⟩ := h
  exact ⟨drawdown, hdrawdown, rfl⟩

namespace Session

open Session.Action

variable {s s' s₀ : Session} {call : Call} {clock : Clock}

/-- A call that ends in `sync` shows the session as it is. -/
theorem Noted.announced_of_sync (h : Noted call clock s s') (hsync : call.endsInSync s.status) :
    (call.dashboard s).Announced clock (audited call clock s) (reported call clock s) s' := by
  cases h with
  | announced _ announced => exact announced
  | apart hapart => exact nomatch hsync.symm.trans hapart

/-- Whatever hub it finds, a call that ends in `sync` publishes the trading state last. -/
theorem exists_last_message (hlog : s.risk.events.length ≤ maxRiskEvents)
    (hsync : call.endsInSync s.status) (hcall : (perform call clock).run s = .ok () s') :
    ∃ (ms : List Message) (i : ℕ), ∀ hub, (perform call clock).run { s with hub } =
      .ok () { s' with
        hub := hub.run ((ms ++ [Message.mk (.state s'.state) (clock i)]).map .publish) } := by
  have hlast (hub hub' : Hub Message)
      (h : (perform call clock).run { s with hub } = .ok () { s' with hub := hub' }) :
      ∃ sent : List Message, hub' = hub.run (sent.map .publish) ∧
        ∃ (ms : List Message) (i : ℕ), sent = ms ++ [⟨.state s'.state, clock i⟩] := by
    -- the trading state does not show the hub, so it is the same one
    obtain ⟨⟨ms, i, hsent, -⟩, -⟩ := (noted_perform h).announced_of_sync hsync
    exact ⟨_, hsent.hub_eq, ms, i, rfl⟩
  obtain ⟨_, hms, ms, i, rfl⟩ := (alike_perform call clock).exists_messages hlog hcall hlast
  exact ⟨ms, i, hms⟩

/-- After a call of a run that ends in `sync` the trading state shows the run state, the account and
the risk as they are, apart from the time, with one equity; the newest entry of the audit log; the
error log, which keeps the last errors that the calls of the run have reported; and the strategies
and the regime that were named last.  It is the last message that the call publishes, to whatever
hub. -/
theorem snapshot_consistent (settings : Settings) (hub : Hub Message) (firstId : Uuid)
    (begin : Clock) (calls : List (Call × Clock))
    (hnew : new settings hub firstId begin = .ok s₀) (hrun : (runCalls calls).run s₀ = .ok () s)
    (hcall : (perform call clock).run s = .ok () s') (hsync : call.endsInSync s.status) :
    s'.state.status = s'.status ∧
    (∀ t, s'.ledger.summary t = .ok { s'.state.account with timestamp := t }) ∧
    (∀ t, s'.risk.status t = .ok { s'.state.risk with timestamp := t }) ∧
    s'.state.risk.equity = s'.state.account.equity ∧
    s'.state.errors = s'.errors ∧
    s'.errors = lastOf (max settings.session.maxErrors 1)
      (inOrder reported (calls ++ [(call, clock)]) s₀) ∧
    s'.state.lastSignal = s'.signals.getLast? ∧
    s'.state.activeStrategies =
      ((calls ++ [(call, clock)]).filterMap (·.1.strategies?)).getLastD [] ∧
    s'.state.regime = ((calls ++ [(call, clock)]).filterMap (·.1.regime?)).getLastD none ∧
    ∃ (ms : List Message) (i : ℕ), ∀ hub', (perform call clock).run { s with hub := hub' } =
      .ok () { s' with
        hub := hub'.run ((ms ++ [Message.mk (.state s'.state) (clock i)]).map .publish) } := by
  obtain ⟨-, herrors, hstrategies, hregime⟩ :=
    kept_new hnew (runCalls_concat (c := (call, clock)) hrun hcall)
  obtain ⟨account, risk, _, _, _, haccount, hrisk, hequity, hstate⟩ :=
    ((noted_perform hcall).announced_of_sync hsync).shown
  have hlast := exists_last_message (atRest_run hnew hrun).length_le hsync hcall
  rw [hstate] at hlast ⊢
  exact ⟨rfl, Ledger.summary_at haccount, RiskManager.status_at hrisk, hequity, rfl, herrors, rfl,
    hstrategies, hregime, hlast⟩

/-- A loss halts the session, and a strategy and an error are told to it. -/
def dashboardCalls : List (Call × Clock) :=
  losingCalls ++ [(.close 1, default), (.strategies ["a"], default)]

/-- The trading state after the error shows the halt, the strategy and the error. -/
theorem snapshot_consistent_halt : ∃ s₀ s s', ∃ ms : List Message,
    new freeSettings (.new 1) default default = .ok s₀ ∧
    (runCalls dashboardCalls).run s₀ = .ok () s ∧
    (perform (.reportError "feed" "late") default).run s = .ok () s' ∧
    s'.state.status = .halted ∧ s'.state.risk.equity = s'.state.account.equity ∧
    s'.state.errors = [⟨"feed", "late", default⟩] ∧ s'.state.activeStrategies = ["a"] ∧
    s'.ledger.summary default = .ok { s'.state.account with timestamp := default } ∧
    s'.risk.status default = .ok { s'.state.risk with timestamp := default } ∧
    ∀ hub, (perform (.reportError "feed" "late") default).run { s with hub } =
      .ok () { s' with
        hub := hub.run ((ms ++ [Message.mk (.state s'.state) default]).map .publish) } := by
  have hreported : ((new freeSettings (.new 1) default default).toOption.bind fun s₀ =>
      (ended? (runCalls dashboardCalls) s₀).bind fun s =>
        (ended? (perform (.reportError "feed" "late") default) s).map fun s' =>
          (s'.status,
            inOrder reported (dashboardCalls ++ [(.reportError "feed" "late", default)]) s₀)) =
      some (.halted, [⟨"feed", "late", default⟩]) := by decide +kernel
  obtain ⟨s₀, hnew, h⟩ := Calc.exists_eq_ok hreported
  obtain ⟨s, hended, h⟩ := Option.bind_eq_some_iff.mp h
  obtain ⟨s', hcall, h⟩ := Option.map_eq_some_iff.mp h
  obtain ⟨hhalted, herrors⟩ := Prod.mk.inj h
  obtain ⟨⟨⟩, hrun⟩ := ended?_eq_some.mp hended
  obtain ⟨⟨⟩, hcall⟩ := ended?_eq_some.mp hcall
  obtain ⟨hstatus, haccount, hrisk, hequity, hshown, hlog, -, hstrategies, -, ms, i, hms⟩ :=
    snapshot_consistent freeSettings (.new 1) default default dashboardCalls hnew hrun hcall rfl
  rw [herrors] at hlog
  exact ⟨s₀, s, s', ms, hnew, hrun, hcall, hstatus.trans hhalted, hequity, hshown.trans hlog,
    hstrategies, haccount default, hrisk default, hms⟩

end Session

end SimBroker
