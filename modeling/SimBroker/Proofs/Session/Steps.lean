import SimBroker.Proofs.Session.Action

/-!
# The steps of the operations

An operation that ends has carried out its steps one after another, each from the session that the
step before has left and at its own readings of the clock.  Here every operation is unfolded once;
what it does is then told from its steps.

## Main definitions

* `taking`, `showing`: the session once the manager has taken an equity, and with its trading state
* `Signaled`: how a signal is answered, and the steps on the way

## Main results

* `sync_run`, `handleError_run`: the steps by which calls end
* `evaluateAndPlace_run`, `onSignal_run`: the steps of a signal
* `finishPrice_run`, `finishCandle_run`, `manual_run`: the steps of market data and of manual calls
* `transition_run`, `resetCircuitBreaker_run`, `placeOrder_run`: the gates of the run state
-/

namespace SimBroker

namespace Session

open Session.Action

variable {α : Type} {s s' : Session} {u : Unit} {clock clock' : Clock}

/-! ## Bringing the session up to date -/

theorem drain_run (h : (drain clock).run s = .ok clock' s') :
    (forEach 3 forward s.ledger.takeEvents.1 clock).run { s with ledger := s.ledger.takeEvents.2 } =
      .ok clock' s' := by
  simp only [drain, bind_eq_ok, get_eq_ok, modify_eq_ok] at h
  obtain ⟨_, _, ⟨rfl, rfl⟩, _, _, rfl, h⟩ := h
  exact h

/-- The session once its manager has taken an equity and its events were taken: a halt stops it. -/
def taking (risk : RiskManager) (s : Session) : Session :=
  { s with
    risk := risk.takeNewEvents.2
    status :=
      if risk.isHalted ∧ (s.status = .running ∨ s.status = .paused) then .halted else s.status }

/-- The session with the trading state that shows it. -/
def showing (account : AccountSummary) (status : RiskStatus) (now : Instant) (s : Session) :
    Session :=
  let s := { s with reportedPositions := some account.openPositions }
  { s with state := snapshot account status now s }

theorem sync_run (h : (sync clock).run s = .ok u s') :
    ∃ s₁ s₂ account risk status clock₁ clock₂, (drain clock).run s = .ok clock₁ s₁ ∧
      s₁.ledger.summary (clock₁ 0) = .ok account ∧
      s₁.risk.updateEquity account.equity (clock₁ 1) = .ok risk ∧
      risk.status (clock₁ 2) = .ok status ∧
      (forEach 1 (fun e clock => publish (.risk e) (clock 0)) risk.takeNewEvents.1
        (clock₁.after 3)).run (s₁.taking risk) = .ok clock₂ s₂ ∧
      (publish (.state (s₂.showing account status (clock₂ 0)).state) (clock₂ 1)).run
        (s₂.showing account status (clock₂ 0)) = .ok () s' := by
  simp only [sync, bind_eq_ok, get_eq_ok, compute_eq_ok, modify_eq_ok] at h
  obtain ⟨clock₁, s₁, hdrain, _, _, ⟨rfl, rfl⟩, account, _, ⟨haccount, rfl⟩, _, _, ⟨rfl, rfl⟩, risk,
    _, ⟨hrisk, rfl⟩, status, _, ⟨hstatus, rfl⟩, _, _, rfl, clock₂, s₂, hrisks, _, _, rfl, _, _,
    ⟨rfl, rfl⟩, _, _, rfl, hstate⟩ := h
  exact ⟨s₁, s₂, account, risk, status, clock₁, clock₂, hdrain, haccount, hrisk, hstatus, hrisks,
    hstate⟩

/-- A violated invariant halts the session; then the error is counted and pushed as any other. -/
theorem handleError_run {source : String} {e : TradingError}
    (h : (handleError source e clock).run s = .ok u s') :
    ∃ s₁ : Session, (s₁ = s ∨ ∃ message, e = .invariantViolation message ∧
        s₁ = { s with
          risk := s.risk.halt (.invariantViolation message) (clock 0), status := .halted }) ∧
      (pushError source e.message (clock.after 1)).run
        { s₁ with failures := s₁.failures.bump source } = .ok () s' := by
  unfold handleError at h
  dsimp only at h
  split at h
  · next message =>
    simp only [bind_eq_ok, modify_eq_ok] at h
    obtain ⟨_, _, rfl, _, _, rfl, h⟩ := h
    exact ⟨_, .inr ⟨message, rfl, rfl⟩, h⟩
  · simp only [bind_eq_ok, modify_eq_ok] at h
    obtain ⟨_, _, rfl, h⟩ := h
    exact ⟨s, .inl rfl, h⟩

theorem sync_pure_run {a b : α} (h : (do sync clock; return a).run s = .ok b s') :
    a = b ∧ (sync clock).run s = .ok () s' := by
  obtain ⟨_, s₁, hsync, h⟩ := bind_eq_ok.mp h
  obtain ⟨rfl, rfl⟩ := pure_eq_ok.mp h
  exact ⟨rfl, hsync⟩

/-! ## The ledger and the risk manager -/

theorem onLedger_eq_ok {f : Ledger → Calc (Ledger × α)} {a : α} :
    (onLedger f).run s = .ok a s' ↔
      ∃ ledger, f s.ledger = .ok (ledger, a) ∧ { s with ledger } = s' := by
  simp only [onLedger, bind_eq_ok, get_eq_ok, compute_eq_ok, modify_eq_ok, pure_eq_ok]
  constructor
  · rintro ⟨_, _, ⟨rfl, rfl⟩, ⟨ledger, b⟩, _, ⟨hledger, rfl⟩, _, _, rfl, rfl, rfl⟩
    exact ⟨ledger, hledger, rfl⟩
  · rintro ⟨ledger, hledger, rfl⟩
    exact ⟨s, s, ⟨rfl, rfl⟩, (ledger, a), s, ⟨hledger, rfl⟩, (), _, rfl, rfl, rfl⟩

theorem evaluate_run {signal : Signal} {outcome : Outcome Approval}
    (h : (evaluate signal clock).run s = .ok outcome s') :
    ∃ account risk, s.ledger.summary (clock 0) = .ok account ∧
      s.risk.evaluate signal account.exposure (clock 1) = .ok (risk, outcome) ∧
      s' = { s with risk } := by
  simp only [evaluate, bind_eq_ok, get_eq_ok, compute_eq_ok, modify_eq_ok, pure_eq_ok] at h
  obtain ⟨_, _, ⟨rfl, rfl⟩, account, _, ⟨haccount, rfl⟩, _, _, ⟨rfl, rfl⟩, ⟨risk, judged⟩, _,
    ⟨hevaluate, rfl⟩, _, _, rfl, rfl, rfl⟩ := h
  exact ⟨account, risk, haccount, hevaluate, rfl⟩

/-! ## Signals -/

/-- In a running session a signal is evaluated.  Then it is refused, or its order is placed. -/
theorem evaluateAndPlace_run {signal : Signal} {answer : Outcome SignalOutcome}
    (hrunning : s.status = .running)
    (h : (evaluateAndPlace signal clock).run s = .ok answer s') :
    ∃ judged s₁, (evaluate signal clock).run s = .ok judged s₁ ∧
      ((s' = s₁ ∧ ((∃ reason, answer = .ok (.rejected reason)) ∨ ∃ e, answer = .error e)) ∨
      ∃ approval placed, judged = .ok approval ∧
        (onLedger (·.place approval.toOrderRequest (clock 2))).run s₁ = .ok placed s' ∧
        answer = placed.map fun execution => .executed execution.order.id approval.size) := by
  simp only [evaluateAndPlace, bind_eq_ok, get_eq_ok] at h
  obtain ⟨_, _, ⟨rfl, rfl⟩, h⟩ := h
  rw [if_neg (not_not.mpr hrunning)] at h
  obtain ⟨judged, s₁, hevaluate, h⟩ := bind_eq_ok.mp h
  refine ⟨judged, s₁, hevaluate, ?_⟩
  split at h
  · obtain ⟨rfl, rfl⟩ := pure_eq_ok.mp h
    exact .inl ⟨rfl, .inl ⟨_, rfl⟩⟩
  · obtain ⟨rfl, rfl⟩ := pure_eq_ok.mp h
    exact .inl ⟨rfl, .inr ⟨_, rfl⟩⟩
  · next approval =>
    obtain ⟨placed, s₂, hplace, h⟩ := bind_eq_ok.mp h
    refine .inr ⟨approval, placed, rfl, ?_⟩
    split at h
    · obtain ⟨rfl, rfl⟩ := pure_eq_ok.mp h
      exact ⟨hplace, rfl⟩
    · obtain ⟨rfl, rfl⟩ := pure_eq_ok.mp h
      exact ⟨hplace, rfl⟩

/-- How a signal is answered, and the steps on the way: it is only recorded, or it is judged and
then recorded, after the error if there was one. -/
inductive Signaled (signal : Signal) (clock : Clock) (s : Session) :
    Outcome SignalOutcome → Session → Prop
  | ignored {s' : Session} (not_running : s.status ≠ .running)
      (record : (recordSignal signal (.ignored s.status) clock).run s = .ok () s') :
      Signaled signal clock s (.ok (.ignored s.status)) s'
  | judged {outcome : SignalOutcome} {s₁ s₂ s' : Session} (running : s.status = .running)
      (judge : (evaluateAndPlace signal clock).run s = .ok (.ok outcome) s₁)
      (record : (recordSignal signal outcome (clock.after 3)).run s₁ = .ok () s₂)
      (sync : (sync (clock.after 5)).run s₂ = .ok () s') :
      Signaled signal clock s (.ok outcome) s'
  | failed {e : TradingError} {s₁ s₂ s₃ s' : Session} (running : s.status = .running)
      (judge : (evaluateAndPlace signal clock).run s = .ok (.error e) s₁)
      (handle : (handleError "signal" e (clock.after 3)).run s₁ = .ok () s₂)
      (record : (recordSignal signal (.failed e.message) (clock.after 6)).run s₂ = .ok () s₃)
      (sync : (sync (clock.after 8)).run s₃ = .ok () s') :
      Signaled signal clock s (if e.isFatal then .error e else .ok (.failed e.message)) s'

theorem onSignal_run {signal : Signal} {answer : Outcome SignalOutcome}
    (h : (onSignal signal clock).run s = .ok answer s') : Signaled signal clock s answer s' := by
  simp only [onSignal, bind_eq_ok, get_eq_ok] at h
  obtain ⟨_, _, ⟨rfl, rfl⟩, h⟩ := h
  by_cases hrunning : s.status = .running
  · rw [if_neg (not_not.mpr hrunning)] at h
    obtain ⟨judged, s₁, hjudge, h⟩ := bind_eq_ok.mp h
    split at h
    · obtain ⟨_, s₂, hrecord, h⟩ := bind_eq_ok.mp h
      obtain ⟨rfl, hsync⟩ := sync_pure_run h
      exact .judged hrunning hjudge hrecord hsync
    · obtain ⟨_, s₂, hhandle, h⟩ := bind_eq_ok.mp h
      obtain ⟨_, s₃, hrecord, h⟩ := bind_eq_ok.mp h
      obtain ⟨rfl, hsync⟩ := sync_pure_run h
      exact .failed hrunning hjudge hhandle hrecord hsync
  · rw [if_pos hrunning] at h
    obtain ⟨_, s₁, hrecord, h⟩ := bind_eq_ok.mp h
    obtain ⟨rfl, rfl⟩ := pure_eq_ok.mp h
    exact .ignored hrunning hrecord

/-! ## Market data -/

/-- A report of a crossed exit closes the position, and any other leaves the session. -/
theorem closeTriggered_run {timestamp : Instant} {marked : Outcome (Option Ledger.Trigger)}
    {outcome : Outcome (Option Execution)}
    (h : (closeTriggered timestamp marked).run s = .ok outcome s') :
    s' = s ∨ ∃ trigger, marked = .ok (some trigger) ∧
      (onLedger (·.executeTrigger trigger timestamp)).run s = .ok outcome s' := by
  match marked, h with
  | .ok (some trigger), h => exact .inr ⟨trigger, rfl, h⟩
  | .ok none, h => exact .inl (pure_eq_ok.mp h).2.symm
  | .error e, h => exact .inl (pure_eq_ok.mp h).2.symm

/-- An error is handled in the place of the price. -/
theorem finishPrice_run {tick : PriceTick} {marked : Outcome (Option Ledger.Trigger)}
    {outcome : Outcome (Option Execution)}
    (h : (finishPrice tick marked clock).run s = .ok outcome s') :
    ∃ s₁ s₂, (closeTriggered tick.timestamp marked).run s = .ok outcome s₁ ∧
      ((∃ e, outcome = .error e ∧ (handleError "price" e clock).run s₁ = .ok () s₂) ∨
        ∃ closed, outcome = .ok closed ∧ (publish (.price tick) (clock 0)).run s₁ = .ok () s₂) ∧
      (sync (clock.after 3)).run s₂ = .ok () s' := by
  obtain ⟨answer, s₁, hclose, h⟩ := bind_eq_ok.mp h
  split at h
  · next e =>
    obtain ⟨_, s₂, hhandle, h⟩ := bind_eq_ok.mp h
    obtain ⟨rfl, hsync⟩ := sync_pure_run h
    exact ⟨s₁, s₂, hclose, .inl ⟨e, rfl, hhandle⟩, hsync⟩
  · next closed =>
    obtain ⟨_, s₂, hpublish, h⟩ := bind_eq_ok.mp h
    obtain ⟨rfl, hsync⟩ := sync_pure_run h
    exact ⟨s₁, s₂, hclose, .inr ⟨closed, rfl, hpublish⟩, hsync⟩

/-- The candle is published after an error too. -/
theorem finishCandle_run {c : Candle} {marked : Outcome (Option Ledger.Trigger)}
    {outcome : Outcome (Option Execution)}
    (h : (finishCandle c marked clock).run s = .ok outcome s') :
    ∃ s₁ s₂ s₃, (closeTriggered c.closeTime marked).run s = .ok outcome s₁ ∧
      ((∃ e, outcome = .error e ∧ (handleError "candle" e clock).run s₁ = .ok () s₂) ∨
        ∃ closed, outcome = .ok closed ∧ s₂ = s₁) ∧
      (publish (.candle c) (clock 3)).run s₂ = .ok () s₃ ∧
      (sync (clock.after 4)).run s₃ = .ok () s' := by
  obtain ⟨answer, s₁, hclose, h⟩ := bind_eq_ok.mp h
  split at h
  · next e =>
    obtain ⟨_, s₂, hhandle, h⟩ := bind_eq_ok.mp h
    obtain ⟨_, s₃, hpublish, h⟩ := bind_eq_ok.mp h
    obtain ⟨rfl, hsync⟩ := sync_pure_run h
    exact ⟨s₁, s₂, s₃, hclose, .inl ⟨e, rfl, hhandle⟩, hpublish, hsync⟩
  · next closed =>
    obtain ⟨_, s₂, hpublish, h⟩ := bind_eq_ok.mp h
    obtain ⟨rfl, hsync⟩ := sync_pure_run h
    exact ⟨s₁, s₁, s₂, hclose, .inr ⟨closed, rfl, rfl⟩, hpublish, hsync⟩

/-! ## Manual calls and the run state -/

/-- A manual operation answers what the ledger answers, and only a fatal error is handled. -/
theorem manual_run {source : String} {f : Instant → Ledger → Calc (Ledger × Outcome α)}
    {outcome : Outcome α} (h : (manual source f clock).run s = .ok outcome s') :
    ∃ s₁ s₂, (onLedger (f (clock 0))).run s = .ok outcome s₁ ∧
      ((∃ e, outcome = .error e ∧ e.isFatal ∧
          (handleError source e (clock.after 1)).run s₁ = .ok () s₂) ∨
        (∀ e, outcome = .error e → ¬ e.isFatal) ∧ s₂ = s₁) ∧
      (sync (clock.after 4)).run s₂ = .ok () s' := by
  obtain ⟨answer, s₁, hledger, h⟩ := bind_eq_ok.mp h
  split at h
  · next e =>
    split at h
    · next hfatal =>
      obtain ⟨_, s₂, hhandle, h⟩ := bind_eq_ok.mp h
      obtain ⟨rfl, hsync⟩ := sync_pure_run h
      exact ⟨s₁, s₂, hledger, .inl ⟨e, rfl, hfatal, hhandle⟩, hsync⟩
    · next hfatal =>
      obtain ⟨rfl, hsync⟩ := sync_pure_run h
      refine ⟨s₁, s₁, hledger, .inr ⟨?_, rfl⟩, hsync⟩
      intro e' he'
      obtain rfl := Except.error.inj he'
      exact hfatal
  · obtain ⟨rfl, hsync⟩ := sync_pure_run h
    exact ⟨s₁, s₁, hledger, .inr ⟨nofun, rfl⟩, hsync⟩

/-- The run state changes from one of the sources, and from any other the change is refused. -/
theorem transition_run {action : String} {sources : List TradingStatus} {target : TradingStatus}
    {answer : Outcome TradingStatus}
    (h : (transition action sources target clock).run s = .ok answer s') :
    (sources.contains s.status ∧ answer = .ok target ∧
      (sync clock).run { s with status := target } = .ok () s') ∨
    (sources.contains s.status = false ∧ s' = s ∧
      answer = .error (.invalidState s!"cannot {action} while {s.status.name}")) := by
  simp only [transition, bind_eq_ok, get_eq_ok] at h
  obtain ⟨_, _, ⟨rfl, rfl⟩, h⟩ := h
  split at h
  · next hsource =>
    obtain ⟨_, s₁, hmodify, h⟩ := bind_eq_ok.mp h
    obtain rfl := modify_eq_ok.mp hmodify
    obtain ⟨rfl, hsync⟩ := sync_pure_run h
    exact .inl ⟨hsource, rfl, hsync⟩
  · next hsource =>
    obtain ⟨rfl, rfl⟩ := pure_eq_ok.mp h
    exact .inr ⟨Bool.eq_false_iff.mpr hsource, rfl, rfl⟩

theorem resetCircuitBreaker_run {status : TradingStatus}
    (h : (resetCircuitBreaker clock).run s = .ok status s') :
    status = s'.status ∧ (sync (clock.after 1)).run { s with
      risk := s.risk.reset (clock 0)
      status := if s.status = .halted then .running else s.status } = .ok () s' := by
  simp only [resetCircuitBreaker, bind_eq_ok, modify_eq_ok, get_eq_ok, pure_eq_ok] at h
  obtain ⟨_, _, rfl, _, _, hsync, _, _, ⟨rfl, rfl⟩, rfl, rfl⟩ := h
  exact ⟨rfl, hsync⟩

/-- A halted session refuses an order by hand, and any other leaves it to the ledger. -/
theorem placeOrder_run {request : OrderRequest} {outcome : Outcome Execution}
    (h : (placeOrder request clock).run s = .ok outcome s') :
    (s.status = .halted ∧ s' = s ∧ outcome = .error (.riskRejected .tradingHalted)) ∨
    (s.status ≠ .halted ∧
      (manual "place_order" (fun now l => l.place request now) clock).run s = .ok outcome s') := by
  simp only [placeOrder, bind_eq_ok, get_eq_ok] at h
  obtain ⟨_, _, ⟨rfl, rfl⟩, h⟩ := h
  split at h
  · next hhalted =>
    obtain ⟨rfl, rfl⟩ := pure_eq_ok.mp h
    exact .inl ⟨hhalted, rfl, rfl⟩
  · next hhalted => exact .inr ⟨hhalted, h⟩

end Session

end SimBroker
