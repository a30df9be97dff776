import SimBroker.Proofs.Risk.Log
import SimBroker.Proofs.Session.Call

/-!
# The messages of a call

A call publishes what became of it, then what the ledger and the risk manager have to tell, and last
the trading state.  The logs of signals and of errors keep the last entries that were published.  So
a call is known by its messages: they say what is new in the logs, and the last one is what the
session shows until the next call.

## Main definitions

* `Keeps`: a bounded log has got new entries
* `Message.Unlogged`: a message that no log keeps
* `Sent`, `SentAside`: messages were published, and the logs keep what they tell of, or none does
* `Shown`: the trading state shows the session as it is
* `Announced`: messages were published, the last of them the trading state
* `errorsOf`, `fatalErrorsOf`: what an answer reports

## Main results

* `sent_handleError`, `sent_recordSignal`, `aside_drain`: the parts of a call
* `Sent.announced`: messages before those that end in the trading state
* `announced_sync`: what `sync` publishes, and what the session is like then
* `announced_resetCircuitBreaker`, `announced_finishPrice`, `announced_finishCandle`,
  `announced_manual`: calls that end in `sync`
-/

namespace SimBroker

/-- A log of at most `n` entries has got new ones. -/
def Keeps {α : Type} (n : ℕ) (log new log' : List α) : Prop :=
  ∀ all, log = lastOf n all → log' = lastOf n (all ++ new)

namespace Keeps

variable {α : Type} {n : ℕ} {log log₁ log₂ new new' : List α}

theorem refl (n : ℕ) (log : List α) : Keeps n log [] log := by
  intro all hall
  rw [hall, List.append_nil]

theorem trans (h₁ : Keeps n log new log₁) (h₂ : Keeps n log₁ new' log₂) :
    Keeps n log (new ++ new') log₂ := by
  intro all hall
  rw [← List.append_assoc]
  exact h₂ _ (h₁ all hall)

theorem concat (n : ℕ) (log : List α) (x : α) : Keeps n log [x] (lastOf n (log ++ [x])) := by
  intro all hall
  rw [hall, lastOf_lastOf_append]

end Keeps

/-! ## Messages -/

namespace Message

/-- The entry of the audit log that a message tells of. -/
def signal? (m : Message) : Option SignalRecord :=
  match m.payload with
  | .signal entry => some entry
  | _ => none

/-- The error that a message tells of. -/
def error? (m : Message) : Option ErrorRecord :=
  match m.payload with
  | .error entry => some entry
  | _ => none

/-- A message that no log of the session keeps. -/
structure Unlogged (m : Message) : Prop where
  signal?_eq : m.signal? = none
  error?_eq : m.error? = none

variable {ms : List Message}

theorem filterMap_signal?_eq_nil (h : ∀ m ∈ ms, m.Unlogged) : ms.filterMap signal? = [] :=
  List.filterMap_eq_nil_iff.mpr fun m hm => (h m hm).signal?_eq

theorem filterMap_error?_eq_nil (h : ∀ m ∈ ms, m.Unlogged) : ms.filterMap error? = [] :=
  List.filterMap_eq_nil_iff.mpr fun m hm => (h m hm).error?_eq

end Message

theorem RiskManager.equity_of_status {m : RiskManager} {status : RiskStatus} {now : Instant}
    (h : m.status now = .ok status) : status.equity = m.monitor.currentEquity := by
  simp only [RiskManager.status, Calc.bind_eq_ok, Calc.pure_eq_ok] at h
  obtain ⟨drawdown, -, rfl⟩ := h
  rfl

namespace Session

open Session.Action

variable {α : Type} {s s' s₁ s₂ : Session} {u : Unit} {now : Instant} {clock clock' : Clock}
  {n : ℕ} {ms ms' : List Message} {signals : List SignalRecord}
  {errors : List ErrorRecord}

/-- Messages were published, and the logs of signals and errors keep those of them that are theirs.
What the dashboard was told is as before. -/
structure Sent (s : Session) (ms : List Message) (s' : Session) : Prop where
  settings_eq : s'.settings = s.settings
  strategies_eq : s'.strategies = s.strategies
  regime_eq : s'.regime = s.regime
  hub_eq : s'.hub = s.hub.run (ms.map .publish)
  signals : Keeps (max s.settings.signalHistory 1) s.signals (ms.filterMap Message.signal?)
    s'.signals
  errors : Keeps (max s.settings.maxErrors 1) s.errors (ms.filterMap Message.error?) s'.errors

namespace Sent

theorem refl (s : Session) : s.Sent [] s := ⟨rfl, rfl, rfl, rfl, .refl _ _, .refl _ _⟩

theorem trans (h₁ : s.Sent ms s₁) (h₂ : s₁.Sent ms' s₂) : s.Sent (ms ++ ms') s₂ where
  settings_eq := h₂.settings_eq.trans h₁.settings_eq
  strategies_eq := h₂.strategies_eq.trans h₁.strategies_eq
  regime_eq := h₂.regime_eq.trans h₁.regime_eq
  hub_eq := by rw [h₂.hub_eq, h₁.hub_eq, Hub.run_publish_append]
  signals := by
    rw [List.filterMap_append]
    exact h₁.signals.trans (h₁.settings_eq ▸ h₂.signals)
  errors := by
    rw [List.filterMap_append]
    exact h₁.errors.trans (h₁.settings_eq ▸ h₂.errors)

end Sent

theorem sent_publish {payload : Payload} (hunlogged : Message.Unlogged ⟨payload, now⟩)
    (h : (publish payload now).run s = .ok u s') : s.Sent [⟨payload, now⟩] s' := by
  obtain rfl := modify_eq_ok.mp h
  refine ⟨rfl, rfl, rfl, rfl, ?_, ?_⟩
  · rw [List.filterMap_cons_none hunlogged.signal?_eq]
    exact .refl _ _
  · rw [List.filterMap_cons_none hunlogged.error?_eq]
    exact .refl _ _

theorem sent_pushError {source message : String}
    (h : (pushError source message clock).run s = .ok u s') :
    s.Sent [⟨.error ⟨source, message, clock 0⟩, clock 1⟩] s' := by
  obtain ⟨_, s₁, hmodify, hpublish⟩ := bind_eq_ok.mp h
  obtain rfl := modify_eq_ok.mp hmodify
  obtain rfl := modify_eq_ok.mp hpublish
  exact ⟨rfl, rfl, rfl, rfl, .refl _ _, .concat _ _ _⟩

theorem sent_recordSignal {signal : Signal} {outcome : SignalOutcome}
    (h : (recordSignal signal outcome clock).run s = .ok u s') :
    s.Sent [⟨.signal ⟨signal, outcome, clock 0⟩, clock 1⟩] s' := by
  obtain ⟨_, s₁, hmodify, hpublish⟩ := bind_eq_ok.mp h
  obtain rfl := modify_eq_ok.mp hmodify
  obtain rfl := modify_eq_ok.mp hpublish
  exact ⟨rfl, rfl, rfl, rfl, .concat _ _ _, .refl _ _⟩

theorem sent_handleError {source : String} {e : TradingError}
    (h : (handleError source e clock).run s = .ok u s') :
    s.Sent [⟨.error ⟨source, e.message, clock 1⟩, clock 2⟩] s' := by
  -- whether the error halts the session or not, it is counted and pushed
  obtain ⟨s₁, hhalted, hpush⟩ := handleError_run h
  rcases hhalted with rfl | ⟨message, -, rfl⟩
  · exact { sent_pushError hpush with }
  · exact { sent_pushError hpush with }

theorem sent_onLedger {f : Ledger → Calc (Ledger × α)} {a : α}
    (h : (onLedger f).run s = .ok a s') : s.Sent [] s' := by
  obtain ⟨ledger, -, rfl⟩ := onLedger_eq_ok.mp h
  exact { Sent.refl s with }

theorem sent_evaluate {signal : Signal} {outcome : Outcome Approval}
    (h : (evaluate signal clock).run s = .ok outcome s') : s.Sent [] s' := by
  obtain ⟨_, risk, -, -, rfl⟩ := evaluate_run h
  exact { Sent.refl s with }

/-! ## Bringing the session up to date -/

/-- Messages were published that no log keeps. -/
def SentAside (s s' : Session) : Prop := ∃ ms, s.Sent ms s' ∧ ∀ m ∈ ms, m.Unlogged

namespace SentAside

theorem refl (s : Session) : s.SentAside s := ⟨[], .refl s, fun _ hm => nomatch hm⟩

theorem trans (h₁ : s.SentAside s₁) (h₂ : s₁.SentAside s₂) : s.SentAside s₂ := by
  obtain ⟨ms, hsent, hunlogged⟩ := h₁
  obtain ⟨ms', hsent', hunlogged'⟩ := h₂
  exact ⟨ms ++ ms', hsent.trans hsent', List.forall_mem_append.mpr ⟨hunlogged, hunlogged'⟩⟩

end SentAside

theorem aside_publish {payload : Payload} (hunlogged : Message.Unlogged ⟨payload, now⟩)
    (h : (publish payload now).run s = .ok u s') : s.SentAside s' := by
  refine ⟨_, sent_publish hunlogged h, ?_⟩
  intro m hm
  obtain rfl := List.mem_singleton.mp hm
  exact hunlogged

theorem aside_forward {event : LedgerEvent} (h : (forward event clock).run s = .ok u s') :
    s.SentAside s' := by
  cases event with
  | position change position trade =>
    cases trade with
    | none => exact aside_publish ⟨rfl, rfl⟩ h
    | some t =>
      dsimp only [forward] at h
      split at h
      · -- the manager records the trade before it is published
        simp only [bind_eq_ok, get_eq_ok, compute_eq_ok, modify_eq_ok] at h
        obtain ⟨_, _, ⟨rfl, rfl⟩, risk, _, ⟨-, rfl⟩, _, _, rfl, _, _, htrade, hposition⟩ := h
        obtain ⟨ms, hsent, hunlogged⟩ :=
          (aside_publish ⟨rfl, rfl⟩ htrade).trans (aside_publish ⟨rfl, rfl⟩ hposition)
        exact ⟨ms, { hsent with }, hunlogged⟩
      · obtain ⟨_, _, htrade, hposition⟩ := bind_eq_ok.mp h
        exact (aside_publish ⟨rfl, rfl⟩ htrade).trans (aside_publish ⟨rfl, rfl⟩ hposition)
  | _ =>
    obtain ⟨-, rfl⟩ := pure_eq_ok.mp h
    exact .refl s

/-- If no log keeps what is sent for an element of a list, none keeps what is sent for all. -/
theorem aside_forEach {f : α → Clock → Action Unit} {xs : List α}
    (hf : ∀ x clock, ∀ {s s' u}, (f x clock).run s = .ok u s' → s.SentAside s')
    (h : (forEach n f xs clock).run s = .ok clock' s') : s.SentAside s' := by
  induction xs generalizing s clock with
  | nil =>
    obtain ⟨-, rfl⟩ := pure_eq_ok.mp h
    exact .refl s
  | cons x xs ih =>
    obtain ⟨_, s₁, hx, h⟩ := bind_eq_ok.mp h
    exact (hf x clock hx).trans (ih h)

theorem aside_drain (h : (drain clock).run s = .ok clock' s') : s.SentAside s' := by
  obtain ⟨ms, hsent, hunlogged⟩ := aside_forEach (fun _ _ _ _ _ => aside_forward) (drain_run h)
  exact ⟨ms, { hsent with }, hunlogged⟩

/-- The trading state shows the session as it is, by readings of the clock. -/
def Shown (s : Session) (clock : Clock) : Prop :=
  ∃ account risk i j k, s.ledger.summary (clock i) = .ok account ∧
    s.risk.status (clock j) = .ok risk ∧ risk.equity = account.equity ∧
    s.state = snapshot account risk (clock k) s

/-- Messages were published with these entries of the logs.  The last of them is the trading state,
which shows the session as it is. -/
structure Announced (s : Session) (clock : Clock) (signals : List SignalRecord)
    (errors : List ErrorRecord) (s' : Session) : Prop where
  sent : ∃ ms i, s.Sent (ms ++ [⟨.state s'.state, clock i⟩]) s' ∧
    ms.filterMap Message.signal? = signals ∧ ms.filterMap Message.error? = errors
  shown : s'.Shown clock

/-- Messages before those that end in the trading state. -/
theorem Sent.announced (h₁ : s.Sent ms s₁) (h₂ : s₁.Announced clock signals errors s') :
    s.Announced clock (ms.filterMap Message.signal? ++ signals)
      (ms.filterMap Message.error? ++ errors) s' := by
  obtain ⟨⟨ms', i, hsent, rfl, rfl⟩, hshown⟩ := h₂
  refine ⟨⟨ms ++ ms', i, ?_, List.filterMap_append, List.filterMap_append⟩, hshown⟩
  rw [List.append_assoc]
  exact h₁.trans hsent

/-- What has published nothing may come before. -/
theorem Announced.after (h : s₁.Announced clock signals errors s') (hbefore : s.Sent [] s₁) :
    s.Announced clock signals errors s' :=
  hbefore.announced h

/-- The readings that were made before are readings of the same clock. -/
theorem Announced.of_after (h : s.Announced (clock.after n) signals errors s') :
    s.Announced clock signals errors s' := by
  obtain ⟨⟨ms, i, hsent, hlogs⟩, account, risk, j, k, l, hshown⟩ := h
  exact ⟨⟨ms, i + n, hsent, hlogs⟩, account, risk, j + n, k + n, l + n, hshown⟩

theorem announced_sync (h : (sync clock).run s = .ok u s') : s.Announced clock [] [] s' := by
  obtain ⟨s₁, s₂, account, risk, status, _, _, hdrain, haccount, hrisk, hstatus, hrisks, hstate⟩ :=
    sync_run h
  have hlast := sent_publish ⟨rfl, rfl⟩ hstate
  obtain rfl := modify_eq_ok.mp hstate
  obtain ⟨-, rfl⟩ := drained hdrain
  obtain rfl := forEach_cases hrisks
  constructor
  · -- what the ledger and the manager have to tell is kept in no log
    obtain ⟨ms, hpublished, hunlogged⟩ :=
      aside_forEach (fun _ _ _ _ _ => aside_publish ⟨rfl, rfl⟩) hrisks
    obtain ⟨ms', hdrained, hunlogged'⟩ := aside_drain hdrain
    have hsent := hdrained.trans (Sent.trans (s := s₁) { hpublished with } { hlast with })
    rw [← List.append_assoc] at hsent
    have hboth := List.forall_mem_append.mpr ⟨hunlogged', hunlogged⟩
    exact ⟨ms' ++ ms, _, hsent, Message.filterMap_signal?_eq_nil hboth,
      Message.filterMap_error?_eq_nil hboth⟩
  · -- publishing changes neither the ledger nor the manager, so what was read is still so
    have hlogged := logged_publishRisk hrisks
    generalize 3 * s.ledger.takeEvents.1.length = n at *
    generalize 1 * risk.takeNewEvents.1.length = k at *
    refine ⟨account, status, 0 + n, 2 + n, 0 + k + 3 + n, ?_, ?_, ?_, rfl⟩
    · show s₂.ledger.summary _ = _
      rw [hlogged.ledger_eq]
      exact haccount
    · show s₂.risk.status _ = _
      rw [hlogged.risk_eq]
      exact hstatus
    · obtain ⟨-, hequity, -⟩ := RiskManager.updateEquity_cases hrisk
      rw [RiskManager.equity_of_status hstatus, hequity]

/-! ## The calls -/

/-- What an answer that is an error reports under a name. -/
def errorsOf (source : String) (now : Instant) : Outcome α → List ErrorRecord
  | .ok _ => []
  | .error e => [⟨source, e.message, now⟩]

/-- What an answer that is a fatal error reports under a name. -/
def fatalErrorsOf (source : String) (now : Instant) : Outcome α → List ErrorRecord
  | .ok _ => []
  | .error e => if e.isFatal then [⟨source, e.message, now⟩] else []

theorem announced_resetCircuitBreaker {status : TradingStatus}
    (h : (resetCircuitBreaker clock).run s = .ok status s') : s.Announced clock [] [] s' := by
  obtain ⟨-, hsync⟩ := resetCircuitBreaker_run h
  exact (announced_sync hsync).of_after.after { Sent.refl s with }

theorem sent_closeTriggered {timestamp : Instant} {marked : Outcome (Option Ledger.Trigger)}
    {outcome : Outcome (Option Execution)}
    (h : (closeTriggered timestamp marked).run s = .ok outcome s') : s.Sent [] s' := by
  rcases closeTriggered_run h with rfl | ⟨trigger, -, hledger⟩
  · exact .refl s'
  · exact sent_onLedger hledger

theorem announced_finishPrice {tick : PriceTick} {marked : Outcome (Option Ledger.Trigger)}
    {outcome : Outcome (Option Execution)}
    (h : (finishPrice tick marked clock).run s = .ok outcome s') :
    s.Announced clock [] (errorsOf "price" (clock 1) outcome) s' := by
  obtain ⟨s₁, s₂, hclose, hnext, hsync⟩ := finishPrice_run h
  have hannounced := (announced_sync hsync).of_after
  refine .after ?_ (sent_closeTriggered hclose)
  -- an error is published in the place of the price
  rcases hnext with ⟨e, rfl, hhandle⟩ | ⟨closed, rfl, hpublish⟩
  · exact (sent_handleError hhandle).announced hannounced
  · exact (sent_publish ⟨rfl, rfl⟩ hpublish).announced hannounced

theorem announced_finishCandle {c : Candle} {marked : Outcome (Option Ledger.Trigger)}
    {outcome : Outcome (Option Execution)}
    (h : (finishCandle c marked clock).run s = .ok outcome s') :
    s.Announced clock [] (errorsOf "candle" (clock 1) outcome) s' := by
  obtain ⟨s₁, s₂, s₃, hclose, hnext, hpublish, hsync⟩ := finishCandle_run h
  have hannounced :=
    (sent_publish ⟨rfl, rfl⟩ hpublish).announced (announced_sync hsync).of_after
  refine .after ?_ (sent_closeTriggered hclose)
  rcases hnext with ⟨e, rfl, hhandle⟩ | ⟨closed, rfl, rfl⟩
  · exact (sent_handleError hhandle).announced hannounced
  · exact hannounced

theorem announced_manual {source : String} {f : Instant → Ledger → Calc (Ledger × Outcome α)}
    {outcome : Outcome α} (h : (manual source f clock).run s = .ok outcome s') :
    s.Announced clock [] (fatalErrorsOf source (clock 2) outcome) s' := by
  obtain ⟨s₁, s₂, hledger, hnext, hsync⟩ := manual_run h
  have hannounced := (announced_sync hsync).of_after
  refine .after ?_ (sent_onLedger hledger)
  rcases hnext with ⟨e, rfl, hfatal, hhandle⟩ | ⟨hnot, rfl⟩
  · rw [fatalErrorsOf, if_pos hfatal]
    exact (sent_handleError hhandle).announced hannounced
  · -- the caller alone learns of any other error
    cases outcome with
    | ok a => exact hannounced
    | error e =>
      rw [fatalErrorsOf, if_neg (hnot e rfl)]
      exact hannounced

end Session

end SimBroker
