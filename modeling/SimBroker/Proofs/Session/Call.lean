import SimBroker.Proofs.Ledger.Interleaving
import SimBroker.Proofs.Risk.Evaluate
import SimBroker.Proofs.Session.Sync

/-!
# What the calls of a session do

A call that is not refused does its work and then brings the session up to date.  Its work on the
ledger is a few turns with the book; it changes the run state as the call says, or stops the
session because the book is in a bad state.  What it has made of the ledger and of the log of the
risk manager is published only at the end.

## Main definitions

* `Call.endsInSync`, `Call.target`: whether a call ends in `sync`, and the run state that it is for
* `Call.eventTime?`, `Call.readings`: the time of the event that a call brings, and how often a call
  reads the clock for its turns with the book
* `Call.Turns`: the turns that a call takes with the book
* `Worked`: work that records no trade, and leaves the run state unless it stops the session

## Main results

* `perform_cases`: a call works and brings the session up to date, or changes no run state
* `runCalls_induction`: what every call preserves is preserved by all runs of calls
-/

namespace SimBroker

namespace Session

open Session.Action
open Calc (pure_eq_ok)

variable {α : Type} {s s' s₁ s₂ s₃ : Session} {clock : Clock} {ts ts' : List Ledger.Turn}
  {k k' n n' : ℕ}

/-! ## Calls -/

namespace Call

/-- Whether a call ends in `sync`, in a run state. -/
def endsInSync (status : TradingStatus) : Call → Bool
  | .start => status = .stopped
  | .pause | .signal _ => status = .running
  | .resume => status = .paused
  | .place _ => status ≠ .halted
  | .mark _ | .indicators _ => false
  | .stop | .resetCircuitBreaker | .price _ | .candle _ | .finishPrice .. | .finishCandle ..
  | .cancel _ | .close _ | .setExit .. | .strategies _ | .regime _ | .reportError .. => true

/-- The run state that a call is for. -/
def target (status : TradingStatus) : Call → TradingStatus
  | .start | .resume => .running
  | .pause => .paused
  | .stop => .stopped
  | .resetCircuitBreaker => if status = .halted then .running else status
  | _ => status

/-- The time that a call gives to what it closes, if it does not take the clock's. -/
def eventTime? : Call → Option Instant
  | .price tick | .finishPrice tick _ => some tick.timestamp
  | .candle c | .finishCandle c _ => some c.closeTime
  | _ => none

/-- How many readings of the clock a call has made when it has taken its turns with the book. -/
def readings : Call → ℕ
  | .signal _ => 3
  | .place _ | .close _ | .setExit .. => 1
  | _ => 0

end Call

/-- A signal is approved. -/
def Approves (s : Session) (signal : Signal) (clock : Clock) (approval : Approval) : Prop :=
  ∃ account risk, s.ledger.summary (clock 0) = .ok account ∧
    s.risk.evaluate signal account.exposure (clock 1) = .ok (risk, .ok approval)

/-- The turns that a call takes with the book. -/
inductive Call.Turns (s : Session) (clock : Clock) : Call → List Ledger.Turn → Prop
  | none (call : Call) : Turns s clock call []
  | signal {signal : Signal} {approval : Approval} (approves : s.Approves signal clock approval) :
      Turns s clock (.signal signal) [.whole (.place approval.toOrderRequest (clock 2))]
  | mark (tick : PriceTick) :
      Turns s clock (.mark tick) [.mark tick.symbol tick.price tick.timestamp]
  | finishPrice (tick : PriceTick) (trigger : Ledger.Trigger) :
      Turns s clock (.finishPrice tick (.ok (some trigger))) [.finish trigger tick.timestamp]
  | finishCandle (c : Candle) (trigger : Ledger.Trigger) :
      Turns s clock (.finishCandle c (.ok (some trigger))) [.finish trigger c.closeTime]
  | price {tick : PriceTick} {marked : Outcome (Option Ledger.Trigger)} {ts : List Ledger.Turn}
      (finish : Turns s clock (.finishPrice tick marked) ts) :
      Turns s clock (.price tick) (.mark tick.symbol tick.price tick.timestamp :: ts)
  | candle {c : Candle} {marked : Outcome (Option Ledger.Trigger)} {ts : List Ledger.Turn}
      (finish : Turns s clock (.finishCandle c marked) ts) :
      Turns s clock (.candle c) (.mark c.tick.symbol c.tick.price c.tick.timestamp :: ts)
  | place (request : OrderRequest) :
      Turns s clock (.place request) [.whole (.place request (clock 0))]
  | cancel (id : Uuid) : Turns s clock (.cancel id) [.whole (.cancel id)]
  | close (id : Nat) : Turns s clock (.close id) [.whole (.close id (clock 0))]
  | setExit (id : Nat) (kind : TriggerKind) (price : Decimal) :
      Turns s clock (.setExit id kind price) [.whole (.setExit id kind price (clock 0))]

/-- A call takes two turns with the book at most. -/
theorem Call.Turns.length_le {call : Call} (h : call.Turns s clock ts) : ts.length ≤ 2 := by
  cases h with
  | none => exact Nat.zero_le 2
  | price finish =>
    cases finish with
    | none => exact Nat.le_succ 1
    | finishPrice => exact Nat.le_refl 2
  | candle finish =>
    cases finish with
    | none => exact Nat.le_succ 1
    | finishCandle => exact Nat.le_refl 2
  | _ => exact Nat.le_succ 1

/-- A call fills orders at readings of the clock, or at the time of its event. -/
theorem Call.Turns.times_subset {call : Call} (h : call.Turns s clock ts) :
    ts.filterMap Ledger.Turn.time? ⊆ clock.upTo call.readings ++ call.eventTime?.toList := by
  cases h with
  | none | mark | cancel | setExit => exact List.nil_subset _
  | price finish | candle finish =>
    cases finish <;> simp [List.filterMap_cons, Ledger.Turn.time?, Call.eventTime?]
  | finishPrice | finishCandle => simp [Ledger.Turn.time?, Call.eventTime?]
  | signal =>
    intro t ht
    obtain rfl := List.mem_singleton.mp ht
    exact List.mem_append_left _ (Clock.mem_upTo.mpr ⟨2, Nat.lt_succ_self 2, rfl⟩)
  | place | close =>
    intro t ht
    obtain rfl := List.mem_singleton.mp ht
    exact List.mem_append_left _ (Clock.mem_upTo.mpr ⟨0, Nat.lt_succ_self 0, rfl⟩)

/-! ## Work -/

/-- Work that reads the clock `k` times, takes some turns with the book, logs at most `n` decisions,
and leaves the run state unless it stops the session.  It records no trade, and publishes neither
trades nor decisions. -/
structure Worked (s : Session) (clock : Clock) (k : ℕ) (ts : List Ledger.Turn) (n : ℕ)
    (s' : Session) : Prop where
  turns_eq : s.ledger.turns ts = .ok s'.ledger
  tracked : s.risk.Tracked [] n s'.risk
  informed : s.risk.monitor.Informed clock k [] s'.risk.monitor
  status_eq_or : s'.status = s.status ∨ s'.status = .halted
  published : s.Published [] [] s'

theorem Worked.trans (h₁ : s₁.Worked clock k ts n s₂)
    (h₂ : s₂.Worked (clock.after k) k' ts' n' s₃) :
    s₁.Worked clock (k + k') (ts ++ ts') (n + n') s₃ where
  turns_eq := by
    rw [Ledger.turns, List.foldlM_append]
    exact Calc.bind_eq_ok.mpr ⟨s₂.ledger, h₁.turns_eq, h₂.turns_eq⟩
  tracked := h₁.tracked.trans h₂.tracked
  informed := h₁.informed.trans h₂.informed
  published := h₁.published.trans h₂.published
  status_eq_or := by
    rcases h₂.status_eq_or with h | h
    · exact h₁.status_eq_or.imp h.trans h.trans
    · exact .inr h

/-- Logging takes as many readings and decisions as are left for it. -/
theorem Logged.worked (h : s.Logged [] [] s') (clock : Clock) (k n : ℕ) :
    s.Worked clock k [] n s' where
  turns_eq := congrArg Except.ok h.ledger_eq.symm
  tracked := by
    rw [h.risk_eq]
    exact (RiskManager.Tracked.refl _).mono (Nat.zero_le n)
  informed := by
    rw [h.risk_eq]
    exact .refl ..
  status_eq_or := .inl h.status_eq
  published := h.published

theorem worked_handleError {source : String} {e : TradingError} {u : Unit}
    (h : (handleError source e clock).run s = .ok u s') : s.Worked clock 3 [] 1 s' := by
  obtain ⟨s₁, hhalted, hpush⟩ := handleError_run h
  have hlogged : s₁.Logged [] [] s' :=
    (logged_pushError hpush).after ⟨rfl, rfl, rfl, .of_hub_eq rfl⟩
  rcases hhalted with rfl | ⟨message, -, rfl⟩
  · exact hlogged.worked clock 3 1
  · refine ⟨congrArg Except.ok hlogged.ledger_eq.symm, ?_, ?_, .inr hlogged.status_eq,
      hlogged.published⟩
    · rw [hlogged.risk_eq]
      exact RiskManager.tracked_halt ..
    · -- a halt tells the monitor nothing
      rw [hlogged.risk_eq]
      exact .refl ..

/-- An operation of the ledger is a turn with the book. -/
theorem worked_onLedger {f : Ledger → Calc (Ledger × α)} {a : α} {t : Ledger.Turn}
    (hf : ∀ l, l.turn t = do return (← f l).1) (clock : Clock) (k : ℕ)
    (h : (onLedger f).run s = .ok a s') : s.Worked clock k [t] 0 s' := by
  obtain ⟨ledger, hl, rfl⟩ := onLedger_eq_ok.mp h
  refine ⟨?_, .refl _, .refl .., .inl rfl, .of_hub_eq rfl⟩
  rw [Ledger.turns, List.foldlM_cons, hf, hl]
  rfl

theorem worked_evaluate {signal : Signal} {outcome : Outcome Approval}
    (h : (evaluate signal clock).run s = .ok outcome s') :
    s.Worked clock 2 [] 3 s' ∧
      ∀ approval, outcome = .ok approval → s.Approves signal clock approval := by
  obtain ⟨account, risk, haccount, hevaluate, rfl⟩ := evaluate_run h
  -- the monitor is told the equity of the account at the second reading
  have hupdate : s.risk.monitor.perform (.update account.exposure.equity (clock 1)) =
      .ok risk.monitor := RiskManager.update_of_evaluate hevaluate
  have hinformed := DrawdownMonitor.informed_perform hupdate rfl (Nat.lt_succ_self 1)
  refine ⟨⟨rfl, RiskManager.tracked_evaluate hevaluate, hinformed, .inl rfl, .of_hub_eq rfl⟩, ?_⟩
  rintro approval rfl
  exact ⟨account, risk, haccount, hevaluate⟩

theorem worked_evaluateAndPlace {signal : Signal} {answer : Outcome SignalOutcome}
    (hrunning : s.status = .running)
    (h : (evaluateAndPlace signal clock).run s = .ok answer s') :
    ∃ ts, Call.Turns s clock (.signal signal) ts ∧ s.Worked clock 3 ts 3 s' := by
  obtain ⟨judged, s₁, hevaluate, hrest⟩ := evaluateAndPlace_run hrunning h
  obtain ⟨hworked, happroves⟩ := worked_evaluate hevaluate
  rcases hrest with ⟨rfl, -⟩ | ⟨approval, placed, rfl, hplace, -⟩
  · exact ⟨[], .none _, hworked.trans ((Logged.refl s').worked (clock.after 2) 1 0)⟩
  · have hplaced : s₁.Worked (clock.after 2) 1
        [.whole (.place approval.toOrderRequest (clock 2))] 0 s' := by
      refine worked_onLedger (fun l => ?_) (clock.after 2) 1 hplace
      simp only [Ledger.turn, Ledger.step, bind_assoc, pure_bind]
    exact ⟨_, .signal (happroves approval rfl), hworked.trans hplaced⟩

theorem worked_markPrice {tick : PriceTick} {marked : Outcome (Option Ledger.Trigger)}
    (clock : Clock) (h : (markPrice tick).run s = .ok marked s') :
    s.Worked clock 0 [.mark tick.symbol tick.price tick.timestamp] 0 s' :=
  worked_onLedger (fun _ => rfl) clock 0 h

/-- The report that a mark makes of a crossed exit is one turn with the book, and any other none. -/
theorem worked_closeTriggered {timestamp : Instant} {marked : Outcome (Option Ledger.Trigger)}
    {outcome : Outcome (Option Execution)} (clock : Clock)
    (h : (closeTriggered timestamp marked).run s = .ok outcome s') :
    s.Worked clock 0 [] 0 s' ∨ ∃ trigger, marked = .ok (some trigger) ∧
      s.Worked clock 0 [.finish trigger timestamp] 0 s' := by
  rcases closeTriggered_run h with rfl | ⟨trigger, rfl, hledger⟩
  · exact .inl ((Logged.refl s').worked clock 0 0)
  · exact .inr ⟨trigger, rfl, worked_onLedger (fun _ => rfl) clock 0 hledger⟩

/-- Work that ends in `sync`, with at least `k` readings of the clock before it. -/
def WorkedAndSynced (s : Session) (clock : Clock) (k : ℕ) (ts : List Ledger.Turn) (n : ℕ)
    (s' : Session) : Prop :=
  ∃ k' s₁, k ≤ k' ∧ s.Worked clock k' ts n s₁ ∧ s₁.Synced (clock.after k') s'

/-- Bringing the session up to date takes the events of the ledger, and nothing else of it. -/
theorem WorkedAndSynced.ledger_eq (h : s.WorkedAndSynced clock k [] n s') :
    s'.ledger = s.ledger.takeEvents.2 := by
  obtain ⟨_, s₁, -, hworked, hsynced⟩ := h
  have hledger : s.ledger = s₁.ledger := pure_eq_ok.mp hworked.turns_eq
  rw [hledger]
  exact hsynced.ledger_eq

theorem Worked.andSynced (h₁ : s₁.Worked clock k ts n s₂)
    (h₂ : s₂.WorkedAndSynced (clock.after k) k' ts' n' s₃) :
    s₁.WorkedAndSynced clock (k + k') (ts ++ ts') (n + n') s₃ := by
  obtain ⟨j, s, hle, hworked, hsynced⟩ := h₂
  rw [Clock.after_after] at hsynced
  exact ⟨k + j, s, Nat.add_le_add_left hle k, h₁.trans hworked, hsynced⟩

theorem WorkedAndSynced.mono (h : s.WorkedAndSynced clock k ts n s') (hk : k' ≤ k) :
    s.WorkedAndSynced clock k' ts n s' := by
  obtain ⟨j, s₁, hle, hrest⟩ := h
  exact ⟨j, s₁, hk.trans hle, hrest⟩

/-- What ends in `sync` after some work. -/
theorem Worked.synced {u : Unit} (h : s.Worked clock k ts n s₁)
    (hsync : (sync (clock.after k)).run s₁ = .ok u s') : s.WorkedAndSynced clock k ts n s' :=
  ⟨k, s₁, Nat.le_refl k, h, Session.synced hsync⟩

/-- A signal in a running session takes its turns, and what follows only logs or halts. -/
theorem Signaled.worked {signal : Signal} {answer : Outcome SignalOutcome}
    (h : Signaled signal clock s answer s') (hrunning : s.status = .running) :
    ∃ ts, Call.Turns s clock (.signal signal) ts ∧ s.WorkedAndSynced clock 3 ts 4 s' := by
  cases h with
  | ignored not_running => exact absurd hrunning not_running
  | judged _ judge record sync =>
    obtain ⟨ts, hturns, hworked⟩ := worked_evaluateAndPlace hrunning judge
    have hlogged := (logged_recordSignal record).worked (clock.after 3) 2 1
    have hall := (hworked.trans hlogged).synced sync
    rw [List.append_nil] at hall
    exact ⟨ts, hturns, hall.mono (Nat.le_add_right 3 2)⟩
  | failed _ judge handle record sync =>
    obtain ⟨ts, hturns, hworked⟩ := worked_evaluateAndPlace hrunning judge
    have hlogged := (logged_recordSignal record).worked (clock.after 6) 2 0
    have hall := (hworked.trans ((worked_handleError handle).trans hlogged)).synced sync
    rw [List.append_nil, List.append_nil] at hall
    exact ⟨ts, hturns, hall.mono (Nat.le_add_right 3 5)⟩

theorem worked_finishPrice {tick : PriceTick} {marked : Outcome (Option Ledger.Trigger)}
    {outcome : Outcome (Option Execution)}
    (h : (finishPrice tick marked clock).run s = .ok outcome s') :
    ∃ ts, Call.Turns s clock (.finishPrice tick marked) ts ∧ s.WorkedAndSynced clock 0 ts 1 s' := by
  obtain ⟨s₁, s₂, hclose, hnext, hsync⟩ := finishPrice_run h
  have hworked : s₁.Worked clock 3 [] 1 s₂ := by
    rcases hnext with ⟨e, -, hhandle⟩ | ⟨closed, -, hpublish⟩
    · exact worked_handleError hhandle
    · exact (logged_publish hpublish).worked clock 3 1
  have hrest := hworked.synced hsync
  rcases worked_closeTriggered clock hclose with hclosed | ⟨trigger, rfl, hclosed⟩
  · exact ⟨[], .none _, (hclosed.andSynced hrest).mono (Nat.zero_le _)⟩
  · exact ⟨_, .finishPrice tick trigger, (hclosed.andSynced hrest).mono (Nat.zero_le _)⟩

theorem worked_finishCandle {c : Candle} {marked : Outcome (Option Ledger.Trigger)}
    {outcome : Outcome (Option Execution)}
    (h : (finishCandle c marked clock).run s = .ok outcome s') :
    ∃ ts, Call.Turns s clock (.finishCandle c marked) ts ∧ s.WorkedAndSynced clock 0 ts 1 s' := by
  obtain ⟨s₁, s₂, s₃, hclose, hnext, hpublish, hsync⟩ := finishCandle_run h
  have hworked : s₁.Worked clock 3 [] 1 s₂ := by
    rcases hnext with ⟨e, -, hhandle⟩ | ⟨closed, -, rfl⟩
    · exact worked_handleError hhandle
    · exact (Logged.refl s₂).worked clock 3 1
  have hrest := (hworked.trans ((logged_publish hpublish).worked _ 1 0)).synced hsync
  rcases worked_closeTriggered clock hclose with hclosed | ⟨trigger, rfl, hclosed⟩
  · exact ⟨[], .none _, (hclosed.andSynced hrest).mono (Nat.zero_le _)⟩
  · exact ⟨_, .finishCandle c trigger, (hclosed.andSynced hrest).mono (Nat.zero_le _)⟩

/-- A manual operation answers what the ledger answers, and brings the session up to date. -/
theorem manual_cases {source : String} {f : Instant → Ledger → Calc (Ledger × Outcome α)}
    {outcome : Outcome α} (h : (manual source f clock).run s = .ok outcome s') :
    ∃ s₁, (onLedger (f (clock 0))).run s = .ok outcome s₁ ∧
      s₁.WorkedAndSynced (clock.after 1) 3 [] 1 s' := by
  obtain ⟨s₁, s₂, hledger, hnext, hsync⟩ := manual_run h
  have hworked : s₁.Worked (clock.after 1) 3 [] 1 s₂ := by
    rcases hnext with ⟨e, -, -, hhandle⟩ | ⟨-, rfl⟩
    · exact worked_handleError hhandle
    · exact (Logged.refl s₂).worked _ 3 1
  exact ⟨s₁, hledger, hworked.synced hsync⟩

/-- A manual operation is a turn with the book. -/
theorem worked_manual {source : String} {f : Instant → Ledger → Calc (Ledger × Outcome α)}
    {outcome : Outcome α} {t : Ledger.Turn} (hf : ∀ l, l.turn t = do return (← f (clock 0) l).1)
    (h : (manual source f clock).run s = .ok outcome s') :
    s.WorkedAndSynced clock 1 [t] 1 s' := by
  obtain ⟨s₁, hledger, hrest⟩ := manual_cases h
  exact ((worked_onLedger hf clock 1 hledger).andSynced hrest).mono (Nat.le_add_right 1 3)

/-! ## All calls -/

/-- What a call has done when it comes to `sync` after `k` readings of the clock. -/
structure Acted (call : Call) (clock : Clock) (k : ℕ) (s s₁ : Session) : Prop where
  readings_le : call.readings ≤ k
  turns_eq : ∃ ts, call.Turns s clock ts ∧ s.ledger.turns ts = .ok s₁.ledger
  status_eq_or : s₁.status = call.target s.status ∨ s₁.status = .halted
  tracked : s.risk.Tracked [] 4 s₁.risk
  informed : s.risk.monitor.Informed clock k [] s₁.risk.monitor
  published : s.Published [] [] s₁

theorem Acted.limits_eq {call : Call} (h : Acted call clock k s s₁) :
    s₁.risk.limits = s.risk.limits :=
  h.tracked.limits_eq

/-- What a call has done when it ends: it has come to `sync`, or it has marked a position at most
and left the risk manager and the run state as they were. -/
inductive Performed (call : Call) (clock : Clock) (s s' : Session) : Prop
  | synced {k : ℕ} {s₁ : Session} (endsInSync : call.endsInSync s.status)
      (acted : Acted call clock k s s₁) (synced : s₁.Synced (clock.after k) s')
  | apart (endsInSync : call.endsInSync s.status = false)
      (turns_eq : ∃ ts, call.Turns s clock ts ∧ s.ledger.turns ts = .ok s'.ledger)
      (risk_eq : s'.risk = s.risk) (status_eq : s'.status = s.status)
      (remarked : s.ledger.Remarked none s'.ledger) (published : s.Published [] [] s')

/-- A call takes its turns with the book and leaves it quiet after them, and leaves the limits. -/
theorem Performed.exists_turns {call : Call} (h : Performed call clock s s') :
    ∃ ts l, call.Turns s clock ts ∧ s.ledger.turns ts = .ok l ∧ l.Quiet s'.ledger ∧
      s'.risk.limits = s.risk.limits := by
  cases h with
  | apart _ turns_eq risk_eq _ =>
    obtain ⟨ts, hturns, hledger⟩ := turns_eq
    exact ⟨ts, _, hturns, hledger, .refl _, congrArg RiskManager.limits risk_eq⟩
  | synced _ acted synced =>
    obtain ⟨ts, hturns, hledger⟩ := acted.turns_eq
    refine ⟨ts, _, hturns, hledger, ?_, synced.limits_eq.trans acted.limits_eq⟩
    rw [synced.ledger_eq]
    exact .takeEvents _

theorem WorkedAndSynced.performed {call : Call}
    (h : s.WorkedAndSynced clock call.readings ts n s') (hn : n ≤ 4)
    (hturns : call.Turns s clock ts) (hsync : call.endsInSync s.status)
    (htarget : call.target s.status = s.status) : Performed call clock s s' := by
  obtain ⟨k, s₁, hle, hworked, hsynced⟩ := h
  refine .synced hsync ⟨hle, ⟨ts, hturns, hworked.turns_eq⟩, ?_, hworked.tracked.mono hn,
    hworked.informed, hworked.published⟩ hsynced
  rw [htarget]
  exact hworked.status_eq_or

theorem Logged.performed {call : Call} (h : s.Logged [] [] s')
    (hsync : call.endsInSync s.status = false) : Performed call clock s s' := by
  refine .apart hsync ⟨[], .none call, congrArg Except.ok h.ledger_eq.symm⟩ h.risk_eq h.status_eq ?_
    h.published
  rw [h.ledger_eq]
  exact .refl _

/-- A change of the run state comes to `sync` from its sources only. -/
theorem performed_transition {call : Call} {action : String} {sources : List TradingStatus}
    {target : TradingStatus} {outcome : Outcome TradingStatus} (hreadings : call.readings = 0)
    (hsync : call.endsInSync s.status = sources.contains s.status)
    (htarget : call.target s.status = target)
    (h : (transition action sources target clock).run s = .ok outcome s') :
    Performed call clock s s' := by
  rcases transition_run h with ⟨hsource, -, hsyncs⟩ | ⟨hsource, rfl, -⟩
  · rw [← Clock.after_zero clock] at hsyncs
    refine .synced (hsync.trans hsource) ?_ (synced hsyncs)
    exact ⟨hreadings.le, ⟨[], .none call, rfl⟩, .inl htarget.symm,
      (RiskManager.Tracked.refl _).mono (Nat.zero_le 4), .refl .., .of_hub_eq rfl⟩
  · exact (Logged.refl _).performed (hsync.trans hsource)

theorem performed_sync {call : Call} {u : Unit} (hreadings : call.readings = 0)
    (hsync : call.endsInSync s.status) (htarget : call.target s.status = s.status)
    (hlogged : s.Logged [] [] s₁) (h : (sync (clock.after k)).run s₁ = .ok u s') :
    Performed call clock s s' :=
  WorkedAndSynced.performed
    ⟨k, s₁, hreadings.trans_le (Nat.zero_le k), hlogged.worked clock k 0, synced h⟩ (Nat.zero_le 4)
    (.none call) hsync htarget

theorem performed_resetCircuitBreaker {outcome : TradingStatus}
    (h : (resetCircuitBreaker clock).run s = .ok outcome s') :
    Performed .resetCircuitBreaker clock s s' := by
  obtain ⟨-, hsyncs⟩ := resetCircuitBreaker_run h
  refine .synced rfl ?_ (synced hsyncs)
  exact ⟨Nat.zero_le 1, ⟨[], .none _, rfl⟩, .inl rfl,
    (RiskManager.tracked_reset s.risk (clock 0)).mono (Nat.le_add_left 1 3), .refl ..,
    .of_hub_eq rfl⟩

/-- A signal comes to `sync` in a running session only. -/
theorem performed_onSignal {signal : Signal} {outcome : Outcome SignalOutcome}
    (h : (onSignal signal clock).run s = .ok outcome s') :
    Performed (.signal signal) clock s s' := by
  have hsignaled := onSignal_run h
  by_cases hrunning : s.status = .running
  · obtain ⟨ts, hturns, hworked⟩ := hsignaled.worked hrunning
    exact hworked.performed le_rfl hturns (decide_eq_true hrunning) rfl
  · cases hsignaled with
    | ignored _ record =>
      exact (logged_recordSignal record).performed (decide_eq_false hrunning)
    | judged running | failed running => exact absurd running hrunning

/-- An order by hand comes to `sync` unless the session is halted. -/
theorem performed_placeOrder {request : OrderRequest} {outcome : Outcome Execution}
    (h : (placeOrder request clock).run s = .ok outcome s') :
    Performed (.place request) clock s s' := by
  rcases placeOrder_run h with ⟨hhalted, rfl, -⟩ | ⟨hhalted, hmanual⟩
  · exact (Logged.refl _).performed (decide_eq_false (not_not.mpr hhalted))
  · refine (worked_manual (fun l => ?_) hmanual).performed (Nat.le_add_left 1 3) (.place request)
      (decide_eq_true hhalted) rfl
    simp only [Ledger.turn, Ledger.step, bind_assoc, pure_bind]

/-- What every call does. -/
theorem perform_cases {call : Call} {u : Unit} (h : (perform call clock).run s = .ok u s') :
    Performed call clock s s' := by
  cases call with
  | start | pause | resume | stop =>
    obtain ⟨_, h⟩ := discard_eq_ok.mp h
    refine performed_transition rfl ?_ rfl h
    cases s.status <;> rfl
  | resetCircuitBreaker =>
    obtain ⟨_, h⟩ := discard_eq_ok.mp h
    exact performed_resetCircuitBreaker h
  | signal signal =>
    obtain ⟨_, h⟩ := discard_eq_ok.mp h
    exact performed_onSignal h
  | price tick =>
    obtain ⟨_, h⟩ := discard_eq_ok.mp h
    obtain ⟨marked, s₁, hmark, h⟩ := bind_eq_ok.mp h
    obtain ⟨ts, hturns, hworked⟩ := worked_finishPrice h
    -- what a finish does is the same for the session before the mark
    have hturns : Call.Turns s clock (.finishPrice tick marked) ts := by
      cases hturns <;> constructor
    exact ((worked_markPrice clock hmark).andSynced hworked).performed (Nat.le_add_left 1 3)
      (.price hturns) rfl rfl
  | candle c =>
    obtain ⟨_, h⟩ := discard_eq_ok.mp h
    obtain ⟨marked, s₁, hmark, h⟩ := bind_eq_ok.mp h
    obtain ⟨ts, hturns, hworked⟩ := worked_finishCandle h
    have hturns : Call.Turns s clock (.finishCandle c marked) ts := by
      cases hturns <;> constructor
    exact ((worked_markPrice clock hmark).andSynced hworked).performed (Nat.le_add_left 1 3)
      (.candle hturns) rfl rfl
  | mark tick =>
    obtain ⟨_, h⟩ := discard_eq_ok.mp h
    have hworked := worked_markPrice clock h
    obtain ⟨ledger, hrecord, rfl⟩ := onLedger_eq_ok.mp h
    exact .apart rfl ⟨_, .mark tick, hworked.turns_eq⟩ rfl rfl
      (Ledger.remarked_recordPrice hrecord) (.of_hub_eq rfl)
  | finishPrice tick marked =>
    obtain ⟨_, h⟩ := discard_eq_ok.mp h
    obtain ⟨ts, hturns, hworked⟩ := worked_finishPrice h
    exact hworked.performed (Nat.le_add_left 1 3) hturns rfl rfl
  | finishCandle c marked =>
    obtain ⟨_, h⟩ := discard_eq_ok.mp h
    obtain ⟨ts, hturns, hworked⟩ := worked_finishCandle h
    exact hworked.performed (Nat.le_add_left 1 3) hturns rfl rfl
  | indicators v => exact (logged_publish h).performed rfl
  | place request =>
    obtain ⟨_, h⟩ := discard_eq_ok.mp h
    exact performed_placeOrder h
  | cancel id =>
    obtain ⟨_, h⟩ := discard_eq_ok.mp h
    exact ((worked_manual (fun _ => rfl) h).mono (Nat.zero_le 1)).performed (Nat.le_add_left 1 3)
      (.cancel id) rfl rfl
  | close id =>
    obtain ⟨_, h⟩ := discard_eq_ok.mp h
    refine (worked_manual (fun l => ?_) h).performed (Nat.le_add_left 1 3) (.close id) rfl rfl
    simp only [Ledger.turn, Ledger.step, bind_assoc, pure_bind]
  | setExit id kind price =>
    obtain ⟨_, h⟩ := discard_eq_ok.mp h
    exact (worked_manual (fun _ => rfl) h).performed (Nat.le_add_left 1 3) (.setExit id kind price)
      rfl rfl
  | strategies | regime =>
    obtain ⟨_, s₁, hmodify, h⟩ := bind_eq_ok.mp h
    obtain rfl := modify_eq_ok.mp hmodify
    refine performed_sync (k := 0) rfl rfl rfl ?_ h
    exact ⟨rfl, rfl, rfl, .of_hub_eq rfl⟩
  | reportError source message =>
    obtain ⟨_, s₁, hpush, h⟩ := bind_eq_ok.mp h
    exact performed_sync rfl rfl rfl (logged_pushError hpush) h

/-- What every call preserves is preserved by all runs of calls. -/
theorem runCalls_induction {P : Session → Prop} {calls : List (Call × Clock)} {u : Unit}
    (hs : P s) (hstep : ∀ c ∈ calls, ∀ {s s'}, P s → Performed c.1 c.2 s s' → P s')
    (h : (runCalls calls).run s = .ok u s') : P s' :=
  forM_induction hs (fun c hc _ _ _ hs hcall => hstep c hc hs (perform_cases hcall)) h

end Session

end SimBroker
