import SimBroker.Proofs.Ledger.Refusals
import SimBroker.Proofs.Session.Delivery
import SimBroker.Proofs.Session.Messages

/-!
# What becomes of a signal

A signal is ignored unless the session runs.  Else the risk manager rejects it or refuses to judge
it, or the ledger is asked to fill its order.  Only an order that is filled changes the book: either
the signal is executed, or the book is found in a bad state and the error is fatal.

## Main definitions

* `SignalOutcome.ofAnswer`, `SignalRecord.ofAnswer`: what becomes of a signal, as told by the answer
  to it, and its entry in the audit log
* `Order.Executes`: the order that executes a signal
* `Judged`: what becomes of a signal in a running session, and the book after it

## Main results

* `judged_evaluateAndPlace`: the four ways in which a signal is judged
* `onSignal_of_not_running`, `onSignal_of_running`: what a signal does in the run states
* `onSignal_cases`: how a signal ends
* `refusal_leaves_ledger`: an operation of the ledger, and a signal, that is refused
-/

namespace SimBroker

theorem Ledger.takeEvents_of_events_eq_nil {l : Ledger} (h : l.events = some []) :
    l.takeEvents.2 = l := by
  have hleft : l.events.map (fun _ => ([] : List LedgerEvent)) = l.events := by rw [h]; rfl
  rw [takeEvents, hleft]

/-- What becomes of a signal, as told by the answer to it. -/
def SignalOutcome.ofAnswer : Outcome SignalOutcome → SignalOutcome
  | .ok outcome => outcome
  | .error e => .failed e.message

/-- The reading of the clock of a signal's call at which it is recorded.  An order that was asked
for comes before it, and so does an error. -/
def SignalOutcome.recordedAt (clock : Clock) : SignalOutcome → Instant
  | .ignored _ => clock 0
  | .executed .. | .rejected _ => clock 3
  | .failed _ => clock 6

/-- The entry of the audit log for a signal that was answered so. -/
def SignalRecord.ofAnswer (signal : Signal) (answer : Outcome SignalOutcome) (clock : Clock) :
    SignalRecord :=
  ⟨signal, .ofAnswer answer, (SignalOutcome.ofAnswer answer).recordedAt clock⟩

/-- The order that executes a signal. -/
structure Order.Executes (order : Order) (signal : Signal) (id : Uuid) (size : Decimal) : Prop where
  id_eq : order.id = id
  quantity_eq : order.quantity = size
  symbol_eq : order.symbol = signal.symbol
  side_eq : order.side = .entering signal.direction
  strategyTag_eq : order.strategyTag = signal.strategyTag

namespace Session

open Session.Action

variable {s s' s₁ : Session} {signal : Signal} {clock : Clock}
  {judged answer : Outcome SignalOutcome} {l : Ledger}

/-! ## Judging a signal -/

/-- What becomes of a signal in a running session: the answer to its evaluation and its order, and
the book with the order. -/
inductive Judged (s : Session) (signal : Signal) (clock : Clock) :
    Outcome SignalOutcome → Ledger → Prop
  | rejected (reason : String) : Judged s signal clock (.ok (.rejected reason)) s.ledger
  | executed {approval : Approval} {execution : Execution} {l : Ledger}
      (signal_eq : approval.signal = signal)
      (place_eq : s.ledger.place approval.toOrderRequest (clock 2) = .ok (l, .ok execution)) :
      Judged s signal clock (.ok (.executed execution.order.id approval.size)) l
  | failed {e : TradingError} (not_fatal : ¬ e.isFatal) : Judged s signal clock (.error e) s.ledger
  | fatal {e : TradingError} (isFatal : e.isFatal) (l : Ledger) : Judged s signal clock (.error e) l

theorem Judged.of_error {e : TradingError} (h : ¬ e.isFatal → l = s.ledger) :
    Judged s signal clock (.error e) l := by
  by_cases hfatal : e.isFatal
  · exact .fatal hfatal l
  · obtain rfl := h hfatal
    exact .failed hfatal

/-- What is judged is neither ignored nor failed, so it is recorded without an error before it. -/
theorem Judged.entry_eq {outcome : SignalOutcome} (h : Judged s signal clock (.ok outcome) l) :
    SignalRecord.ofAnswer signal (.ok outcome) clock = ⟨signal, outcome, clock 3⟩ := by
  cases h <;> rfl

theorem judged_evaluateAndPlace (hrunning : s.status = .running)
    (h : (evaluateAndPlace signal clock).run s = .ok judged s') :
    Judged s signal clock judged s'.ledger := by
  obtain ⟨outcome, s₁, hevaluate, hrest⟩ := evaluateAndPlace_run hrunning h
  obtain ⟨hworked, happroves⟩ := worked_evaluate hevaluate
  -- the evaluation takes no turn with the book
  have hledger : s₁.ledger = s.ledger := (Calc.pure_eq_ok.mp hworked.turns_eq).symm
  rcases hrest with ⟨rfl, ⟨reason, rfl⟩ | ⟨e, rfl⟩⟩ | ⟨approval, placed, rfl, hplace, rfl⟩
  · rw [hledger]
    exact .rejected reason
  · exact .of_error fun _ => hledger
  · obtain ⟨l, hl, rfl⟩ := onLedger_eq_ok.mp hplace
    rw [hledger] at hl
    cases placed with
    | error e => exact .of_error (Ledger.place_refused hl)
    | ok execution =>
      obtain ⟨account, risk, -, happroved⟩ := happroves approval rfl
      obtain ⟨-, _, _, -, -, hsized⟩ := RiskManager.evaluate_ok happroved
      exact .executed hsized.signal_eq hl

theorem sent_evaluateAndPlace (hrunning : s.status = .running)
    (h : (evaluateAndPlace signal clock).run s = .ok judged s') : s.Sent [] s' := by
  obtain ⟨outcome, s₁, hevaluate, hrest⟩ := evaluateAndPlace_run hrunning h
  have hevaluated := sent_evaluate hevaluate
  rcases hrest with ⟨rfl, -⟩ | ⟨approval, placed, -, hplace, -⟩
  · exact hevaluated
  · exact hevaluated.trans (sent_onLedger hplace)

/-! ## A signal -/

/-- The answer to a signal, from what was judged: an error that is not fatal is what has become of
the signal. -/
def answerTo : Outcome SignalOutcome → Outcome SignalOutcome
  | .ok outcome => .ok outcome
  | .error e => if e.isFatal then .error e else .ok (.failed e.message)

theorem ofAnswer_answerTo (judged : Outcome SignalOutcome) :
    SignalOutcome.ofAnswer (answerTo judged) = .ofAnswer judged := by
  cases judged with
  | ok outcome => rfl
  | error e =>
    dsimp only [answerTo]
    split <;> rfl

/-- In every other run state a signal is recorded, and ignored. -/
theorem onSignal_of_not_running (hstatus : s.status ≠ .running)
    (h : (onSignal signal clock).run s = .ok answer s') :
    answer = .ok (.ignored s.status) ∧
      s.Sent [⟨.signal (.ofAnswer signal answer clock), clock 1⟩] s' ∧ s.Logged [] [] s' := by
  cases onSignal_run h with
  | ignored _ record => exact ⟨rfl, sent_recordSignal record, logged_recordSignal record⟩
  | judged running | failed running => exact absurd running hstatus

/-- In a running session a signal is judged and its order placed.  Then it is recorded, after the
error if there was one, and the session is brought up to date. -/
theorem onSignal_of_running (hrunning : s.status = .running)
    (h : (onSignal signal clock).run s = .ok answer s') :
    ∃ judged s₁, (evaluateAndPlace signal clock).run s = .ok judged s₁ ∧ answer = answerTo judged ∧
      s'.ledger = s₁.ledger.takeEvents.2 ∧
      s₁.Announced clock [.ofAnswer signal judged clock] (errorsOf "signal" (clock 4) judged)
        s' := by
  cases onSignal_run h with
  | ignored not_running => exact absurd hrunning not_running
  | judged _ judge record sync =>
    refine ⟨_, _, judge, rfl, ?_, ?_⟩
    · exact (((logged_recordSignal record).worked (clock.after 3) 2 0).synced sync).ledger_eq
    · rw [(judged_evaluateAndPlace hrunning judge).entry_eq]
      exact (sent_recordSignal record).announced (announced_sync sync).of_after
  | failed _ judge handle record sync =>
    have hrecorded := (logged_recordSignal record).worked (clock.after 6) 2 0
    refine ⟨_, _, judge, rfl, ?_, ?_⟩
    · exact (((worked_handleError handle).trans hrecorded).synced sync).ledger_eq
    · -- an error is logged, and may halt the session, before the signal is recorded
      exact (sent_handleError handle).announced
        ((sent_recordSignal record).announced (announced_sync sync).of_after)

/-- A signal ends in a fatal error, in one more order, or with the book left alone.  In a running
session the events of the book are taken then. -/
theorem onSignal_cases (h : (onSignal signal clock).run s = .ok answer s') :
    (∃ e, answer = .error e ∧ e.isFatal) ∨
    (∃ id size order, answer = .ok (.executed id size) ∧
      s'.ledger.orders = s.ledger.orders ++ [order] ∧ order.Executes signal id size) ∨
    ∃ outcome, answer = .ok outcome ∧ (∀ id size, outcome ≠ .executed id size) ∧
      (s'.ledger = s.ledger ∨ s'.ledger = s.ledger.takeEvents.2) := by
  by_cases hrunning : s.status = .running
  · obtain ⟨judged, s₁, hevaluate, rfl, hledger, -⟩ := onSignal_of_running hrunning h
    have hjudged := judged_evaluateAndPlace hrunning hevaluate
    rw [hledger]
    generalize s₁.ledger = l at hjudged ⊢
    cases hjudged with
    | rejected reason => exact .inr (.inr ⟨_, rfl, nofun, .inr rfl⟩)
    | @executed approval execution l signal_eq place_eq =>
      obtain ⟨horders, hsymbol, hside, hquantity, htag⟩ := Ledger.place_ok place_eq
      refine .inr (.inl ⟨_, _, execution.order, rfl, horders, rfl, hquantity, ?_, ?_, ?_⟩)
      · rw [hsymbol, ← signal_eq]
        rfl
      · rw [hside, ← signal_eq]
        rfl
      · rw [htag, ← signal_eq]
        rfl
    | @failed e not_fatal =>
      rw [answerTo, if_neg not_fatal]
      exact .inr (.inr ⟨_, rfl, nofun, .inr rfl⟩)
    | @fatal e isFatal =>
      rw [answerTo, if_pos isFatal]
      exact .inl ⟨e, rfl, isFatal⟩
  · obtain ⟨rfl, -, hlogged⟩ := onSignal_of_not_running hrunning h
    exact .inr (.inr ⟨_, rfl, nofun, .inl hlogged.ledger_eq⟩)

theorem isFatal_of_onSignal {e : TradingError}
    (h : (onSignal signal clock).run s = .ok (.error e) s') : e.isFatal := by
  rcases onSignal_cases h with ⟨e', herror, hfatal⟩ | ⟨_, _, _, hok, -⟩ | ⟨_, hok, -⟩
  · obtain rfl := Except.error.inj herror
    exact hfatal
  · exact nomatch hok
  · exact nomatch hok

/-- A signal is executed if and only if it has added an order, and then it has added this one. -/
theorem order_of_onSignal {outcome : SignalOutcome}
    (h : (onSignal signal clock).run s = .ok (.ok outcome) s') :
    ((∃ id size, outcome = .executed id size) ↔ s'.ledger.orders ≠ s.ledger.orders) ∧
      ∀ id size, outcome = .executed id size →
        ∃ order, s'.ledger.orders = s.ledger.orders ++ [order] ∧ order.Executes signal id size := by
  rcases onSignal_cases h with ⟨e, herror, -⟩ | ⟨id, size, order, houtcome, horders, horder⟩ |
    ⟨_, houtcome, hnot, hledger⟩
  · exact nomatch herror
  · obtain rfl := Except.ok.inj houtcome
    constructor
    · refine iff_of_true ⟨id, size, rfl⟩ fun hsame => ?_
      rw [horders, List.append_right_eq_self] at hsame
      exact List.cons_ne_nil _ _ hsame
    · intro id' size' houtcome
      obtain ⟨rfl, rfl⟩ := SignalOutcome.executed.inj houtcome
      exact ⟨order, horders, horder⟩
  · obtain rfl := Except.ok.inj houtcome
    constructor
    · refine iff_of_false (fun ⟨id, size, hexecuted⟩ => hnot id size hexecuted) (not_not.mpr ?_)
      rcases hledger with hledger | hledger <;> rw [hledger]
      rfl
    · intro id size hexecuted
      exact absurd hexecuted (hnot id size)

/-! ## Refusals -/

/-- An operation of the ledger that answers with an error leaves the book as it is, part by part,
unless the error is a violated invariant or the operation has recorded a positive price.  After
every run a signal that is ignored, rejected or failed leaves it so too. -/
theorem refusal_leaves_ledger :
    (∀ (l l' : Ledger) op answer e, l.step op = .ok (l', answer) → answer.error? = some e →
      (∀ message, e ≠ .invariantViolation message) →
      (∀ symbol price timestamp, op = .updatePrice symbol price timestamp → price ≤ 0) →
        l' = l) ∧
    ∀ settings hub firstId begin calls s₀ s signal clock outcome s',
      new settings hub firstId begin = .ok s₀ → (runCalls calls).run s₀ = .ok () s →
      (onSignal signal clock).run s = .ok (.ok outcome) s' →
      (∀ id size, outcome ≠ .executed id size) → s'.ledger = s.ledger := by
  constructor
  · intro l l' op answer e hstep hanswer he hop
    refine Ledger.step_refused hstep hanswer (fun hfatal => ?_) hop
    obtain ⟨message, rfl⟩ := TradingError.isFatal_iff.mp hfatal
    exact he message rfl
  · intro settings hub firstId begin calls s₀ s signal clock outcome s' hnew hrun hsignal hout
    -- between calls no event waits, so none is taken either
    have hs := atRest_run hnew hrun
    rcases onSignal_cases hsignal with ⟨e, herror, -⟩ | ⟨id, size, _, hexecuted, -⟩ |
      ⟨_, -, -, hledger | hledger⟩
    · exact nomatch herror
    · exact absurd (Except.ok.inj hexecuted) (hout id size)
    · exact hledger
    · rw [hledger, Ledger.takeEvents_of_events_eq_nil hs.events_eq]

/-- A signal to buy at 80. -/
def buySignal : Signal :=
  ⟨"A", .long, .lit 80 0, .lit 70 0, .lit 110 0, "t", .lit 1 0, none, default⟩

/-- With a position held, an order for more than the balance is refused, and so is a signal for one
more entry. -/
theorem refusal_leaves_ledger_held : ∃ s₀ s s' l answer e reason,
    new freeSettings (.new 1) default default = .ok s₀ ∧
    (runCalls losingCalls).run s₀ = .ok () s ∧ s.ledger.positions.size = 1 ∧
    s.ledger.step (.place (.market "A" .buy (.lit 1000000 0)) default) = .ok (l, answer) ∧
    answer.error? = some e ∧ l = s.ledger ∧
    (onSignal buySignal default).run s = .ok (.ok (.rejected reason)) s' ∧
    s'.ledger = s.ledger := by
  have hrefused : ((new freeSettings (.new 1) default default).toOption.bind fun s₀ =>
      (ended? (runCalls losingCalls) s₀).bind fun s =>
        (s.ledger.step (.place (.market "A" .buy (.lit 1000000 0)) default)).toOption.bind fun r =>
          r.2.error?.bind fun e => (answer? (onSignal buySignal default) s).bind fun answer =>
            some (s.ledger.positions.size, e.isFatal, answer)) =
      some (1, false, .ok (.rejected RejectReason.symbolLimitExceeded.message)) := by decide +kernel
  obtain ⟨s₀, hnew, h⟩ := Calc.exists_eq_ok hrefused
  obtain ⟨s, hended, h⟩ := Option.bind_eq_some_iff.mp h
  obtain ⟨⟨l, answer⟩, hstep, h⟩ := Calc.exists_eq_ok h
  obtain ⟨e, he, h⟩ := Option.bind_eq_some_iff.mp h
  obtain ⟨outcome, hsignal, h⟩ := Option.bind_eq_some_iff.mp h
  simp only [Option.some.injEq, Prod.mk.injEq] at h
  obtain ⟨hsize, hfatal, rfl⟩ := h
  obtain ⟨⟨⟩, hrun⟩ := ended?_eq_some.mp hended
  obtain ⟨s', hsignal⟩ := answer?_eq_some.mp hsignal
  obtain ⟨hoperation, hrefusal⟩ := refusal_leaves_ledger
  refine ⟨s₀, s, s', l, answer, e, _, hnew, hrun, hsize, hstep, he, ?_, hsignal, ?_⟩
  · refine hoperation s.ledger l _ answer e hstep he ?_ fun _ _ _ hop => nomatch hop
    rintro message rfl
    exact nomatch hfatal
  · exact hrefusal freeSettings (.new 1) default default losingCalls s₀ s buySignal default _ s'
      hnew hrun hsignal nofun

end Session

end SimBroker
