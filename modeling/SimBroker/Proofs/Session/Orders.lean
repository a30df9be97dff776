import SimBroker.Proofs.Session.Status

/-!
# Orders by hand during a halt

An order that is placed by hand is not evaluated, so the risk manager has no say in it: the gate is
the run state.  While the risk manager is halted the session is halted or stopped.  A halted session
refuses every order and stays as it is.  A stopped one does not look at the halt, so the ledger
decides about the order as at any other time.

## Main results

* `Ledger.place_ne_riskRejected`: the ledger refuses no order for a risk
* `placeOrder_of_halted`, `placeOrder_of_not_halted`: the two sides of the gate
* `placeOrder_while_halted`: orders by hand during a halt of the risk manager, after any run
* `placeOrder_fills_while_halted`: a halt that is followed by a stop lets an order through
-/

namespace SimBroker

namespace Ledger

variable {l l' : Ledger} {request : OrderRequest} {now : Instant} {outcome : Outcome Execution}

/-- The ledger refuses no order for a risk. -/
theorem place_ne_riskRejected (h : l.place request now = .ok (l', outcome))
    (reason : RejectReason) : outcome ≠ .error (.riskRejected reason) := by
  rcases place_cases h with ⟨-, e, rfl, hfault | ⟨-, hprice⟩⟩ | ⟨price, hfault, -, hfill⟩
  · obtain ⟨what, rfl⟩ := eq_invalidInput_of_fault? hfault
    exact nofun
  · rcases executionPrice_error hprice with rfl | ⟨what, rfl⟩ <;> exact nofun
  · rcases fillCounted_cases (quantity_pos_of_fault?_eq_none hfault) hfill with
      ⟨-, -, _, _, _, -, -, -, -, rfl⟩ | ⟨_, _, _, -, rfl⟩
    · exact nofun
    · -- an order that was filled is answered by the verdict on the book
      unfold verdict
      split <;> exact nofun

end Ledger

namespace Session

open Session.Action (get_eq_ok bind_eq_ok ended? ended?_eq_some answer? answer?_eq_some)

variable {s s' s₀ : Session} {request : OrderRequest} {clock : Clock} {outcome : Outcome Execution}

/-- A halted session refuses every order, and stays as it is. -/
theorem placeOrder_of_halted (h : s.status = .halted) (request : OrderRequest) (clock : Clock) :
    (placeOrder request clock).run s = .ok (.error (.riskRejected .tradingHalted)) s := by
  show (if s.status = .halted then _ else _ : Action _).run s = _
  rw [if_pos h]
  rfl

/-- In every other run state the ledger decides about an order. -/
theorem placeOrder_of_not_halted (hstatus : s.status ≠ .halted)
    (h : (placeOrder request clock).run s = .ok outcome s') :
    ∃ l, s.ledger.place request (clock 0) = .ok (l, outcome) ∧ s'.ledger = l.takeEvents.2 := by
  rcases placeOrder_run h with ⟨hhalted, -⟩ | ⟨-, hmanual⟩
  · exact absurd hhalted hstatus
  · obtain ⟨s₁, hledger, hrest⟩ := manual_cases hmanual
    obtain ⟨l, hplace, rfl⟩ := onLedger_eq_ok.mp hledger
    exact ⟨l, hplace, hrest.ledger_eq⟩

/-- After every run that leaves the risk manager halted the session is halted or stopped.  If it is
halted, it refuses every order by hand because of the halt, and nothing changes.  If it is stopped,
it does with every order what the ledger does with it, and refuses none because of the halt. -/
theorem placeOrder_while_halted (settings : Settings) (hub : Hub Message) (firstId : Uuid)
    (begin : Clock) (calls : List (Call × Clock))
    (hnew : new settings hub firstId begin = .ok s₀) (hrun : (runCalls calls).run s₀ = .ok () s)
    (hhalted : s.risk.isHalted) :
    (s.status = .halted ∧ ∀ request clock,
      (placeOrder request clock).run s = .ok (.error (.riskRejected .tradingHalted)) s) ∨
    (s.status = .stopped ∧ ∀ request clock outcome s',
      (placeOrder request clock).run s = .ok outcome s' →
        (∃ l, s.ledger.place request (clock 0) = .ok (l, outcome) ∧ s'.ledger = l.takeEvents.2) ∧
        ∀ reason, outcome ≠ .error (.riskRejected reason)) := by
  -- a halted manager leaves two run states, with one side of the gate each
  obtain ⟨hrunning, hpaused⟩ := (gated_run hnew hrun).status_of_halted hhalted
  cases hstatus : s.status with
  | running => exact absurd hstatus hrunning
  | paused => exact absurd hstatus hpaused
  | halted => exact .inl ⟨rfl, placeOrder_of_halted hstatus⟩
  | stopped =>
    refine .inr ⟨rfl, fun request clock outcome s' hplace => ?_⟩
    obtain ⟨l, hl, hledger⟩ := placeOrder_of_not_halted (by rw [hstatus]; exact nofun) hplace
    exact ⟨⟨l, hl, hledger⟩, Ledger.place_ne_riskRejected hl⟩

/-- The run state at the end of a run of a new session, if its risk manager is halted then. -/
def haltedStatus? (calls : List (Call × Clock)) : Option TradingStatus :=
  (new freeSettings (.new 1) default default).toOption.bind fun s₀ =>
    (ended? (runCalls calls) s₀).bind fun s => if s.risk.isHalted then some s.status else none

theorem haltedStatus?_eq_some {calls : List (Call × Clock)} {status : TradingStatus}
    (h : haltedStatus? calls = some status) :
    ∃ s₀ s, new freeSettings (.new 1) default default = .ok s₀ ∧
      (runCalls calls).run s₀ = .ok () s ∧ s.risk.isHalted ∧ s.status = status := by
  obtain ⟨s₀, hnew, h⟩ := Calc.exists_eq_ok h
  obtain ⟨s, hrun, h⟩ := Option.bind_eq_some_iff.mp h
  obtain ⟨hhalted, hstatus⟩ := Option.ite_none_right_eq_some.mp h
  obtain ⟨⟨⟩, hrun⟩ := ended?_eq_some.mp hrun
  exact ⟨s₀, s, hnew, hrun, hhalted, Option.some.inj hstatus⟩

/-- The loss of a day halts the session, and it refuses an order for one more. -/
theorem placeOrder_while_halted_day : ∃ s₀ s,
    new freeSettings (.new 1) default default = .ok s₀ ∧
    (runCalls (losingCalls ++ [(.close 1, default)])).run s₀ = .ok () s ∧ s.risk.isHalted ∧
    (placeOrder (.market "A" .buy 1) default).run s =
      .ok (.error (.riskRejected .tradingHalted)) s := by
  have hstatus : haltedStatus? (losingCalls ++ [(.close 1, default)]) = some .halted := by
    decide +kernel
  obtain ⟨s₀, s, hnew, hrun, hhalted, hstatus⟩ := haltedStatus?_eq_some hstatus
  refine ⟨s₀, s, hnew, hrun, hhalted, ?_⟩
  rcases placeOrder_while_halted freeSettings (.new 1) default default
    (losingCalls ++ [(.close 1, default)]) hnew hrun hhalted with ⟨-, hrefused⟩ | ⟨hstopped, -⟩
  · exact hrefused _ _
  · exact nomatch hstatus.symm.trans hstopped

/-- The loss of a day halts the session, which is stopped then. -/
def stoppedCalls : List (Call × Clock) :=
  losingCalls ++ [(.close 1, default), (.stop, default)]

/-- Whether the risk manager is halted after some calls, and how many trades an order for one more
makes then, if it is filled. -/
def filledAfter? (calls : List (Call × Clock)) : Option (Bool × ℕ) :=
  (new freeSettings (.new 1) default default).toOption.bind fun s₀ =>
    (ended? (runCalls calls) s₀).bind fun s =>
      (ended? (placeOrder (.market "A" .buy 1) default) s).bind fun s' =>
        (answer? (placeOrder (.market "A" .buy 1) default) s).bind fun outcome =>
          outcome.toOption.map fun _ =>
            (s.risk.isHalted, s'.ledger.trades.length - s.ledger.trades.length)

/-- The stopped session fills an order, although its risk manager is halted. -/
theorem placeOrder_fills_while_halted : ∃ s₀ s s' execution,
    new freeSettings (.new 1) default default = .ok s₀ ∧
    (runCalls stoppedCalls).run s₀ = .ok () s ∧ s.risk.isHalted ∧
    (placeOrder (.market "A" .buy 1) default).run s = .ok (.ok execution) s' ∧
    s'.ledger.trades.length = s.ledger.trades.length + 1 := by
  have hfilled : filledAfter? stoppedCalls = some (true, 1) := by decide +kernel
  obtain ⟨s₀, hnew, h⟩ := Calc.exists_eq_ok hfilled
  obtain ⟨s, hrun, h⟩ := Option.bind_eq_some_iff.mp h
  obtain ⟨⟨⟩, hrun⟩ := ended?_eq_some.mp hrun
  obtain ⟨s', hended, h⟩ := Option.bind_eq_some_iff.mp h
  obtain ⟨outcome, hanswer, h⟩ := Option.bind_eq_some_iff.mp h
  obtain ⟨_, hplace⟩ := ended?_eq_some.mp hended
  obtain ⟨_, hplace'⟩ := answer?_eq_some.mp hanswer
  obtain ⟨rfl, -⟩ := EStateM.Result.ok.inj (hplace'.symm.trans hplace)
  cases outcome with
  | error e => exact nomatch h
  | ok execution =>
    obtain ⟨hhalted, hlength⟩ := Prod.mk.inj (Option.some.inj h)
    exact ⟨s₀, s, s', execution, hnew, hrun, hhalted, hplace, by omega⟩

end Session

end SimBroker
