import SimBroker.Proofs.Ledger.Step

/-!
# Operations that are refused

An operation looks at all that can be wrong with it before it changes anything: the request, the
price, the balance, the position or the order that it names.  The one error that comes after a
change is a violated invariant, which is found in the book when the order is filled already.  So a
refusal leaves the book as it is, part by part.

Only a positive price is recorded, and the position marked, before the order that closes the
position can be refused.

## Main results

* `fillCounted_refused`, `place_refused`, `close_refused`, `cancel_refused`, `setExit_refused`,
  `updatePrice_refused`: the operations one by one
* `step_refused`: an operation that answers with an error that is not fatal
* `place_ok`: the order that a request has become, if it was not refused
-/

namespace SimBroker

open Calc (bind_eq_ok pure_eq_ok)

theorem TradingError.isFatal_iff {e : TradingError} :
    e.isFatal ↔ ∃ message, e = .invariantViolation message := by
  cases e <;> simp [isFatal]

namespace Ledger

variable {l l' : Ledger} {request : OrderRequest} {price : Decimal} {now : Instant}
  {e : TradingError}

/-- What a book answers to an order that it has filled is a result, or a fatal error. -/
theorem verdict_eq_error {execution : Execution} (h : l.verdict execution = .error e) :
    e.isFatal := by
  unfold verdict at h
  split at h
  · obtain rfl := Except.error.inj h
    rfl
  · exact nomatch h

/-- An order is refused before any part of the book has changed. -/
theorem fillCounted_refused (hq : 0 < request.quantity)
    (h : l.fillCounted request price now = .ok (l', .error e)) (he : ¬ e.isFatal) : l' = l := by
  rcases fillCounted_cases hq h with hrefused | ⟨_, _, _, -, hverdict⟩
  · exact hrefused.ledger_eq
  · exact absurd (verdict_eq_error hverdict.symm) he

theorem place_refused (h : l.place request now = .ok (l', .error e)) (he : ¬ e.isFatal) :
    l' = l := by
  rcases place_cases h with ⟨hledger, -⟩ | ⟨price, hfault, -, hfill⟩
  · exact hledger
  · exact fillCounted_refused (quantity_pos_of_fault?_eq_none hfault) hfill he

theorem close_refused {id : ℕ} (h : l.close id now = .ok (l', .error e)) (he : ¬ e.isFatal) :
    l' = l := by
  rcases close_cases h with ⟨-, hledger, -⟩ | ⟨p, -, hplace⟩
  · exact hledger
  · exact place_refused hplace he

theorem cancel_refused {id : Uuid} (h : l.cancel id = (l', .error e)) : l' = l := by
  unfold cancel at h
  split at h
  · exact (Prod.mk.inj h).1.symm
  · split at h
    · -- an order that is active is canceled
      exact nomatch (Prod.mk.inj h).2
    · exact (Prod.mk.inj h).1.symm

theorem setExit_refused {id : ℕ} {kind : TriggerKind}
    (h : l.setExit id kind price now = (l', .error e)) : l' = l := by
  rcases setExit_cases h with ⟨hledger, -⟩ | ⟨_, _, -, -, -, -, hok⟩
  · exact hledger
  · exact nomatch hok

/-- A price that is not positive is not recorded. -/
theorem updatePrice_refused {symbol : String} {outcome : Outcome (Option Execution)}
    (hprice : price ≤ 0) (h : l.updatePrice symbol price now = .ok (l', outcome)) : l' = l := by
  rcases updatePrice_cases h with ⟨-, hledger, -⟩ | ⟨hpos, -⟩ | ⟨_, _, hpos, -⟩
  · exact hledger
  · exact absurd hprice (Decimal.not_le_iff.mpr hpos)
  · exact absurd hprice (Decimal.not_le_iff.mpr hpos)

/-- An operation that answers with an error that is not fatal has changed nothing, unless it was to
record a positive price. -/
theorem step_refused {op : Operation} {answer : Answer} (h : l.step op = .ok (l', answer))
    (hanswer : answer.error? = some e) (he : ¬ e.isFatal)
    (hop : ∀ symbol price timestamp, op = .updatePrice symbol price timestamp → price ≤ 0) :
    l' = l := by
  cases op with
  | place request now =>
    simp only [step, bind_eq_ok, pure_eq_ok, Prod.mk.injEq] at h
    obtain ⟨⟨l₁, outcome⟩, hplace, rfl, rfl⟩ := h
    cases outcome with
    | ok execution => cases hanswer
    | error e' =>
      obtain rfl := Option.some.inj hanswer
      exact place_refused hplace he
  | close id now =>
    simp only [step, bind_eq_ok, pure_eq_ok, Prod.mk.injEq] at h
    obtain ⟨⟨l₁, outcome⟩, hclose, rfl, rfl⟩ := h
    cases outcome with
    | ok execution => cases hanswer
    | error e' =>
      obtain rfl := Option.some.inj hanswer
      exact close_refused hclose he
  | cancel id =>
    rcases hcancel : l.cancel id with ⟨l₁, outcome⟩
    simp only [step, hcancel] at h
    obtain ⟨rfl, rfl⟩ := Prod.mk.inj (Except.ok.inj h)
    cases outcome with
    | ok order => cases hanswer
    | error e' => exact cancel_refused hcancel
  | setExit id kind price now =>
    rcases hset : l.setExit id kind price now with ⟨l₁, outcome⟩
    simp only [step, hset] at h
    obtain ⟨rfl, rfl⟩ := Prod.mk.inj (Except.ok.inj h)
    cases outcome with
    | ok p => cases hanswer
    | error e' => exact setExit_refused hset
  | updatePrice symbol price timestamp =>
    simp only [step, bind_eq_ok, pure_eq_ok, Prod.mk.injEq] at h
    obtain ⟨⟨l₁, outcome⟩, hupdate, rfl, -⟩ := h
    exact updatePrice_refused (hop symbol price timestamp rfl) hupdate

/-- A request that is not refused has become one order, which is the last of the book. -/
theorem place_ok {execution : Execution} (h : l.place request now = .ok (l', .ok execution)) :
    l'.orders = l.orders ++ [execution.order] ∧ execution.order.symbol = request.symbol ∧
      execution.order.side = request.side ∧ execution.order.quantity = request.quantity ∧
      execution.order.strategyTag = request.strategyTag := by
  rcases place_cases h with ⟨-, e, he, -⟩ | ⟨price, hfault, -, hfill⟩
  · exact nomatch he
  · rcases fillCounted_cases (quantity_pos_of_fault?_eq_none hfault) hfill with
      ⟨-, -, _, _, _, -, -, -, -, he⟩ | ⟨notional, commission, legs, hfilled, hverdict⟩
    · exact nomatch he
    · -- the answer to an order that was filled names the order
      unfold verdict at hverdict
      split at hverdict
      · exact nomatch hverdict
      · obtain rfl := Except.ok.inj hverdict
        exact ⟨hfilled.orders_eq, rfl, rfl, rfl, rfl⟩

end Ledger

end SimBroker
