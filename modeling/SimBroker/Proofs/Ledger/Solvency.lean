import SimBroker.Proofs.Ledger.Interleaving

/-!
# Solvency

A purchase is held against the balance, a sale is not: its commission is taken from what it brings.
As long as commission and slippage are at most the whole value traded, every sale at a positive
reference price brings something or nothing, so the balance is never negative and no operation
answers that something is wrong with the book.  Settings are accepted with any fees that are not
negative, and beyond the whole value a sale may cost more than there is.

## Main definitions

* `AccountSettings.FeesWithin`: commission and slippage are at most the whole value traded
* `attempt`: a turn with the error that it answers
* `Charged`: what a turn does to the balance
* `Overdraws`: a sale that costs more than the balance

## Main results

* `PricesPos.price_nonneg_of_fillOf`: a sale has a price that is not negative, unless the slippage
  is more than the whole value
* `Charged.overdraws`: only a sale that costs more than the balance makes it negative
* `balance_of_fees`: the balance and the answers along every run of an accepted account
* `sale_overdraws`: accepted fees with which a sale leaves a negative balance
-/

namespace SimBroker

open Calc (bind_eq_ok pure_eq_ok)

/-- Commission and slippage are at most the whole value traded. -/
structure AccountSettings.FeesWithin (account : AccountSettings) : Prop where
  commissionRate_le : account.commissionRate ≤ 1
  slippage_le : account.slippage ≤ 1

theorem Settings.initialBalance_nonneg_of_fault? {settings : Settings}
    (h : settings.fault? = none) : 0 ≤ settings.account.initialBalance := by
  unfold fault? at h
  split at h
  · exact nomatch h
  · next hnot => exact Decimal.not_lt_iff.mp hnot

/-- The limit of a request that makes sense is positive. -/
theorem OrderRequest.limitPrice_pos_of_fault? {request : OrderRequest} {price : Decimal}
    (h : request.fault? = none) (htype : request.orderType = .limit)
    (hprice : request.limitPrice = some price) : 0 < price := by
  unfold fault? at h
  split at h
  · exact nomatch h
  · split at h
    · exact nomatch h
    · split at h
      · exact nomatch h
      · next hlimit => simpa [htype, hprice] using hlimit

namespace Ledger

variable {l l' l₁ : Ledger} {request : OrderRequest} {price notional commission : Decimal}
  {now : Instant} {legs : List Leg} {op : Operation} {answer : Answer} {trigger : Trigger}
  {error? : Option TradingError}

/-! ## Prices of sales -/

/-- What a sale is filled at is not negative, unless the slippage is more than the whole value. -/
theorem PricesPos.price_nonneg_of_executionPrice (hprices : l.PricesPos)
    (hfault : request.fault? = none) (hside : request.side = .sell)
    (hslippage : l.account.slippage ≤ 1)
    (h : l.executionPrice request = .ok (.ok price)) : 0 ≤ price := by
  unfold executionPrice at h
  split at h
  · cases h
  · next reference hreference =>
    split at h
    · next limit htype hlimit =>
      cases h
      exact Decimal.nonneg_of_pos (OrderRequest.limitPrice_pos_of_fault? hfault htype hlimit)
    · cases h
    · -- at the market a sale is filled below the reference, by at most all of it
      simp only [hside, bind_eq_ok, pure_eq_ok] at h
      obtain ⟨factor, hfactor, found, hfound, heq⟩ := h
      obtain rfl : found = price := by simpa using heq
      rw [Decimal.le_iff, Decimal.toRat_one] at hslippage
      have hfactor' : 0 ≤ factor.toRat := by
        refine (Decimal.faithful_sub hfactor).nonneg ?_
        rw [Decimal.toRat_one]
        exact sub_nonneg.mpr hslippage
      have hreference' := Decimal.pos_iff.mp (hprices _ _ hreference)
      rw [Decimal.nonneg_iff]
      exact (Decimal.faithful_mul hfound).nonneg (mul_nonneg hreference'.le hfactor')

theorem PricesPos.price_nonneg_of_fillOfRequest {request₁ : OrderRequest} (hprices : l.PricesPos)
    (h : l.fillOfRequest request₁ = some (l₁, request, price)) (hside : request.side = .sell)
    (hslippage : l.account.slippage ≤ 1) : 0 ≤ price := by
  unfold fillOfRequest at h
  split at h
  · next hfault hprice =>
    cases h
    exact hprices.price_nonneg_of_executionPrice hfault hside hslippage hprice
  · exact nomatch h

/-- The sale that an operation comes to has a price that is not negative, unless the slippage is
more than the whole value. -/
theorem PricesPos.price_nonneg_of_fillOf (hprices : l.PricesPos)
    (h : l.fillOf op = some (l₁, request, price)) (hside : request.side = .sell)
    (hslippage : l.account.slippage ≤ 1) : 0 ≤ price := by
  cases op with
  | place request₁ now =>
    rw [fillOf] at h
    exact hprices.price_nonneg_of_fillOfRequest h hside hslippage
  | close id now =>
    rw [fillOf] at h
    obtain ⟨p, -, hclosing⟩ := Option.bind_eq_some_iff.mp h
    exact hprices.price_nonneg_of_fillOfRequest hclosing hside hslippage
  | cancel id => cases h
  | setExit id kind price now => cases h
  | updatePrice symbol price₁ now =>
    -- an exit is filled at the price of the update
    simp only [fillOf] at h
    split at h
    · next l₂ trigger hrecord =>
      obtain ⟨p, -, h⟩ := Option.map_eq_some_iff.mp h
      cases h
      rcases recordPrice_cases hrecord with ⟨-, -, _, herror⟩ | ⟨hpos, -⟩ | ⟨_, _, hpos, -⟩
      · cases herror
      · exact Decimal.nonneg_of_pos hpos
      · exact Decimal.nonneg_of_pos hpos
    · cases h

/-! ## Turns and what they answer -/

/-- The error of an outcome. -/
def errorOf {α : Type} : Outcome α → Option TradingError
  | .error e => some e
  | .ok _ => none

/-- The book after one turn, and the error that the turn answers with, if it does. -/
def attempt (l : Ledger) : Turn → Calc (Ledger × Option TradingError)
  | .whole op => do
    let (l, answer) ← l.step op
    return (l, answer.error?)
  | .mark symbol price now => do
    let (l, outcome) ← l.recordPrice symbol price now
    return (l, errorOf outcome)
  | .finish trigger now => do
    let (l, outcome) ← l.executeTrigger trigger now
    return (l, errorOf outcome)

theorem turn_eq_attempt (l : Ledger) (t : Turn) : l.turn t = do return (← l.attempt t).1 := by
  cases t <;> simp only [turn, attempt, bind_assoc, pure_bind]

/-- A turn leaves the balance as it is and answers with no violation, or it fills an order in a
consistent book and answers with what is wrong then.  A sale that it fills has a price that is not
negative, unless the slippage is more than the whole value. -/
inductive Charged (l l' : Ledger) (error? : Option TradingError) : Prop
  | quiet (quiet : l.Quiet l')
      (not_violation : ∀ message, error? ≠ some (.invariantViolation message))
  | filled {l₁ : Ledger} {request : OrderRequest} {price notional commission : Decimal}
      {now : Instant} {legs : List Leg} (quiet : l.Quiet l₁) (quantity_pos : 0 < request.quantity)
      (price_nonneg : request.side = .sell → l.account.slippage ≤ 1 → 0 ≤ price)
      (filled : l₁.Filled request price notional commission now legs l')
      (consistent : l'.Consistent) (error_eq : error? = l'.violation?.map .invariantViolation)

theorem Consistent.charged_step (hl : l.Consistent) (hprices : l.PricesPos)
    (h : l.step op = .ok (l', answer)) : l.Charged l' answer.error? := by
  have hl' := hl.step h
  cases hl.step_cases h with
  | quiet quiet not_violation => exact .quiet quiet not_violation
  | filled quiet fillOf_eq quantity_pos _ filled error_eq =>
    exact .filled quiet quantity_pos (hprices.price_nonneg_of_fillOf fillOf_eq) filled hl' error_eq

theorem charged_recordPrice {symbol : String} {outcome : Outcome (Option Trigger)}
    (h : l.recordPrice symbol price now = .ok (l', outcome)) : l.Charged l' (errorOf outcome) := by
  refine .quiet (quiet_recordPrice h) fun message => ?_
  rcases recordPrice_cases h with ⟨-, -, what, rfl⟩ | ⟨-, -, -, rfl⟩ | ⟨_, _, -, -, -, -, rfl⟩
  · simp [errorOf]
  · exact nofun
  · exact nofun

theorem Consistent.charged_executeTrigger (hl : l.Consistent) (hprices : l.PricesPos)
    {outcome : Outcome (Option Execution)}
    (h : l.executeTrigger trigger now = .ok (l', outcome)) : l.Charged l' (errorOf outcome) := by
  have hl' := (hl.moved_executeTrigger h).consistent hl
  by_cases hlive : ∃ p latest kind, l.Live trigger p latest kind
  · obtain ⟨p, latest, kind, hlive⟩ := hlive
    rcases hlive.fill_cases hl h with hunpaid | ⟨_, _, _, hfilled, rfl⟩
    · obtain ⟨_, _, _, -, -, -, -, rfl⟩ := hunpaid.outcome_eq
      refine .quiet ?_ nofun
      rw [hunpaid.ledger_eq]
      exact .emit _ _
    · -- the latest price is a reference price, and so it is positive
      have hpos := hprices _ _ hlive.lastPrice?_eq
      refine .filled (.emit _ _) (hl.sound hlive.get?_eq).quantity_pos
        (fun _ _ => Decimal.nonneg_of_pos hpos) hfilled hl' ?_
      unfold verdict
      cases l'.violation? <;> rfl
  · rw [executeTrigger_of_not_live hl hlive] at h
    obtain ⟨rfl, rfl⟩ := Prod.mk.inj (Except.ok.inj h)
    exact .quiet (.refl l) nofun

theorem Consistent.charged_attempt (hl : l.Consistent) (hprices : l.PricesPos) {t : Turn}
    (h : l.attempt t = .ok (l', error?)) : l.Charged l' error? := by
  cases t <;> simp only [attempt, bind_eq_ok, pure_eq_ok, Prod.mk.injEq] at h <;>
    obtain ⟨⟨l₁, outcome⟩, h, rfl, rfl⟩ := h
  case whole => exact hl.charged_step hprices h
  case mark => exact charged_recordPrice h
  case finish => exact hl.charged_executeTrigger hprices h

/-! ## Negative balances -/

/-- A filled order that takes more from a balance than there is: a sale, whose commission is more
than the value traded or whose price is negative, because the slippage is more than that value. -/
structure Overdraws (account : AccountSettings) (balance : Decimal) (order : Order) : Prop where
  side_eq : order.side = .sell
  fees : 1 < account.commissionRate ∨ order.avgFillPrice < 0 ∧ 1 < account.slippage
  costs : ∃ notional flow, order.quantity.mul order.avgFillPrice = .ok notional ∧
    notional.sub order.commission = .ok flow ∧ balance.toRat + flow.toRat < 0

theorem Overdraws.not_feesWithin {account : AccountSettings} {balance : Decimal} {order : Order}
    (h : Overdraws account balance order) : ¬ account.FeesWithin := by
  rintro ⟨hcommission, hslippage⟩
  rcases h.fees with hrate | ⟨-, hrate⟩
  · exact Decimal.not_lt_iff.mpr hcommission hrate
  · exact Decimal.not_lt_iff.mpr hslippage hrate

namespace Charged

theorem account_eq (h : l.Charged l' error?) : l'.account = l.account := by
  cases h with
  | quiet quiet => exact quiet.account_eq
  | filled quiet _ _ filled => exact filled.account_eq.trans quiet.account_eq

/-- Only a sale that costs more than the balance makes it negative. -/
theorem overdraws (h : l.Charged l' error?) (hbalance : 0 ≤ l.freeBalance)
    (hneg : l'.freeBalance < 0) :
    ∃ order, l'.orders = l.orders ++ [order] ∧ Overdraws l.account l.freeBalance order := by
  cases h with
  | quiet quiet =>
    rw [quiet.freeBalance_eq] at hneg
    exact absurd hneg (Decimal.not_lt_iff.mpr hbalance)
  | @filled l₁ request price notional commission now _ quiet quantity_pos price_nonneg filled =>
    obtain ⟨hside, flow, hflow, hsum⟩ := filled.toPaid.sell_of_freeBalance_neg hneg
    rw [quiet.freeBalance_eq] at hsum
    refine ⟨_, quiet.orders_eq ▸ filled.orders_eq, hside, ?_, notional, flow, filled.notional_eq,
      hflow, hsum⟩
    by_cases hrate : 1 < l.account.commissionRate
    · exact .inl hrate
    · -- the commission is not to blame, so the price is
      have hprice : ¬ 0 ≤ price := by
        intro hprice
        rw [Decimal.not_lt_iff, ← quiet.account_eq] at hrate
        have hbrings := filled.toPaid.flow_nonneg quantity_pos hprice hrate hflow
        rw [Decimal.nonneg_iff] at hbalance
        linarith
      refine .inr ⟨Decimal.not_le_iff.mp hprice, Decimal.not_le_iff.mp fun hslippage => ?_⟩
      exact hprice (price_nonneg hside hslippage)

theorem freeBalance_nonneg (h : l.Charged l' error?) (hfees : l.account.FeesWithin)
    (hbalance : 0 ≤ l.freeBalance) : 0 ≤ l'.freeBalance := by
  rw [← Decimal.not_lt_iff]
  intro hneg
  obtain ⟨order, -, hoverdraws⟩ := h.overdraws hbalance hneg
  exact hoverdraws.not_feesWithin hfees

/-- From a balance that is not negative, a turn answers with a violation exactly if it leaves a
negative one. -/
theorem violation_iff (h : l.Charged l' error?) (hbalance : 0 ≤ l.freeBalance) :
    (∃ message, error? = some (.invariantViolation message)) ↔ l'.freeBalance < 0 := by
  cases h with
  | quiet quiet not_violation =>
    rw [quiet.freeBalance_eq]
    refine iff_of_false ?_ (Decimal.not_lt_iff.mpr hbalance)
    rintro ⟨message, herror⟩
    exact not_violation message herror
  | filled _ _ _ _ consistent error_eq =>
    -- nothing but the balance can be wrong with a consistent book
    rw [error_eq, consistent.violation?_eq]
    split
    · next hneg => exact iff_of_true ⟨_, rfl⟩ hneg
    · next hnot => exact iff_of_false (fun ⟨_, herror⟩ => nomatch herror) hnot

end Charged

/-! ## Runs -/

/-- What holds of the books of an account: reference prices are positive, and the balance is not
negative if the fees are at most the whole value traded. -/
structure Solvent (account : AccountSettings) (l : Ledger) : Prop where
  account_eq : l.account = account
  pricesPos : l.PricesPos
  freeBalance_nonneg : account.FeesWithin → 0 ≤ l.freeBalance

theorem solvent_new {account : AccountSettings} (h : 0 ≤ account.initialBalance) (firstId : Uuid)
    (listened : Bool) : Solvent account (new account firstId listened) where
  account_eq := rfl
  pricesPos _ _ hx := nomatch hx
  freeBalance_nonneg _ := h

theorem Solvent.turn {account : AccountSettings} (h : Solvent account l) (hl : l.Consistent)
    {t : Turn} (hturn : l.turn t = .ok l') : Solvent account l' := by
  have hpricesPos := h.pricesPos.turn hl hturn
  -- the answer is left out of a turn, and what the turn charges does not depend on it
  rw [turn_eq_attempt, bind_eq_ok] at hturn
  obtain ⟨⟨l₁, error?⟩, hattempt, heq⟩ := hturn
  obtain rfl := pure_eq_ok.mp heq
  have hcharged := hl.charged_attempt h.pricesPos hattempt
  refine ⟨hcharged.account_eq.trans h.account_eq, hpricesPos, fun hfees => ?_⟩
  refine hcharged.freeBalance_nonneg ?_ (h.freeBalance_nonneg hfees)
  rw [h.account_eq]
  exact hfees

/-- In every run of an account that is accepted, with any operations and with price updates that are
interrupted or not:

* with fees of at most the whole value traded the balance is never negative, and nothing is answered
  by a violation;
* with any fees, a turn that begins with a balance that is not negative answers with a violation
  exactly if it leaves a negative balance, and then it has filled a sale that costs more than the
  balance, by a commission or a slippage of more than the whole value. -/
theorem balance_of_fees (settings : Settings) (haccepted : settings.fault? = none) (firstId : Uuid)
    (listened : Bool) (ts : List Turn)
    (hrun : (new settings.account firstId listened).turns ts = .ok l) :
    (settings.account.FeesWithin → 0 ≤ l.freeBalance ∧
      ∀ t l' error?, l.attempt t = .ok (l', error?) →
        ∀ message, error? ≠ some (.invariantViolation message)) ∧
    (0 ≤ l.freeBalance → ∀ t l' error?, l.attempt t = .ok (l', error?) →
      ((∃ message, error? = some (.invariantViolation message)) ↔ l'.freeBalance < 0) ∧
      (l'.freeBalance < 0 → ∃ order, l'.orders = l.orders ++ [order] ∧
        Overdraws settings.account l.freeBalance order)) := by
  have hinitial := Settings.initialBalance_nonneg_of_fault? haccepted
  obtain ⟨hl, hsolvent⟩ := (consistent_new settings.account firstId listened).turns_induction
    (P := Solvent settings.account) (solvent_new hinitial firstId listened)
    (fun _ _ _ _ hl hsolvent hturn => hsolvent.turn hl hturn) hrun
  constructor
  · -- a violation means a sale that fees of at most the whole value do not allow
    intro hfees
    refine ⟨hsolvent.freeBalance_nonneg hfees, fun t l' error? hattempt message herror => ?_⟩
    have hcharged := hl.charged_attempt hsolvent.pricesPos hattempt
    have hbalance := hsolvent.freeBalance_nonneg hfees
    have hneg := (hcharged.violation_iff hbalance).mp ⟨message, herror⟩
    obtain ⟨order, -, hoverdraws⟩ := hcharged.overdraws hbalance hneg
    rw [hsolvent.account_eq] at hoverdraws
    exact hoverdraws.not_feesWithin hfees
  · intro hbalance t l' error? hattempt
    have hcharged := hl.charged_attempt hsolvent.pricesPos hattempt
    refine ⟨hcharged.violation_iff hbalance, fun hneg => ?_⟩
    rw [← hsolvent.account_eq]
    exact hcharged.overdraws hbalance hneg

/-- The sample, which sells and is stopped out, does not make the balance negative with the fees of
the default settings. -/
theorem balance_of_fees_sample : ∃ l,
    (new {} default true).turns (sampleRun.map .whole) = .ok l ∧ l.trades.length = 6 ∧
    0 ≤ l.freeBalance := by
  have hends : ((new {} default true).turns (sampleRun.map .whole)).toOption.bind
      (fun l => some l.trades.length) = some 6 := by decide +kernel
  obtain ⟨l, hrun, htrades⟩ := Calc.exists_eq_ok hends
  have haccepted : ({} : Settings).fault? = none := by decide +kernel
  have hfees : AccountSettings.FeesWithin {} := ⟨by decide +kernel, by decide +kernel⟩
  obtain ⟨hwithin, -⟩ := balance_of_fees {} haccepted default true (sampleRun.map .whole) hrun
  exact ⟨l, hrun, Option.some.inj htrades, (hwithin hfees).1⟩

/-- The balance after a first sale, of one at a reference price of 100, and the error that it is
answered with, if it is. -/
def firstSale? (account : AccountSettings) : Option (Decimal × Option TradingError) :=
  ((new account default true).turns [.mark "A" (.lit 100 0) default]).toOption.bind fun l =>
    (l.attempt (.whole (.place (.market "A" .sell 1) default))).toOption.bind fun r =>
      some (r.1.freeBalance, r.2)

theorem firstSale?_eq_some {account : AccountSettings} {balance : Decimal}
    (h : firstSale? account = some (balance, error?)) : ∃ l l',
      (new account default true).turns [.mark "A" (.lit 100 0) default] = .ok l ∧
      l.attempt (.whole (.place (.market "A" .sell 1) default)) = .ok (l', error?) ∧
      l'.freeBalance = balance := by
  obtain ⟨l, hrun, h⟩ := Calc.exists_eq_ok h
  obtain ⟨⟨l', e⟩, hattempt, h⟩ := Calc.exists_eq_ok h
  obtain ⟨hbalance, rfl⟩ := Prod.mk.inj (Option.some.inj h)
  exact ⟨l, l', hrun, hattempt, hbalance⟩

/-- A commission of twice the value traded, without a balance. -/
def dearCommission : AccountSettings :=
  { initialBalance := 0, commissionRate := .lit 2 0, slippage := 0 }

/-- A slippage of three times the value traded, with a balance of 100. -/
def dearSlippage : AccountSettings :=
  { initialBalance := .lit 100 0, commissionRate := 0, slippage := .lit 3 0 }

/-- Accounts that are accepted, although a sale leaves a negative balance in them: in the one by its
commission, in the other by its price. -/
theorem sale_overdraws :
    (({ account := dearCommission } : Settings).fault? = none ∧ ∃ l l',
      (new dearCommission default true).turns [.mark "A" (.lit 100 0) default] = .ok l ∧
      l.attempt (.whole (.place (.market "A" .sell 1) default)) =
        .ok (l', some (.invariantViolation "free balance went negative: -100")) ∧
      l'.freeBalance = -.lit 100 0) ∧
    ({ account := dearSlippage } : Settings).fault? = none ∧ ∃ l l',
      (new dearSlippage default true).turns [.mark "A" (.lit 100 0) default] = .ok l ∧
      l.attempt (.whole (.place (.market "A" .sell 1) default)) =
        .ok (l', some (.invariantViolation "free balance went negative: -100")) ∧
      l'.freeBalance = -.lit 100 0 := by
  refine ⟨⟨by decide +kernel, firstSale?_eq_some ?_⟩, by decide +kernel, firstSale?_eq_some ?_⟩
  · decide +kernel
  · decide +kernel

end Ledger

end SimBroker
