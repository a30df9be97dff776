import SimBroker.Proofs.Decimal.Exact
import SimBroker.Proofs.Ledger.Changes
import SimBroker.Proofs.Ledger.Divisors
import SimBroker.Proofs.Table

/-!
# Closing a position

A position is closed by an ordinary order at the market, which is found from the id of the position,
checked, priced, and met with whatever is open for its symbol.  None of this can go wrong in a book
of a run: ids are unique, so the position is the one that was asked for; its symbol is not blank and
has a price, and its quantity is positive, so the order is accepted; and the order is for all of the
position, so it neither leaves a part of it nor turns it round.  What remains is the balance, which
may not be able to pay for the purchase that covers a short position.

## Main definitions

* `PositionSide.closingPrice`: the reference price with the slippage
* `Ledger.SymbolsNamed`: no position is open for a blank symbol
* `Ledger.CloseRefused`, `Ledger.Flattened`: what becomes of a position that is to be closed

## Main results

* `Ledger.Consistent.position?_eq`: an id leads to its position
* `Ledger.Consistent.close_cases_open`: the ways in which the closing of an open position ends
* `Ledger.close_flattens`: all of it, for every run
-/

namespace SimBroker

open Calc (bind_eq_ok pure_eq_ok)

/-- The price at which a position is closed at the market: less than the reference price for a sale,
and more for a purchase. -/
def PositionSide.closingPrice (side : PositionSide) (reference slippage : Decimal) : Formula :=
  match side with
  | .long => reference * ((1 : Decimal) - slippage)
  | .short => reference * ((1 : Decimal) + slippage)

/-- The order that closes a position makes sense if the position does. -/
theorem Position.fault?_closing {p : Position} (hsymbol : (trimmed p.symbol).isEmpty = false)
    (hq : 0 < p.quantity) : p.closing.fault? = none := by
  have hle : ¬ p.quantity ≤ 0 := Decimal.not_le_iff.mpr hq
  simp [closing, OrderRequest.fault?, OrderRequest.market, OrderRequest.isPositiveOrAbsent, hsymbol,
    hle]

namespace Ledger

variable {l l' : Ledger} {symbol : String} {p : Position} {now : Instant} {ts : List Turn}
  {outcome : Outcome Execution}

/-! ## The order -/

/-- No position is open for a blank symbol. -/
def SymbolsNamed (l : Ledger) : Prop :=
  ∀ s p, l.positions.get? s = some p → (trimmed s).isEmpty = false

/-- A change of a position that was there before. -/
theorem SymbolsNamed.insert (h : l.SymbolsNamed) {p' : Position}
    (hp : l.positions.get? symbol = some p)
    (hpositions : l'.positions = l.positions.insert symbol p') : l'.SymbolsNamed := by
  intro s q hq
  rw [hpositions, Table.get?_insert] at hq
  split at hq
  · next hs => exact hs ▸ h symbol p hp
  · exact h s q hq

theorem SymbolsNamed.change (h : l.SymbolsNamed) (hchange : l.Change l') : l'.SymbolsNamed := by
  cases hchange with
  | tells | prices => exact h
  | marks get?_eq => exact h.insert get?_eq rfl
  | exits get?_eq => exact h.insert get?_eq rfl
  | @fills request _ _ _ _ _ _ _ _ named filled =>
    intro s q hq
    by_cases hs : s = request.symbol
    · subst hs
      rcases named with hsymbol | hopen
      · exact hsymbol
      · obtain ⟨p, hp⟩ := Option.isSome_iff_exists.mp hopen
        exact h request.symbol p hp
    · rw [filled.get?_other s hs] at hq
      exact h s q hq

/-- Ids are unique, so an id leads to its position. -/
theorem Consistent.position?_eq (hl : l.Consistent) (hp : l.positions.get? symbol = some p) :
    l.position? p.id = some p := by
  cases hfound : l.position? p.id with
  | none =>
    have hnone := List.find?_eq_none.mp hfound p (Table.mem_values_iff.mpr ⟨symbol, hp⟩)
    exact absurd (decide_eq_true rfl) hnone
  | some q =>
    have hid : q.id = p.id := by simpa using List.find?_some hfound
    obtain ⟨s, hq⟩ := Table.mem_values_iff.mp (List.mem_of_find?_eq_some hfound)
    obtain rfl := hl.id_inj hq hp hid
    exact hq.symm.trans hp

/-- A price at which the position of a symbol is closed at the market. -/
def ClosesAt (l : Ledger) (symbol : String) (p : Position) (price : Decimal) : Prop :=
  ∃ reference, l.lastPrice? symbol = some reference ∧
    (p.side.closingPrice reference l.account.slippage).eval = .ok price

theorem executionPrice_closing {reference : Decimal}
    (h : l.lastPrice? p.symbol = some reference) :
    l.executionPrice p.closing =
      Except.ok <$> (p.side.closingPrice reference l.account.slippage).eval := by
  simp only [executionPrice, Position.closing, OrderRequest.market, h]
  cases p.side <;>
    simp only [PositionSide.closingPrice, PositionSide.entrySide, OrderSide.opposite,
      Formula.eval_mul, Formula.eval_sub, Formula.eval_add, Formula.eval_value, Calc.ok_bind,
      map_eq_pure_bind, bind_assoc]

/-- The price of the closing order is found, because the symbol of a position has one. -/
theorem Consistent.closesAt (hl : l.Consistent) (hp : l.positions.get? symbol = some p)
    {found : Outcome Decimal} (h : l.executionPrice p.closing = .ok found) :
    ∃ price, found = .ok price ∧ l.ClosesAt symbol p price := by
  have hsound := hl.sound hp
  obtain ⟨reference, hreference⟩ := Option.isSome_iff_exists.mp hsound.priced
  have hlast : l.lastPrice? p.symbol = some reference := by
    rw [hsound.symbol_eq]
    exact hreference
  rw [executionPrice_closing hlast, map_eq_pure_bind, bind_eq_ok] at h
  obtain ⟨price, hprice, h⟩ := h
  exact ⟨price, (pure_eq_ok.mp h).symm, reference, hreference, hprice⟩

/-! ## The fill -/

/-- Covering a short position costs more than the free balance, and nothing happens. -/
structure CloseRefused (l : Ledger) (symbol : String) (p : Position) (l' : Ledger)
    (outcome : Outcome Execution) : Prop where
  short : p.side = .short
  ledger_eq : l' = l
  outcome_eq : ∃ price cost, l.ClosesAt symbol p price ∧
    (p.quantity * price + p.quantity * price * l.account.commissionRate : Formula).eval =
      .ok cost ∧
    l.freeBalance < cost ∧ outcome = .error (.insufficientBalance cost l.freeBalance)

/-- The position has been closed by one trade, for all of it and at the market, and no other
position has changed.  The answer is that trade, unless the balance is negative now. -/
structure Flattened (l : Ledger) (symbol : String) (p : Position) (l' : Ledger)
    (outcome : Outcome Execution) : Prop where
  flat : l'.positions.get? symbol = none
  get?_other : ∀ s, s ≠ symbol → l'.positions.get? s = l.positions.get? s
  trade_eq : ∃ t order, l'.trades = l.trades ++ [t] ∧ l'.orders = l.orders ++ [order] ∧
    t.symbol = symbol ∧ t.side = p.side.entrySide.opposite ∧ t.positionId = some p.id ∧
    t.quantity = p.quantity ∧ l.ClosesAt symbol p t.price ∧
    outcome = if l'.freeBalance < 0 then .error (.invariantViolation l'.overdrawn)
      else .ok ⟨order, [t], none⟩

theorem Refused.closeRefused {price : Decimal} (h : l.Refused p.closing price l' outcome)
    (hprice : l.ClosesAt symbol p price) : l.CloseRefused symbol p l' outcome where
  short := PositionSide.opposite_eq_buy.mp h.side_eq
  ledger_eq := h.ledger_eq
  outcome_eq := by
    obtain ⟨notional, commission, cost, hnotional, hcommission, hcost, hlt, houtcome⟩ := h.required
    refine ⟨price, cost, hprice, ?_, hlt, houtcome⟩
    have hnotional' : p.quantity.mul price = .ok notional := hnotional
    simp only [Formula.eval_add, Formula.eval_mul, Formula.eval_value, Calc.ok_bind, hnotional',
      hcommission, hcost]

/-- The order is for all of the position, which it closes in one trade. -/
theorem Consistent.flattened (hl : l.Consistent) (hp : l.positions.get? symbol = some p)
    {price notional commission : Decimal} {legs : List Leg} (hprice : l.ClosesAt symbol p price)
    (h : l.Filled p.closing price notional commission now legs l') :
    l.Flattened symbol p l' (l'.verdict ⟨(l.orderOf p.closing now).filled price commission now,
      legs.map Leg.trade, l'.positions.get? p.closing.symbol⟩) := by
  have hsound := hl.sound hp
  have hsymbol : p.closing.symbol = symbol := hsound.symbol_eq
  have hl' : l'.Consistent := by
    refine hl.filled_by hsound.quantity_pos ?_ h
    rw [hsymbol]
    exact hsound.priced
  have hmeets := h.meets
  rw [hsymbol, hp] at hmeets
  obtain ⟨hflat, p', realized, hid, -, rfl⟩ := hmeets.whole rfl rfl
  refine ⟨hflat, fun s hs => h.get?_other s (hsymbol ▸ hs), _, _, h.trades_eq, h.orders_eq,
    hsymbol, rfl, congrArg some hid, rfl, hprice, ?_⟩
  rw [hl'.verdict_eq, hsymbol, hflat]
  rfl

/-- The closing of an open position is refused for lack of balance, or leaves its symbol flat. -/
theorem Consistent.close_cases_open (hl : l.Consistent) (hnamed : l.SymbolsNamed)
    (hp : l.positions.get? symbol = some p) (h : l.close p.id now = .ok (l', outcome)) :
    l.CloseRefused symbol p l' outcome ∨ l.Flattened symbol p l' outcome := by
  have hsound := hl.sound hp
  have hfault : p.closing.fault? = none := by
    refine Position.fault?_closing ?_ hsound.quantity_pos
    rw [hsound.symbol_eq]
    exact hnamed symbol p hp
  -- the id leads to the position, and its order is accepted and priced
  rw [close, hl.position?_eq hp] at h
  rcases place_cases h with ⟨-, e, -, he | ⟨-, he⟩⟩ | ⟨price, -, hfound, hfill⟩
  · rw [hfault] at he
    exact nomatch he
  · obtain ⟨price, hok, -⟩ := hl.closesAt hp he
    exact nomatch hok
  · obtain ⟨_, hok, hprice⟩ := hl.closesAt hp hfound
    obtain rfl := Except.ok.inj hok
    rcases fillCounted_cases hsound.quantity_pos hfill with hrefused |
      ⟨notional, commission, legs, hfilled, rfl⟩
    · exact .inl (hrefused.closeRefused hprice)
    · exact .inr (hl.flattened hp hprice hfilled)

/-- Flattening flattens: in every book of a run, the closing of an open position does not divide by
zero, and unless it overflows it ends in one of two ways.  Covering a short position may cost more
than the free balance, and is refused without any change.  Otherwise one trade gives back the whole
position at the market and leaves its symbol flat and all other positions as they are.  The answer
is that trade, or that the balance went negative, and nothing else. -/
theorem close_flattens (account : AccountSettings) (firstId : Uuid) (listened : Bool)
    (h : (new account firstId listened).turns ts = .ok l)
    (hp : l.positions.get? symbol = some p) (now : Instant) :
    (l.close p.id now).DividesSafely ∧
    ∀ l' outcome, l.close p.id now = .ok (l', outcome) →
      l.CloseRefused symbol p l' outcome ∨ l.Flattened symbol p l' outcome := by
  have hnew := consistent_new account firstId listened
  have hl : l.Consistent := hnew.turns h
  have hnamed : l.SymbolsNamed := hnew.changes_induction (fun s p hp => nomatch hp)
    (fun _ hnamed hchange => hnamed.change hchange) h
  exact ⟨hl.dividesSafely_close p.id now, fun l' outcome hclose =>
    hl.close_cases_open hnamed hp hclose⟩

/-- A long position that was bought in two halves is sold in one trade. -/
theorem close_flattens_long : ∃ l p l' outcome,
    (new {} default true).turns ((sampleRun.take 4).map .whole) = .ok l ∧
    l.positions.get? "A" = some p ∧ l.close p.id default = .ok (l', outcome) ∧
    l'.positions.get? "A" = none ∧
    ∃ t, l'.trades = l.trades ++ [t] ∧ t.side = .sell ∧ t.quantity = .lit 4 0 := by
  have hsome : ((new {} default true).turns ((sampleRun.take 4).map .whole)).toOption.bind
      (fun l => (l.positions.get? "A").bind fun p => (l.close p.id default).toOption.bind fun _ =>
        some (p.side, p.quantity)) = some (.long, .lit 4 0) := by decide +kernel
  obtain ⟨l, hrun, h⟩ := Calc.exists_eq_ok hsome
  obtain ⟨p, hp, h⟩ := Option.bind_eq_some_iff.mp h
  obtain ⟨⟨l', outcome⟩, hclose, h⟩ := Calc.exists_eq_ok h
  obtain ⟨hside, hquantity⟩ := Prod.mk.inj (Option.some.inj h)
  refine ⟨l, p, l', outcome, hrun, hp, hclose, ?_⟩
  rcases (close_flattens {} default true hrun hp default).2 l' outcome hclose with
    hrefused | hflattened
  · -- nothing has to be paid for a sale
    exact nomatch hside.symm.trans hrefused.short
  · obtain ⟨t, order, htrades, -, -, htside, -, htquantity, -⟩ := hflattened.trade_eq
    rw [hside] at htside
    exact ⟨hflattened.flat, t, htrades, htside, htquantity.trans hquantity⟩

end Ledger

end SimBroker
