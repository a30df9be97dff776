import SimBroker.Proofs.Ledger.Consistent

/-!
# Protective exits

A price that crosses an exit of a position closes it: one trade, for the whole quantity, at that
price.  There are two limits to this.  Closing a short position is a purchase, so it is refused when
it costs more than the free balance; and when the commission of a sale is more than the sale brings
and the balance, the position is closed but the answer is that the balance went negative.  Neither
happens to a long position as long as the balance is not negative and the commission at most the
value traded.

## Main definitions

* `ExitRefused`, `ExitDone`: what becomes of a crossed exit
* `NoTradeFor`: an operation that does not trade in a symbol by an order of its own

## Main results

* `Meets.whole`: an order for all of an opposing position closes it
* `Paid.freeBalance_nonneg`: an order leaves a balance that is not negative
* `Consistent.flat_run`: a symbol without a position stays so until an order placed for it trades
* `exit_closes`: what a crossed exit comes to
* `exit_fails`: a crossed exit need not answer with a trade
-/

namespace SimBroker

open Calc (bind_eq_ok pure_eq_ok)

/-! ## The closing order -/

theorem OrderSide.opposite_ne (side : OrderSide) : side.opposite ≠ side := by
  cases side <;> exact nofun

theorem PositionSide.opposite_eq_buy {side : PositionSide} :
    side.entrySide.opposite = .buy ↔ side = .short := by
  cases side <;> simp [entrySide, OrderSide.opposite]

theorem PositionSide.opposite_eq_sell {side : PositionSide} :
    side.entrySide.opposite = .sell ↔ side = .long := by
  cases side <;> simp [entrySide, OrderSide.opposite]

/-- An order for all of an opposing position closes it in one trade. -/
theorem Meets.whole {order : Order} {request : OrderRequest} {price commission : Decimal}
    {now : Instant} {newId : ℕ} {p : Position} {after : Option Position} {legs : List Leg}
    (h : Meets order request price commission now newId (some p) legs after)
    (hside : order.side = p.side.entrySide.opposite) (hq : order.quantity = p.quantity) :
    after = none ∧ ∃ p' realized, p'.id = p.id ∧ p.pnlAt price = .ok realized ∧
      legs = [order.leg .closed p' order.id.next p.quantity price commission realized now] := by
  have hsame : order.quantity.SameValue p.quantity := hq ▸ .refl _
  -- the order opposes the position and is for neither less nor more
  cases h with
  | increases side => exact absurd (side.trans hside).symm (OrderSide.opposite_ne _)
  | reduces _ less => exact absurd less hsame.not_lt
  | flips _ more => exact absurd more (Decimal.SameValue.not_lt (Eq.symm hsame))
  | @closes _ p' realized _ _ reduced =>
    -- the position is given back whole, so its gain is that of its own quantity
    obtain ⟨hgain, _, _, -, -, hholding⟩ := Position.holding_reduced reduced
    rw [hq] at hgain ⊢
    exact ⟨rfl, p', realized, Option.some.inj (congrArg Holding.id hholding), hgain, rfl⟩

namespace Ledger

variable {l l' : Ledger} {request : OrderRequest} {price notional commission : Decimal}
  {now : Instant} {symbol : String} {p : Position} {kind : TriggerKind}

/-! ## The balance after an order -/

/-- Only a sale leaves a negative balance: what it brings, which may be negative, is less than what
the balance is short of. -/
theorem Paid.sell_of_freeBalance_neg (h : l.Paid request price notional commission l')
    (hneg : l'.freeBalance < 0) : request.side = .sell ∧
      ∃ flow, notional.sub commission = .ok flow ∧ l.freeBalance.toRat + flow.toRat < 0 := by
  obtain ⟨flow, hflow, hfree⟩ := h.freeBalance_eq
  have hsum : l.freeBalance.toRat + flow.toRat < 0 := by
    by_contra hle
    have hnonneg := (Decimal.faithful_add hfree).nonneg (not_lt.mp hle)
    exact Decimal.not_lt_iff.mpr (Decimal.nonneg_iff.mpr hnonneg) hneg
  cases hside : request.side with
  | buy =>
    -- the balance was checked to be no less than the cost
    simp only [hside, OrderSide.cashFlow, bind_eq_ok, pure_eq_ok] at hflow
    obtain ⟨cost, hcost, rfl⟩ := hflow
    have := Decimal.le_iff.mp (h.affordable hside cost hcost)
    rw [Decimal.toRat_neg] at hsum
    linarith
  | sell =>
    rw [hside] at hflow
    exact ⟨rfl, flow, hflow, hsum⟩

/-- A sale at a price that is not negative does not cost anything, if its commission is at most its
value. -/
theorem Paid.flow_nonneg (h : l.Paid request price notional commission l')
    (hq : 0 < request.quantity) (hprice : 0 ≤ price) (hrate : l.account.commissionRate ≤ 1)
    {flow : Decimal} (hflow : notional.sub commission = .ok flow) : 0 ≤ flow.toRat := by
  rw [Decimal.le_iff, Decimal.toRat_one] at hrate
  rw [Decimal.pos_iff] at hq
  rw [Decimal.nonneg_iff] at hprice
  have hnotional : 0 ≤ notional.toRat :=
    (Decimal.faithful_mul h.notional_eq).nonneg (mul_nonneg hq.le hprice)
  -- rounding keeps the commission at most the value, because the value is a decimal
  have hcommission : commission.toRat ≤ notional.toRat :=
    (Decimal.faithful_mul h.commission_eq).le (mul_le_of_le_one_right hnotional hrate)
  exact (Decimal.faithful_sub hflow).nonneg (sub_nonneg.mpr hcommission)

/-- A purchase leaves a balance that is not negative, and so does a sale at a positive price whose
commission is at most its value, if the balance before was not negative. -/
theorem Paid.freeBalance_nonneg (h : l.Paid request price notional commission l')
    (hq : 0 < request.quantity) (hprice : 0 < price)
    (hsell : request.side = .sell → 0 ≤ l.freeBalance ∧ l.account.commissionRate ≤ 1) :
    0 ≤ l'.freeBalance := by
  rw [← Decimal.not_lt_iff]
  intro hneg
  obtain ⟨hside, flow, hflow, hsum⟩ := h.sell_of_freeBalance_neg hneg
  obtain ⟨hbalance, hrate⟩ := hsell hside
  have hbrings := h.flow_nonneg hq (Decimal.nonneg_of_pos hprice) hrate hflow
  rw [Decimal.nonneg_iff] at hbalance
  linarith

/-! ## Symbols without a position -/

/-- An operation places an order for a symbol. -/
def Operation.PlacesFor (symbol : String) : Operation → Prop
  | .place request _ => request.symbol = symbol
  | _ => False

/-- An order that an operation places for a symbol does not trade. -/
def NoTradeFor (symbol : String) (l : Ledger) (op : Operation) : Prop :=
  op.PlacesFor symbol → (l.step op).All fun r => r.1.trades = l.trades

theorem fillOfRequest_eq_some {l₁ : Ledger} {request₁ : OrderRequest}
    (h : l.fillOfRequest request = some (l₁, request₁, price)) : l₁ = l ∧ request₁ = request := by
  unfold fillOfRequest at h
  split at h
  · cases h
    exact ⟨rfl, rfl⟩
  · exact nomatch h

/-- A request is for all of the position at its symbol, against it. -/
def Exits (l : Ledger) (request : OrderRequest) : Prop :=
  ∃ p, l.positions.get? request.symbol = some p ∧
    request.side = p.side.entrySide.opposite ∧ request.quantity = p.quantity

theorem Consistent.exits_closing (hl : l.Consistent) (hp : l.positions.get? symbol = some p) :
    l.Exits p.closing := by
  refine ⟨p, ?_, rfl, rfl⟩
  show l.positions.get? p.symbol = some p
  rw [(hl.sound hp).symbol_eq]
  exact hp

/-- An operation fills an order that it places, or one for all of a position. -/
theorem Consistent.exits_of_fillOf (hl : l.Consistent) {op : Operation} {l₁ : Ledger}
    (h : l.fillOf op = some (l₁, request, price)) :
    (∃ now, op = .place request now ∧ l₁ = l) ∨ l₁.Exits request := by
  cases op with
  | place request₁ now =>
    rw [fillOf] at h
    obtain ⟨rfl, rfl⟩ := fillOfRequest_eq_some h
    exact .inl ⟨now, rfl, rfl⟩
  | close id now =>
    rw [fillOf] at h
    obtain ⟨p, hp, h⟩ := Option.bind_eq_some_iff.mp h
    obtain ⟨rfl, rfl⟩ := fillOfRequest_eq_some h
    obtain ⟨⟨s, p⟩, hmem, rfl⟩ := List.mem_map.mp (List.mem_of_find?_eq_some hp)
    exact .inr (hl.exits_closing (Table.get?_eq_some_iff.mpr hmem))
  | cancel id => cases h
  | setExit id kind price now => cases h
  | updatePrice symbol price now =>
    simp only [fillOf] at h
    split at h
    · next l₂ trigger hrecord =>
      obtain ⟨p', hp', h⟩ := Option.map_eq_some_iff.mp h
      cases h
      rcases recordPrice_cases hrecord with ⟨-, -, _, herror⟩ | ⟨-, -, -, hnone⟩ |
        ⟨p, p₂, -, hp, hmark, rfl, -⟩
      · cases herror
      · cases hnone
      · exact .inr ((hl.quiet (quiet_marked hp hmark)).exits_closing hp')
    · cases h

/-- A symbol without a position has none after a run in which no order placed for it trades. -/
theorem Consistent.flat_run (hl : l.Consistent) (hflat : l.positions.get? symbol = none)
    {ops : List Operation} (hops : l.Along (NoTradeFor symbol) ops) (h : l.run ops = .ok l') :
    l'.positions.get? symbol = none := by
  refine (hl.along_induction (P := fun l => l.positions.get? symbol = none) hflat ?_ hops h).2
  intro l₁ l₂ op answer hl₁ hflat hop hstep
  cases hl₁.step_cases hstep with
  | quiet quiet _ => exact quiet.get?_eq_none.mpr hflat
  | @filled l₃ request price _ _ _ _ quiet fillOf_eq _ _ filled _ =>
    by_cases hsymbol : symbol = request.symbol
    · subst hsymbol
      have hplaces : op.PlacesFor request.symbol := by
        rcases hl₁.exits_of_fillOf fillOf_eq with ⟨now, rfl, -⟩ | ⟨p, hp, -⟩
        · rfl
        · -- there is no position that the order could close
          exact nomatch (quiet.get?_eq_none.mpr hflat).symm.trans hp
      have htrades : l₂.trades = l₁.trades := hop hplaces _ hstep
      -- a fill makes at least one trade
      rw [filled.trades_eq, quiet.trades_eq, List.append_right_eq_self, List.map_eq_nil_iff]
        at htrades
      exact absurd htrades filled.meets.legs_ne_nil
    · -- a fill in another symbol does not touch this one
      rw [filled.get?_other symbol hsymbol]
      exact quiet.get?_eq_none.mpr hflat

/-- A price for a symbol without a position closes nothing. -/
theorem updatePrice_of_flat (hflat : l.positions.get? symbol = none) (hprice : 0 < price) :
    l.updatePrice symbol price now = .ok (l.withPrice symbol price, .ok none) := by
  have hle : ¬ price ≤ 0 := Decimal.not_le_iff.mpr hprice
  simp only [updatePrice, recordPrice, if_neg hle, hflat]
  rfl

/-! ## Crossed exits -/

/-- Closing a short position costs more than the free balance: the price is recorded, the position
is marked, and the crossed exit is told. -/
structure ExitRefused (l : Ledger) (symbol : String) (p : Position) (kind : TriggerKind)
    (price : Decimal) (now : Instant) (l' : Ledger) (outcome : Outcome (Option Execution)) :
    Prop where
  short : p.side = .short
  ledger_eq : ∃ p', p.mark price now = .ok p' ∧
    l' = (l.marked symbol price p').emit (.exitTriggered p.id symbol kind price)
  outcome_eq : ∃ notional commission cost, p.quantity.mul price = .ok notional ∧
    notional.mul l.account.commissionRate = .ok commission ∧
    notional.add commission = .ok cost ∧ l.freeBalance < cost ∧
    outcome = .error (.insufficientBalance cost l.freeBalance)

/-- The position has been closed by one trade, for all of it and at the price, which the balance
could pay.  The answer is that trade, unless the balance is negative now; it is not, as long as a
sale did not start from a negative balance or with a commission above the value traded. -/
structure ExitDone (l : Ledger) (symbol : String) (p : Position) (price : Decimal) (l' : Ledger)
    (outcome : Outcome (Option Execution)) : Prop where
  affordable : (p.quantity.mul price).All fun notional =>
    (notional.mul l.account.commissionRate).All fun commission =>
      Affordable l.freeBalance p.side.entrySide.opposite notional commission
  flat : l'.positions.get? symbol = none
  trade_eq : ∃ t order, l'.trades = l.trades ++ [t] ∧ l'.orders = l.orders ++ [order] ∧
    t.symbol = symbol ∧ t.side = p.side.entrySide.opposite ∧ t.positionId = some p.id ∧
    t.quantity = p.quantity ∧ t.price = price ∧ p.pnlAt price = .ok t.realizedPnl ∧
    outcome = if l'.freeBalance < 0 then .error (.invariantViolation l'.overdrawn)
      else .ok (some ⟨order, [t], none⟩)
  nonneg : (p.side = .long → 0 ≤ l.freeBalance ∧ l.account.commissionRate ≤ 1) → 0 ≤ l'.freeBalance

/-- What the fill of a closing order comes to, in a book where the position holds the same. -/
theorem Consistent.exitDone_of_filled {book : Ledger} {p' : Position} {legs : List Leg}
    (hl : l.Consistent) (hp : l.positions.get? symbol = some p) (hprice : 0 < price)
    (hholding : p'.holding = p.holding) (hquiet : l.Quiet book)
    (hget : book.positions.get? symbol = some p')
    (h : book.Filled (exitRequest p' kind) price notional commission now legs l') :
    l.ExitDone symbol p price l' ((l'.verdict ⟨(book.orderOf (exitRequest p' kind) now).filled price
      commission now, legs.map Leg.trade,
      l'.positions.get? (exitRequest p' kind).symbol⟩).map some) := by
  obtain ⟨hid, hsymbol, hside, hquantity, -⟩ := Position.holding_eq_iff.mp hholding
  have hsound := hl.sound hp
  have hrequest : (exitRequest p' kind).symbol = symbol := hsymbol.trans hsound.symbol_eq
  have hq : 0 < (exitRequest p' kind).quantity := by
    show 0 < p'.quantity
    rw [hquantity]
    exact hsound.quantity_pos
  have hl' : l'.Consistent := by
    refine (hl.quiet hquiet).filled_by hq ?_ h
    rw [hrequest]
    exact hquiet.priced _ hsound.priced
  have hmeets := h.meets
  rw [hrequest, hget] at hmeets
  obtain ⟨hflat, p₂, realized, hid₂, hpnl, rfl⟩ := hmeets.whole rfl rfl
  constructor
  case affordable =>
    intro notional' hnotional commission' hcommission
    obtain rfl : notional = notional' := by
      refine Except.ok.inj (h.notional_eq.symm.trans ?_)
      show p'.quantity.mul price = _
      rw [hquantity, hnotional]
    obtain rfl : commission = commission' := by
      refine Except.ok.inj (h.commission_eq.symm.trans ?_)
      rw [hquiet.account_eq, hcommission]
    rw [← hside, ← hquiet.freeBalance_eq]
    exact h.affordable
  case flat => exact hflat
  case trade_eq =>
    refine ⟨_, _, hquiet.trades_eq ▸ h.trades_eq, hquiet.orders_eq ▸ h.orders_eq, hrequest,
      congrArg (·.entrySide.opposite) hside, congrArg some (hid₂.trans hid), hquantity, rfl,
      Position.pnlAt_eq_of_holding hholding price ▸ hpnl, ?_⟩
    rw [hl'.verdict_eq, hrequest, hflat, apply_ite (Except.map some)]
    rfl
  case nonneg =>
    intro hlong
    refine h.toPaid.freeBalance_nonneg hq hprice fun hsell => ?_
    rw [hquiet.freeBalance_eq, hquiet.account_eq]
    exact hlong (hside ▸ PositionSide.opposite_eq_sell.mp hsell)

/-- A crossed exit is refused for lack of balance, or closes the position. -/
theorem Consistent.exit_cases {outcome : Outcome (Option Execution)} (hl : l.Consistent)
    (hp : l.positions.get? symbol = some p) (hprice : 0 < price)
    (hcrossed : p.triggerAt price = some kind)
    (h : l.updatePrice symbol price now = .ok (l', outcome)) :
    l.ExitRefused symbol p kind price now l' outcome ∨ l.ExitDone symbol p price l' outcome := by
  rcases updatePrice_cases h with ⟨hle, -⟩ | ⟨-, hnone, -⟩ |
    ⟨p₀, p', -, hp₀, hmark, ⟨hkind, -⟩ | ⟨kind', result, hkind, hfill, rfl⟩⟩
  · -- the price is positive, there is a position, and its exit is crossed
    exact absurd hle (Decimal.not_le_iff.mpr hprice)
  · rw [hp] at hnone
    exact nomatch hnone
  · obtain rfl : p = p₀ := Option.some.inj (hp.symm.trans hp₀)
    rw [hcrossed] at hkind
    exact nomatch hkind
  · obtain rfl : p = p₀ := Option.some.inj (hp.symm.trans hp₀)
    obtain rfl : kind = kind' := Option.some.inj (hcrossed.symm.trans hkind)
    obtain ⟨-, -, hside, hquantity, -⟩ :=
      Position.holding_eq_iff.mp (Position.holding_mark hmark)
    have hq : 0 < (exitRequest p' kind).quantity := by
      show 0 < p'.quantity
      rw [hquantity]
      exact (hl.sound hp).quantity_pos
    rcases fillCounted_cases hq hfill with ⟨hbuy, rfl, notional, commission, cost, hnotional,
      hcommission, hcost, hlt, rfl⟩ | ⟨notional, commission, legs, hfilled, rfl⟩
    · have hshort : p.side = .short := hside ▸ PositionSide.opposite_eq_buy.mp hbuy
      have hnotional' : p.quantity.mul price = .ok notional := hquantity ▸ hnotional
      exact .inl ⟨hshort, ⟨p', hmark, rfl⟩, notional, commission, cost, hnotional', hcommission,
        hcost, hlt, rfl⟩
    · -- the marked position holds what the position held before
      exact .inr (hl.exitDone_of_filled hp hprice (Position.holding_mark hmark)
        ((quiet_marked hp hmark).trans (.emit _ _)) (l.get?_marked symbol price p') hfilled)

/-- In every book of a run, a price that crosses an exit either closes the position, in one trade
for all of it at that price, or is refused because covering a short position costs more than the
free balance.  After a close no later price of the symbol closes anything, until an order placed
for it trades. -/
theorem exit_closes (account : AccountSettings) (firstId : Uuid) (listened : Bool)
    (ops : List Operation) (hrun : (new account firstId listened).run ops = .ok l)
    (hp : l.positions.get? symbol = some p) (hprice : 0 < price)
    (hcrossed : p.triggerAt price = some kind) {outcome : Outcome (Option Execution)}
    (h : l.updatePrice symbol price now = .ok (l', outcome)) :
    l.ExitRefused symbol p kind price now l' outcome ∨
    l.ExitDone symbol p price l' outcome ∧
      ∀ later l₂, l'.Along (NoTradeFor symbol) later → l'.run later = .ok l₂ →
        ∀ price' now', 0 < price' →
          l₂.updatePrice symbol price' now' = .ok (l₂.withPrice symbol price', .ok none) := by
  have hl := consistent_run hrun
  refine (hl.exit_cases hp hprice hcrossed h).imp_right fun hdone => ⟨hdone, ?_⟩
  intro later l₂ hlater hrun' price' now' hprice'
  have hstep : l.step (.updatePrice symbol price now) = .ok (l', .update outcome) := by
    simp only [step, h]
    rfl
  exact updatePrice_of_flat ((hl.step hstep).flat_run hdone.flat hlater hrun') hprice'

/-- The exit that a price crosses at the end of a run, and the error that the price answers, if it
does. -/
def crossing? (account : AccountSettings) (ops : List Operation) (symbol : String)
    (price : Decimal) : Option (Option TriggerKind × Option TradingError) :=
  ((new account default true).run ops).toOption.bind fun l =>
    (l.positions.get? symbol).bind fun p =>
      (l.updatePrice symbol price default).toOption.bind fun r =>
        some (p.triggerAt price, (Answer.update r.2).error?)

theorem crossing?_eq_some {account : AccountSettings} {ops : List Operation}
    {kind? : Option TriggerKind} {error? : Option TradingError}
    (h : crossing? account ops symbol price = some (kind?, error?)) :
    ∃ l p l' outcome, (new account default true).run ops = .ok l ∧
      l.positions.get? symbol = some p ∧ p.triggerAt price = kind? ∧
      l.updatePrice symbol price default = .ok (l', outcome) ∧
      (Answer.update outcome).error? = error? := by
  obtain ⟨l, hrun, h⟩ := Calc.exists_eq_ok h
  obtain ⟨p, hp, h⟩ := Option.bind_eq_some_iff.mp h
  obtain ⟨⟨l', outcome⟩, hupdate, h⟩ := Calc.exists_eq_ok h
  obtain ⟨hkind, herror⟩ := Prod.mk.inj (Option.some.inj h)
  exact ⟨l, p, l', outcome, hrun, hp, hkind, hupdate, herror⟩

/-- A short position with a stop loss. -/
def shortRun : List Operation :=
  [.updatePrice "A" (.lit 100 0) default,
    .place { OrderRequest.market "A" .sell (.lit 1 0) with stopLoss := some (.lit 150 0) } default]

/-- A long position with a stop loss. -/
def longRun : List Operation :=
  [.updatePrice "A" (.lit 30 0) default,
    .place { OrderRequest.market "A" .buy (.lit 1 0) with stopLoss := some (.lit 20 0) } default]

/-- An account with a balance of 100 and no slippage. -/
def smallAccount (commissionRate : Decimal) : AccountSettings :=
  { initialBalance := .lit 100 0, commissionRate, slippage := 0 }

/-- A short position is stopped out for 180, of the 200 there are. -/
theorem exit_closes_short : ∃ l p l' outcome,
    (new (smallAccount 0) default true).run shortRun = .ok l ∧
    l.positions.get? "A" = some p ∧ p.triggerAt (.lit 180 0) = some .stopLoss ∧
    l.updatePrice "A" (.lit 180 0) default = .ok (l', outcome) ∧
    l.ExitDone "A" p (.lit 180 0) l' outcome := by
  have hcrossing : crossing? (smallAccount 0) shortRun "A" (.lit 180 0) =
      some (some .stopLoss, none) := by decide +kernel
  obtain ⟨l, p, l', outcome, hrun, hp, hkind, hupdate, herror⟩ := crossing?_eq_some hcrossing
  refine ⟨l, p, l', outcome, hrun, hp, hkind, hupdate, ?_⟩
  rcases exit_closes (smallAccount 0) default true shortRun hrun hp (by decide) hkind hupdate with
    hrefused | ⟨hdone, -⟩
  · obtain ⟨_, _, _, -, -, -, -, rfl⟩ := hrefused.outcome_eq
    exact nomatch herror
  · exact hdone

theorem exists_error_of_crossing? {account : AccountSettings} {ops : List Operation}
    {e : TradingError} (h : crossing? account ops symbol price = some (some kind, some e)) :
    ∃ l p l', (new account default true).run ops = .ok l ∧ l.positions.get? symbol = some p ∧
      p.triggerAt price = some kind ∧ l.updatePrice symbol price default = .ok (l', .error e) := by
  obtain ⟨l, p, l', outcome, hrun, hp, hkind, hupdate, herror⟩ := crossing?_eq_some h
  cases outcome with
  | error e' =>
    cases herror
    exact ⟨l, p, l', hrun, hp, hkind, hupdate⟩
  | ok result => exact nomatch herror

/-- In an account that is accepted, a crossed exit need not close its position: covering the short
position at 300 costs more than the 200 there are.  Nor need it answer with a trade: at a commission
of twice the value traded, the sale at 20 leaves a negative balance. -/
theorem exit_fails :
    ({ account := smallAccount 0 } : Settings).fault? = none ∧
    (∃ l p l', (new (smallAccount 0) default true).run shortRun = .ok l ∧
      l.positions.get? "A" = some p ∧ p.triggerAt (.lit 300 0) = some .stopLoss ∧
      l.updatePrice "A" (.lit 300 0) default =
        .ok (l', .error (.insufficientBalance (.lit 300 0) (.lit 200 0)))) ∧
    ({ account := smallAccount (.lit 2 0) } : Settings).fault? = none ∧
    ∃ l p l', (new (smallAccount (.lit 2 0)) default true).run longRun = .ok l ∧
      l.positions.get? "A" = some p ∧ p.triggerAt (.lit 20 0) = some .stopLoss ∧
      l.updatePrice "A" (.lit 20 0) default =
        .ok (l', .error (.invariantViolation "free balance went negative: -10")) := by
  refine ⟨by decide +kernel, exists_error_of_crossing? ?_, by decide +kernel,
    exists_error_of_crossing? ?_⟩
  · decide +kernel
  · decide +kernel

end Ledger

end SimBroker
