import SimBroker.Proofs.Ledger.Consistent

/-!
# The book from its history

A book can be computed again from its trades and its orders alone.  The trades, replayed in order
from nothing, give what is held in each symbol and the profit realized; the orders give the balance
and the commission paid.  Both take the decimal operations of the program in the order of the
program, so the results are the same decimals, scales and roundings included.

## Main definitions

* `Replayed.trade`, `replay`: what is held after a trade and after a list of trades
* `Replayed.gainOf`: the profit that a trade realizes from what is held
* `Order.pay`, `Order.charge`: the balance and the commission after an order
* `Recorded`: a book that is what its history says

## Main results

* `Meets.replays`: the legs of an order, replayed
* `recorded_run`, `run_replays`: every book of a run is what its history says
-/

namespace SimBroker

open Calc (bind_eq_ok pure_eq_ok foldlM_concat_eq_ok)

/-! ## Replaying trades -/

namespace Holding

/-- What a trade opens where nothing is held. -/
def ofTrade (t : Trade) : Holding :=
  ⟨t.positionId, t.symbol, .ofOrderSide t.side, t.quantity, t.price, 0, [t.orderId]⟩

/-- The profit of `quantity` between the entry and a price. -/
def gain (h : Holding) (price quantity : Decimal) : Calc Decimal := do
  (← (← price.sub h.entryPrice).mul quantity).mul h.side.sign

end Holding

/-- What trades have come to: what is held in each symbol, and the profit realized in all. -/
structure Replayed where
  held : Table String Holding := ∅
  realizedPnl : Decimal := 0

namespace Replayed

/-- The profit that a trade realizes from what is held; an entry realizes nothing. -/
def gainOf (r : Replayed) (t : Trade) : Calc Decimal :=
  match r.held.get? t.symbol with
  | none => .ok 0
  | some h => if h.side.entrySide = t.side then .ok 0 else h.gain t.price t.quantity

/-- What is held after one more trade. -/
def trade (r : Replayed) (t : Trade) : Calc Replayed := do
  match r.held.get? t.symbol with
  | none => return { r with held := r.held.insert t.symbol (.ofTrade t) }
  | some h =>
    if h.side.entrySide = t.side then
      let total ← h.quantity.add t.quantity
      let entry ← Position.averageEntry h.entryPrice h.quantity t.price t.quantity total
      return { r with held := r.held.insert t.symbol { h with
        quantity := total, entryPrice := entry, orderIds := h.orderIds ++ [t.orderId] } }
    else
      let rest ← h.quantity.sub t.quantity
      let realized ← h.realizedPnl.add t.realizedPnl
      let realizedPnl ← r.realizedPnl.add t.realizedPnl
      -- what is left of a position keeps its id, side and entry
      return ⟨if rest.isZero then r.held.erase t.symbol else r.held.insert t.symbol { h with
        quantity := rest, realizedPnl := realized, orderIds := h.orderIds ++ [t.orderId] },
        realizedPnl⟩

end Replayed

/-- What a list of trades comes to, from nothing. -/
def replay (trades : List Trade) : Calc Replayed := trades.foldlM Replayed.trade {}

/-- Trades lead from one state to another, and each says itself what it realizes. -/
inductive Replays : Replayed → List Trade → Replayed → Prop
  | nil {r : Replayed} : Replays r [] r
  | cons {r r₁ r₂ : Replayed} {t : Trade} {ts : List Trade} (gain : r.gainOf t = .ok t.realizedPnl)
    (trade : r.trade t = .ok r₁) (rest : Replays r₁ ts r₂) : Replays r (t :: ts) r₂

namespace Replays

variable {r r₁ r₂ : Replayed} {ts ts' : List Trade}

theorem append (h : Replays r ts r₁) (h' : Replays r₁ ts' r₂) : Replays r (ts ++ ts') r₂ := by
  induction h with
  | nil => exact h'
  | cons gain trade _ ih => exact .cons gain trade (ih h')

theorem foldlM_eq (h : Replays r ts r₁) : ts.foldlM Replayed.trade r = .ok r₁ := by
  induction h with
  | nil => rfl
  | cons _ trade _ ih =>
    rw [List.foldlM_cons, trade]
    exact ih

/-- Every trade says what it realizes, at its place in the replay. -/
theorem gainOf_eq (h : Replays r ts r₁) {before after : List Trade} {t : Trade}
    (hts : ts = before ++ t :: after) :
    ∃ r', before.foldlM Replayed.trade r = .ok r' ∧ r'.gainOf t = .ok t.realizedPnl := by
  induction h generalizing before with
  | nil => simp at hts
  | cons gain trade rest ih =>
    cases before with
    | nil =>
      -- the trade is the first one
      obtain ⟨rfl, -⟩ := List.cons.inj hts
      exact ⟨_, rfl, gain⟩
    | cons t' before =>
      -- the trade is further on, after the first one is replayed
      obtain ⟨rfl, hrest⟩ := List.cons.inj hts
      obtain ⟨r', hr', hgain⟩ := ih hrest
      refine ⟨r', ?_, hgain⟩
      rw [List.foldlM_cons, trade]
      exact hr'

end Replays

/-! ## The legs of an order -/

/-- A state that differs from another by what is held in one symbol, and by the profit. -/
structure Replayed.Updated (r : Replayed) (symbol : String) (h? : Option Holding)
    (realizedPnl : Decimal) (r' : Replayed) : Prop where
  get?_self : r'.held.get? symbol = h?
  get?_other : ∀ s, s ≠ symbol → r'.held.get? s = r.held.get? s
  realizedPnl_eq : r'.realizedPnl = realizedPnl

namespace Replayed

variable {r : Replayed} {symbol : String} {h : Holding} {realizedPnl : Decimal}

theorem updated_insert (r : Replayed) (symbol : String) (h : Holding) (realizedPnl : Decimal) :
    r.Updated symbol (some h) realizedPnl ⟨r.held.insert symbol h, realizedPnl⟩ where
  get?_self := (Table.get?_insert ..).trans (if_pos rfl)
  get?_other _ hs := (Table.get?_insert ..).trans (if_neg (Ne.symm hs))
  realizedPnl_eq := rfl

theorem updated_erase (r : Replayed) (symbol : String) (realizedPnl : Decimal) :
    r.Updated symbol none realizedPnl ⟨r.held.erase symbol, realizedPnl⟩ where
  get?_self := (Table.get?_erase ..).trans (if_pos rfl)
  get?_other _ hs := (Table.get?_erase ..).trans (if_neg (Ne.symm hs))
  realizedPnl_eq := rfl

/-- What is left of a holding is held, unless nothing is. -/
theorem updated_ite (r : Replayed) (symbol : String) (h : Holding) (realizedPnl : Decimal)
    (closed : Bool) : r.Updated symbol (if closed then none else some h) realizedPnl
      ⟨if closed then r.held.erase symbol else r.held.insert symbol h, realizedPnl⟩ := by
  cases closed with
  | false => exact r.updated_insert ..
  | true => exact r.updated_erase ..

end Replayed

section Legs

variable {order : Order} {request : OrderRequest} {price commission quantity realized : Decimal}
  {now : Instant} {newId : ℕ} {id : Uuid} {p p' : Position} {r : Replayed}

theorem replays_opened (hr : r.held.get? order.symbol = none) (request : OrderRequest)
    (quantity price commission : Decimal) (now : Instant) (newId : ℕ) (id : Uuid) :
    ∃ r', Replays r [(order.leg .opened (.opened newId order request quantity price now) id
      quantity price commission 0 now).trade] r' ∧
      r.Updated order.symbol (some (Position.opened newId order request quantity price now).holding)
        r.realizedPnl r' := by
  refine ⟨_, .cons ?_ ?_ .nil, r.updated_insert ..⟩
  · show r.gainOf (order.trade ..) = .ok 0
    simp only [Replayed.gainOf, Order.trade, hr]
  · show r.trade (order.trade ..) = _
    simp only [Replayed.trade, Order.trade, hr]
    rfl

theorem replays_increased (hr : r.held.get? order.symbol = some p.holding)
    (hside : p.side.entrySide = order.side)
    (h : p.increased order.id request quantity price now = .ok p') :
    ∃ r', Replays r [(order.leg .increased p' id quantity price commission 0 now).trade] r' ∧
      r.Updated order.symbol (some p'.holding) r.realizedPnl r' := by
  obtain ⟨total, entry, htotal, hentry, hholding⟩ := Position.holding_increased h
  have hentering : p.holding.side.entrySide = order.side := hside
  rw [hholding]
  refine ⟨_, .cons ?_ ?_ .nil, r.updated_insert ..⟩
  · show r.gainOf (order.trade ..) = .ok 0
    simp only [Replayed.gainOf, Order.trade, hr, hentering, ↓reduceIte]
  · show r.trade (order.trade ..) = _
    simp only [Replayed.trade, Order.trade, hr, hentering, ↓reduceIte, bind_eq_ok]
    exact ⟨total, htotal, entry, hentry, rfl⟩

theorem replays_reduced {total : Decimal} (hr : r.held.get? order.symbol = some p.holding)
    (hside : p.side.entrySide ≠ order.side)
    (h : p.reduced order.id quantity price now = .ok (p', realized))
    (htotal : r.realizedPnl.add realized = .ok total) (change : PositionChange)
    (commission : Decimal) (id : Uuid) :
    ∃ r', Replays r [(order.leg change p' id quantity price commission realized now).trade] r' ∧
      r.Updated order.symbol (if p'.quantity.isZero then none else some p'.holding) total r' := by
  obtain ⟨hgain, rest, own, hrest, hown, hholding⟩ := Position.holding_reduced h
  have hquantity : p'.quantity = rest := congrArg Holding.quantity hholding
  have hopposing : ¬ p.holding.side.entrySide = order.side := hside
  rw [hquantity, hholding]
  refine ⟨_, .cons ?_ ?_ .nil, r.updated_ite ..⟩
  · show r.gainOf (order.trade ..) = .ok realized
    simp only [Replayed.gainOf, Order.trade, hr, hopposing, ↓reduceIte]
    exact hgain
  · show r.trade (order.trade ..) = _
    simp only [Replayed.trade, Order.trade, hr, hopposing, ↓reduceIte, bind_eq_ok]
    exact ⟨rest, hrest, own, hown, total, htotal, rfl⟩

/-- The legs of an order, replayed, give what the order leaves. -/
theorem Meets.replays {before after : Option Position} {legs : List Leg} {total : Decimal}
    (h : Meets order request price commission now newId before legs after)
    (hr : r.held.get? order.symbol = before.map Position.holding)
    (htotal : legs.foldlM Leg.realize r.realizedPnl = .ok total) :
    ∃ r', Replays r (legs.map Leg.trade) r' ∧
      r.Updated order.symbol (after.map Position.holding) total r' := by
  cases h with
  | opens =>
    obtain rfl : r.realizedPnl = total := pure_eq_ok.mp htotal
    exact replays_opened hr ..
  | increases side increased =>
    obtain rfl : r.realizedPnl = total := pure_eq_ok.mp htotal
    exact replays_increased hr side increased
  | @reduces p p' realized side less reduced =>
    replace htotal := Leg.add_eq_ok htotal rfl (List.forall_mem_nil _)
    have hopen : ¬ p'.quantity.isZero = true := by
      rw [Position.isZero_reduced reduced]
      exact fun same => Decimal.SameValue.not_lt (Eq.symm same) less
    have := replays_reduced hr side reduced htotal .reduced commission order.id.next
    rwa [if_neg hopen] at this
  | @closes p p' realized side same reduced =>
    replace htotal := Leg.add_eq_ok htotal rfl (List.forall_mem_nil _)
    have hclosed : p'.quantity.isZero = true := (Position.isZero_reduced reduced).mpr (Eq.symm same)
    have := replays_reduced hr side reduced htotal .closed commission order.id.next
    rwa [if_pos hclosed] at this
  | @flips p p' realized product share rest restCommission side more reduced =>
    replace htotal := Leg.add_eq_ok htotal rfl (List.forall_mem_singleton.mpr nofun)
    have hclosed : p'.quantity.isZero = true := (Position.isZero_reduced reduced).mpr (.refl _)
    obtain ⟨r₁, hclose, hr₁⟩ := replays_reduced hr side reduced htotal .closed share order.id.next
    -- all of the position is given back
    rw [if_pos hclosed] at hr₁
    -- the symbol is flat between the two legs
    obtain ⟨r₂, hopen, hr₂⟩ := replays_opened hr₁.get?_self request rest price restCommission now
      newId order.id.next.next
    refine ⟨r₂, hclose.append hopen, hr₂.get?_self, fun s hs => ?_, ?_⟩
    · exact (hr₂.get?_other s hs).trans (hr₁.get?_other s hs)
    · exact hr₂.realizedPnl_eq.trans hr₁.realizedPnl_eq

end Legs

/-! ## Replaying orders -/

namespace Order

/-- What a filled order brings to the balance. -/
def cashFlow (o : Order) : Calc Decimal := do
  o.side.cashFlow (← o.filledQuantity.mul o.avgFillPrice) o.commission

/-- The balance after an order. -/
def pay (balance : Decimal) (o : Order) : Calc Decimal := do balance.add (← o.cashFlow)

/-- The commission paid in all after an order. -/
def charge (sum : Decimal) (o : Order) : Calc Decimal := sum.add o.commission

/-- The commission of an order is its share of the value traded. -/
def Charged (rate : Decimal) (o : Order) : Prop :=
  ∃ notional, o.filledQuantity.mul o.avgFillPrice = .ok notional ∧
    notional.mul rate = .ok o.commission

end Order

namespace Ledger

variable {l l' : Ledger} {account : AccountSettings} {request : OrderRequest}
  {price notional commission : Decimal} {now : Instant} {legs : List Leg}

/-- A book of an account that is what its trades and its orders say. -/
structure Recorded (account : AccountSettings) (l : Ledger) : Prop where
  account_eq : l.account = account
  replays : ∃ r, Replays {} l.trades r ∧
    (∀ s, r.held.get? s = (l.positions.get? s).map Position.holding) ∧
    r.realizedPnl = l.realizedPnl
  freeBalance_eq : l.orders.foldlM Order.pay account.initialBalance = .ok l.freeBalance
  totalCommission_eq : l.orders.foldlM Order.charge 0 = .ok l.totalCommission
  charged : ∀ o ∈ l.orders, o.Charged account.commissionRate

namespace Recorded

theorem new (account : AccountSettings) (firstId : Uuid) (listened : Bool) :
    Recorded account (new account firstId listened) where
  account_eq := rfl
  replays := ⟨{}, .nil, fun _ => rfl, rfl⟩
  freeBalance_eq := rfl
  totalCommission_eq := rfl
  charged := List.forall_mem_nil _

theorem quiet (hl : Recorded account l) (h : l.Quiet l') : Recorded account l' where
  account_eq := h.account_eq.trans hl.account_eq
  replays := by
    obtain ⟨r, hr, hheld, hrealized⟩ := hl.replays
    exact ⟨r, h.trades_eq ▸ hr, fun s => (hheld s).trans (h.holding_eq s).symm,
      hrealized.trans h.realizedPnl_eq.symm⟩
  freeBalance_eq := by rw [h.orders_eq, h.freeBalance_eq, hl.freeBalance_eq]
  totalCommission_eq := by rw [h.orders_eq, h.totalCommission_eq, hl.totalCommission_eq]
  charged := h.orders_eq ▸ hl.charged

theorem filled (hl : Recorded account l)
    (h : l.Filled request price notional commission now legs l') : Recorded account l' where
  account_eq := h.account_eq.trans hl.account_eq
  replays := by
    obtain ⟨r, hr, hheld, hrealized⟩ := hl.replays
    -- the legs are replayed after the trades of before
    obtain ⟨r', hr', hupdated⟩ := h.meets.replays (hheld request.symbol)
      (hrealized ▸ h.realizedPnl_eq)
    refine ⟨r', h.trades_eq ▸ hr.append hr', fun s => ?_, hupdated.realizedPnl_eq⟩
    by_cases hs : s = request.symbol
    · subst hs
      exact hupdated.get?_self
    · rw [hupdated.get?_other s hs, h.get?_other s hs, hheld s]
  freeBalance_eq := by
    obtain ⟨flow, hflow, hfree⟩ := h.freeBalance_eq
    rw [h.orders_eq, foldlM_concat_eq_ok]
    refine ⟨l.freeBalance, hl.freeBalance_eq, ?_⟩
    rw [Order.pay, Order.cashFlow, bind_eq_ok]
    refine ⟨flow, ?_, hfree⟩
    rw [bind_eq_ok]
    exact ⟨notional, h.notional_eq, hflow⟩
  totalCommission_eq := by
    rw [h.orders_eq, foldlM_concat_eq_ok]
    exact ⟨l.totalCommission, hl.totalCommission_eq, h.totalCommission_eq⟩
  charged := by
    rw [h.orders_eq]
    refine List.forall_mem_append.mpr ⟨hl.charged, List.forall_mem_singleton.mpr ?_⟩
    exact ⟨notional, h.notional_eq, hl.account_eq ▸ h.commission_eq⟩

end Recorded

theorem recorded_run {firstId : Uuid} {listened : Bool} {ops : List Operation}
    (h : (new account firstId listened).run ops = .ok l) : Recorded account l := by
  refine ((consistent_new account firstId listened).run_induction (.new ..) ?_ h).2
  intro l₁ l₂ op answer hl₁ hrecorded hop
  cases hl₁.step_cases hop with
  | quiet quiet _ => exact hrecorded.quiet quiet
  | filled quiet _ _ _ filled _ => exact (hrecorded.quiet quiet).filled filled

/-- In every run the trades, replayed from nothing, give what is held in each symbol and the profit
realized, and every trade says what it realizes at its place in the replay; the orders give the
balance and the commission paid. -/
theorem run_replays (account : AccountSettings) (firstId : Uuid) (listened : Bool)
    (ops : List Operation) (h : (new account firstId listened).run ops = .ok l) :
    (∃ r, replay (l.tradeList none) = .ok r ∧
      (∀ s, r.held.get? s = (l.positions.get? s).map Position.holding) ∧
      r.realizedPnl = l.realizedPnl) ∧
    (∀ before t after, l.tradeList none = before ++ t :: after →
      ∃ r, replay before = .ok r ∧ r.gainOf t = .ok t.realizedPnl) ∧
    l.orders.foldlM Order.pay account.initialBalance = .ok l.freeBalance ∧
    l.orders.foldlM Order.charge 0 = .ok l.totalCommission ∧
    ∀ o ∈ l.orders, o.Charged account.commissionRate := by
  have hl := recorded_run h
  obtain ⟨r, hr, hheld, hrealized⟩ := hl.replays
  exact ⟨⟨r, hr.foldlM_eq, hheld, hrealized⟩, fun before t after ht => hr.gainOf_eq ht,
    hl.freeBalance_eq, hl.totalCommission_eq, hl.charged⟩

/-- The six trades of the sample come to the position that was opened last. -/
theorem run_replays_sample : ∃ l r, (new {} default true).run sampleRun = .ok l ∧
    l.trades.length = 6 ∧ replay (l.tradeList none) = .ok r ∧ r.realizedPnl = l.realizedPnl ∧
    (r.held.get? "A").map Holding.id = some (some 3) := by
  have hlast : ((new {} default true).run sampleRun).toOption.bind (fun l =>
      (l.positions.get? "A").map fun p => (l.trades.length, p.id)) = some (6, 3) := by
    decide +kernel
  obtain ⟨l, hrun, hl⟩ := Calc.exists_eq_ok hlast
  obtain ⟨p, hp, hl⟩ := Option.map_eq_some_iff.mp hl
  obtain ⟨htrades, hid⟩ := Prod.mk.inj hl
  obtain ⟨⟨r, hr, hheld, hrealized⟩, -⟩ := run_replays {} default true sampleRun hrun
  refine ⟨l, r, hrun, htrades, hr, hrealized, ?_⟩
  rw [hheld, hp, ← hid]
  rfl

end Ledger

end SimBroker
