import SimBroker.Ledger.Basic

/-!
# Filling an order

An order first gives back an opposing position (`offset`), at most all of it; what remains of the
order opens a position or increases the one there is (`extend`).  The commission is split between
the two in proportion to quantity.  Then the balance pays for the whole order.
-/

namespace SimBroker

namespace Ledger

/-- Takes the next id. -/
def mint (l : Ledger) : Uuid × Ledger := (l.nextId, { l with nextId := l.nextId.next })

/-- Records a trade and the change of position it made. -/
def record (l : Ledger) (change : PositionChange) (position : Position) (trade : Trade) : Ledger :=
  { l with trades := l.trades ++ [trade] }.emit (.position change position (some trade))

/-- Gives back `quantity` of a position at a price; without quantity the position is closed. -/
def reduce (l : Ledger) (position : Position) (order : Order) (quantity price commission : Decimal)
    (now : Instant) : Calc (Ledger × Trade) := do
  let (position, realized) ← position.reduced order.id quantity price now
  let total ← l.realizedPnl.add realized
  let (id, l) := l.mint
  let trade := order.trade id position.id quantity price commission realized now
  let closed := position.quantity.isZero
  let l := { l with
    realizedPnl := total
    positions :=
      if closed then l.positions.erase order.symbol
      else l.positions.insert order.symbol position }
  return (l.record (if closed then .closed else .reduced) position trade, trade)

/-- Adds `quantity` in the order's direction at a price, to the symbol's position or as a new
one. -/
def extend (l : Ledger) (order : Order) (request : OrderRequest)
    (quantity price commission : Decimal) (now : Instant) : Calc (Ledger × Trade) := do
  let (change, position, l) ←
    match l.positions.get? order.symbol with
    | some p => do
      let p ← p.increased order.id request quantity price now
      pure (PositionChange.increased, p, l)
    | none =>
      pure (.opened, .opened l.nextPositionId order request quantity price now,
        { l with nextPositionId := l.nextPositionId + 1 })
  let (id, l) := l.mint
  let trade := order.trade id position.id quantity price commission 0 now
  let l := { l with positions := l.positions.insert order.symbol position }
  return (l.record change position trade, trade)

/-- What is left of an order: the trade made so far, and the quantity and commission to come. -/
structure Remainder where
  trades : List Trade
  quantity : Decimal
  commission : Decimal

/-- The part of an order that gives back an opposing position. -/
def offset (l : Ledger) (order : Order) (price commission : Decimal) (now : Instant) :
    Calc (Ledger × Remainder) := do
  match l.positions.get? order.symbol with
  | none => return (l, ⟨[], order.quantity, commission⟩)
  | some position =>
    if position.side.entrySide = order.side then return (l, ⟨[], order.quantity, commission⟩)
    else
      let quantity := order.quantity.min position.quantity
      let share ←
        if quantity.SameValue order.quantity then pure commission
        else do (← commission.mul quantity).div order.quantity
      let (l, trade) ← l.reduce position order quantity price share now
      let restQuantity ← order.quantity.sub quantity
      let restCommission ← commission.sub share
      return (l, ⟨[trade], restQuantity, restCommission⟩)

/-- Pays for an order: a purchase costs its value and the commission, a sale brings its value less
the commission. -/
def settle (l : Ledger) (side : OrderSide) (notional commission : Decimal) : Calc Ledger := do
  let delta ←
    match side with
    | .buy => do pure (-(← notional.add commission))
    | .sell => notional.sub commission
  let freeBalance ← l.freeBalance.add delta
  let totalCommission ← l.totalCommission.add commission
  return { l with freeBalance, totalCommission }

/-- Carries an order out at a price. -/
def execute (l : Ledger) (request : OrderRequest) (price notional commission : Decimal)
    (now : Instant) : Calc (Ledger × Outcome Execution) := do
  let (id, l) := l.mint
  let order := Order.ofRequest id request now
  let (l, rest) ← l.offset order price commission now
  let (l, opening) ←
    if 0 < rest.quantity then do
      let (l, trade) ← l.extend order request rest.quantity price rest.commission now
      pure (l, [trade])
    else pure (l, [])
  let l ← l.settle request.side notional commission
  let order := order.filled price commission now
  let l := { l with orders := l.orders ++ [order] }.emit (.orderFilled order)
  match l.violation? with
  | some message => return (l, .error (.invariantViolation message))
  | none => return (l, .ok ⟨order, rest.trades ++ opening, l.positions.get? request.symbol⟩)

/-- Fills a request in full at a price, if a purchase can be paid for. -/
def fill (l : Ledger) (request : OrderRequest) (price : Decimal) (now : Instant) :
    Calc (Ledger × Outcome Execution) := do
  let notional ← request.quantity.mul price
  let commission ← notional.mul l.account.commissionRate
  match request.side with
  | .buy =>
    let required ← notional.add commission
    if l.freeBalance < required then
      return (l, .error (.insufficientBalance required l.freeBalance))
    else l.execute request price notional commission now
  | .sell => l.execute request price notional commission now

end Ledger

end SimBroker
