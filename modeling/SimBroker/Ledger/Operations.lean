import SimBroker.Ledger.Fill

/-!
# Operations of the ledger

The calls that an account answers.  A price update is two steps: `recordPrice` marks the position
and reports a crossed exit, and `executeTrigger` closes the position that the exit belongs to.
Other calls may come between the two, so the second step looks again at the position and at the
latest price; `updatePrice` is both without anything between.

The book itself does not count what it fills.  Each of `place`, `close` and `executeTrigger` counts
the order that the book has answered with.
-/

namespace SimBroker

namespace Ledger

/-- The price at which a request would be filled now. -/
def executionPrice (l : Ledger) (request : OrderRequest) : Calc (Outcome Decimal) :=
  match l.lastPrice? request.symbol with
  | none => .ok (.error (.noPriceAvailable request.symbol))
  | some reference =>
    match request.orderType, request.limitPrice with
    | .limit, some price => .ok (.ok price)
    | .limit, none => .ok (.error (.invalidInput "limit price missing"))
    | .market, _ => do
      let factor ←
        match request.side with
        | .buy => Decimal.add 1 l.account.slippage
        | .sell => Decimal.sub 1 l.account.slippage
      return .ok (← reference.mul factor)

/-- Accepts an order into the book: checks the request, finds its price and fills it. -/
def accept (l : Ledger) (request : OrderRequest) (now : Instant) :
    Calc (Ledger × Outcome Execution) := do
  match request.fault? with
  | some e => return (l, .error e)
  | none =>
    match ← l.executionPrice request with
    | .error e => return (l, .error e)
    | .ok price => l.fill request price now

/-- Counts the fill of an order, if there was one. -/
def count (l : Ledger) : Option Execution → Ledger
  | some execution => { l with fills := l.fills.bump execution.order.side }
  | none => l

/-- Places an order. -/
def place (l : Ledger) (request : OrderRequest) (now : Instant) :
    Calc (Ledger × Outcome Execution) := do
  let (l, outcome) ← l.accept request now
  return (l.count outcome.toOption, outcome)

/-- The error for an unknown position. -/
def unknownPosition (id : Nat) : TradingError := .notFound s!"position {id}"

/-- Closes a position at the market. -/
def close (l : Ledger) (id : Nat) (now : Instant) : Calc (Ledger × Outcome Execution) :=
  match l.position? id with
  | none => .ok (l, .error (unknownPosition id))
  | some p => do
    let (l, outcome) ← l.accept p.closing now
    return (l.count outcome.toOption, outcome)

/-- Cancels an order that is still active. -/
def cancel (l : Ledger) (id : Uuid) : Ledger × Outcome Order :=
  match l.orders.find? fun o => o.id = id with
  | none => (l, .error (.notFound s!"order {id}"))
  | some order =>
    if order.status.isActive then
      let order := { order with status := .canceled }
      let orders := l.orders.map fun o => if o.id = id then order else o
      ({ l with orders }.emit (.orderCanceled order), .ok order)
    else (l, .error (.invalidState s!"order {id} is {order.status.title}"))

/-- Moves an exit of a position. -/
def setExit (l : Ledger) (id : Nat) (kind : TriggerKind) (price : Decimal) (now : Instant) :
    Ledger × Outcome Position :=
  if price ≤ 0 then (l, .error (.invalidInput s!"{kind.name} must be positive"))
  else
    match l.positions.entries.find? fun e => e.2.id = id with
    | none => (l, .error (unknownPosition id))
    | some (symbol, p) =>
      let p := p.withExit kind price now
      ({ l with positions := l.positions.insert symbol p }.emit (.position .modified p none), .ok p)

/-! ## Price updates -/

/-- A crossed exit that a mark has found. -/
structure Trigger where
  positionId : Nat
  symbol : String
  kind : TriggerKind
  price : Decimal
  deriving DecidableEq

/-- The first step of a price update: records the price, marks the symbol's position and reports
the exit that the price has crossed. -/
def recordPrice (l : Ledger) (symbol : String) (price : Decimal) (now : Instant) :
    Calc (Ledger × Outcome (Option Trigger)) := do
  if price ≤ 0 then
    return (l, .error (.invalidInput s!"price for {symbol} must be positive, got {price}"))
  else
    let l := { l with prices := l.prices.insert symbol price }
    match l.positions.get? symbol with
    | none => return (l, .ok none)
    | some p =>
      let p ← p.mark price now
      let trigger := (p.triggerAt price).map fun kind => ⟨p.id, symbol, kind, price⟩
      return ({ l with positions := l.positions.insert symbol p }, .ok trigger)

/-- The request that closes a position whose exit was crossed. -/
def exitRequest (p : Position) (kind : TriggerKind) : OrderRequest :=
  { p.closing with clientId := some s!"{kind.name}:{p.id}" }

/-- Closes the trigger's position in the book at the latest price, without slippage, if it is still
open and that price still crosses an exit. -/
def closeCrossed (l : Ledger) (trigger : Trigger) (now : Instant) :
    Calc (Ledger × Outcome (Option Execution)) := do
  match l.positions.get? trigger.symbol with
  | none => return (l, .ok none)
  | some p =>
    if p.id ≠ trigger.positionId then return (l, .ok none)
    else
      let price := (l.lastPrice? trigger.symbol).getD trigger.price
      match p.triggerAt price with
      | none => return (l, .ok none)
      | some kind =>
        let l := l.emit (.exitTriggered trigger.positionId trigger.symbol kind price)
        let (l, outcome) ← l.fill (exitRequest p kind) price now
        return (l, outcome.map some)

/-- The second step of a price update: closes the position whose exit the first step has found
crossed. -/
def executeTrigger (l : Ledger) (trigger : Trigger) (now : Instant) :
    Calc (Ledger × Outcome (Option Execution)) := do
  let (l, outcome) ← l.closeCrossed trigger now
  return (l.count outcome.toOption.join, outcome)

/-- Records a price and closes the symbol's position if the price crosses an exit. -/
def updatePrice (l : Ledger) (symbol : String) (price : Decimal) (now : Instant) :
    Calc (Ledger × Outcome (Option Execution)) := do
  match ← l.recordPrice symbol price now with
  | (l, .error e) => return (l, .error e)
  | (l, .ok none) => return (l, .ok none)
  | (l, .ok (some trigger)) => l.executeTrigger trigger now

/-! ## Runs -/

/-- A call that may change the account. -/
inductive Operation where
  | place (request : OrderRequest) (now : Instant)
  | close (id : Nat) (now : Instant)
  | cancel (id : Uuid)
  | setExit (id : Nat) (kind : TriggerKind) (price : Decimal) (now : Instant)
  | updatePrice (symbol : String) (price : Decimal) (timestamp : Instant)

/-- What an operation answers. -/
inductive Answer where
  | execution (outcome : Outcome Execution)
  | order (outcome : Outcome Order)
  | position (outcome : Outcome Position)
  | update (outcome : Outcome (Option Execution))

/-- Carries out one operation. -/
def step (l : Ledger) : Operation → Calc (Ledger × Answer)
  | .place request now => do
    let (l, outcome) ← l.place request now
    return (l, .execution outcome)
  | .close id now => do
    let (l, outcome) ← l.close id now
    return (l, .execution outcome)
  | .cancel id =>
    let (l, outcome) := l.cancel id
    .ok (l, .order outcome)
  | .setExit id kind price now =>
    let (l, outcome) := l.setExit id kind price now
    .ok (l, .position outcome)
  | .updatePrice symbol price timestamp => do
    let (l, outcome) ← l.updatePrice symbol price timestamp
    return (l, .update outcome)

/-- Carries out a list of operations in order. -/
def run (l : Ledger) (ops : List Operation) : Calc Ledger :=
  ops.foldlM (fun l op => do return (← l.step op).1) l

end Ledger

end SimBroker
