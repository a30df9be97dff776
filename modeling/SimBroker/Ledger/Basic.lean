import SimBroker.Ledger.Report
import SimBroker.Settings
import SimBroker.Table
import SimBroker.Tally

/-!
# The ledger

The book of one simulated account: its balance, the reference prices, the open positions by symbol,
and every order and trade.  Orders are filled at once and in full.  `summary` values the account:
`equity` is the free balance plus the entry value and the unrealized profit of what is held.
-/

namespace SimBroker

/-- The book of an account. -/
structure Ledger where
  account : AccountSettings
  freeBalance : Decimal
  /-- The latest reference price of each symbol. -/
  prices : Table String Decimal := ∅
  /-- The open positions by symbol. -/
  positions : Table String Position := ∅
  /-- The orders accepted, in that order. -/
  orders : List Order := []
  /-- The trades made, in that order. -/
  trades : List Trade := []
  nextPositionId : Nat := 1
  /-- The id of the next order or trade. -/
  nextId : Uuid
  realizedPnl : Decimal := 0
  totalCommission : Decimal := 0
  /-- The events not yet taken, if anyone listens. -/
  events : Option (List LedgerEvent) := none
  /-- How many orders were filled on each side. -/
  fills : Tally OrderSide := {}

namespace Ledger

/-- A new account.  Ids of orders and trades count from `firstId`. -/
def new (account : AccountSettings) (firstId : Uuid) (listened : Bool) : Ledger where
  account
  freeBalance := account.initialBalance
  nextId := firstId
  events := if listened then some [] else none

/-- Tells the listener of an event. -/
def emit (l : Ledger) (event : LedgerEvent) : Ledger :=
  { l with events := l.events.map (· ++ [event]) }

/-- Takes the events not yet taken. -/
def takeEvents (l : Ledger) : List LedgerEvent × Ledger :=
  (l.events.getD [], { l with events := l.events.map fun _ => [] })

/-! ## Queries -/

/-- The free balance of an asset; all of it is in the quote asset. -/
def balance (l : Ledger) (asset : String) : Decimal :=
  if asset = l.account.quoteAsset then l.freeBalance else 0

/-- The latest reference price of a symbol. -/
def lastPrice? (l : Ledger) (symbol : String) : Option Decimal := l.prices.get? symbol

/-- The open position with an id. -/
def position? (l : Ledger) (id : Nat) : Option Position :=
  l.positions.values.find? fun p => p.id = id

/-- The open positions by id. -/
def positionList (l : Ledger) : List Position :=
  l.positions.values.mergeSort fun p q => decide (p.id ≤ q.id)

/-- The orders by the time of their creation.  Orders that were created at one time may stand in any
order. -/
def orderList (l : Ledger) : List Order :=
  l.orders.mergeSort fun a b => decide (a.createdAt ≤ b.createdAt)

/-- The orders that may still be filled or canceled. -/
def openOrders (l : Ledger) : List Order := l.orderList.filter (·.status.isActive)

/-- The last trades, at most `limit` of them if there is a limit, oldest first. -/
def tradeList (l : Ledger) (limit : Option Nat) : List Trade :=
  match limit with
  | some n => l.trades.drop (l.trades.length - n)
  | none => l.trades

/-! ## Valuation -/

/-- The unrealized profit of all positions. -/
def unrealizedPnl (l : Ledger) : Calc Decimal :=
  Decimal.total (l.positions.values.map Position.unrealizedPnl)

/-- The entry value of all positions, that of short ones taken away. -/
def costBasis (l : Ledger) : Calc Decimal :=
  l.positions.values.foldlM (fun sum p => do sum.add (← p.signedCostBasis)) 0

/-- The free balance, plus the entry value and the unrealized profit of the positions. -/
def equity (l : Ledger) : Calc Decimal := do
  let basis ← l.costBasis
  let unrealized ← l.unrealizedPnl
  (← l.freeBalance.add basis).add unrealized

/-- The summary of the account. -/
def summary (l : Ledger) (now : Instant) : Calc AccountSummary := do
  let equity ← l.equity
  let unrealizedPnl ← l.unrealizedPnl
  return {
    quoteAsset := l.account.quoteAsset
    initialBalance := l.account.initialBalance
    freeBalance := l.freeBalance
    equity
    unrealizedPnl
    realizedPnl := l.realizedPnl
    totalCommission := l.totalCommission
    openPositions := l.positions.size
    openOrders := (l.orders.filter (·.status.isActive)).length
    totalTrades := l.trades.length
    openSymbols := l.positions.keys.mergeSort fun a b => decide (a ≤ b)
    timestamp := now }

/-- What is wrong with the book, if anything: a position without quantity or under another symbol,
or a negative balance. -/
def violation? (l : Ledger) : Option String :=
  let wrong? (e : String × Position) : Option String :=
    if e.2.quantity ≤ 0 then
      some s!"position {e.2.id} on {e.1} has quantity {e.2.quantity}"
    else if e.2.symbol ≠ e.1 then
      some s!"position {e.2.id} keyed under {e.1} but belongs to {e.2.symbol}"
    else none
  match l.positions.entries.findSome? wrong? with
  | some message => some message
  | none =>
    if l.freeBalance < 0 then some s!"free balance went negative: {l.freeBalance}" else none

end Ledger

end SimBroker
