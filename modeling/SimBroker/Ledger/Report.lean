import SimBroker.Position

/-!
# What the ledger reports

The result of a filled order, the summary of an account, and the events that tell a listener what
has changed.
-/

namespace SimBroker

open Json (Codec encode name? record tagged)
open Json.Fields (field optional)

/-- The result of a filled order. -/
structure Execution where
  order : Order
  /-- One trade, or two if the order closed a position and opened another. -/
  trades : List Trade
  /-- The position of the symbol after the fill. -/
  position : Option Position
  deriving DecidableEq

namespace Execution

instance : Codec Execution where
  encode e := .obj
    [("order", encode e.order), ("trades", encode e.trades), ("position", encode e.position)]
  read? := record do
    let order ← field "order"
    let trades ← field "trades"
    let position ← optional "position"
    return ⟨order, trades, position⟩

/-- The gross profit that the fill realized. -/
def realizedPnl (e : Execution) : Calc Decimal :=
  Decimal.total (e.trades.map Trade.realizedPnl)

end Execution

/-- The state of an account in a few numbers. -/
structure AccountSummary where
  quoteAsset : String
  initialBalance : Decimal
  freeBalance : Decimal
  equity : Decimal
  unrealizedPnl : Decimal
  realizedPnl : Decimal
  totalCommission : Decimal
  openPositions : Nat
  openOrders : Nat
  totalTrades : Nat
  /-- The symbols with a position, in order. -/
  openSymbols : List String
  timestamp : Instant
  deriving DecidableEq

namespace AccountSummary

/-- Reads the fields of a summary. -/
def read : Json.Fields.Reader AccountSummary := do
  let quoteAsset ← field "quote_asset"
  let initialBalance ← field "initial_balance"
  let freeBalance ← field "free_balance"
  let equity ← field "equity"
  let unrealizedPnl ← field "unrealized_pnl"
  let realizedPnl ← field "realized_pnl"
  let totalCommission ← field "total_commission"
  let openPositions ← field "open_positions"
  let openOrders ← field "open_orders"
  let totalTrades ← field "total_trades"
  let openSymbols ← field "open_symbols"
  let timestamp ← field "timestamp"
  return ⟨quoteAsset, initialBalance, freeBalance, equity, unrealizedPnl, realizedPnl,
    totalCommission, openPositions, openOrders, totalTrades, openSymbols, timestamp⟩

instance : Codec AccountSummary where
  encode a := .obj
    [("quote_asset", encode a.quoteAsset), ("initial_balance", encode a.initialBalance),
      ("free_balance", encode a.freeBalance), ("equity", encode a.equity),
      ("unrealized_pnl", encode a.unrealizedPnl), ("realized_pnl", encode a.realizedPnl),
      ("total_commission", encode a.totalCommission),
      ("open_positions", encode a.openPositions), ("open_orders", encode a.openOrders),
      ("total_trades", encode a.totalTrades), ("open_symbols", encode a.openSymbols),
      ("timestamp", encode a.timestamp)]
  read? := record read

/-- Whether the symbol has a position. -/
def hasPosition (a : AccountSummary) (symbol : String) : Bool := a.openSymbols.contains symbol

end AccountSummary

/-- How a position has changed. -/
inductive PositionChange where
  | opened
  | increased
  | reduced
  | closed
  /-- An exit was moved. -/
  | modified
  deriving DecidableEq

namespace PositionChange

/-- The name of a change. -/
def name : PositionChange → String
  | opened => "opened"
  | increased => "increased"
  | reduced => "reduced"
  | closed => "closed"
  | modified => "modified"

instance : Codec PositionChange where
  encode c := .str c.name
  read? := name? ([opened, increased, reduced, closed, modified].map fun c => (c.name, c))

/-- Whether the change realizes a profit or a loss. -/
def realizesPnl : PositionChange → Bool
  | reduced | closed => true
  | _ => false

end PositionChange

/-- An event of the ledger. -/
inductive LedgerEvent where
  | orderFilled (order : Order)
  | orderCanceled (order : Order)
  /-- A position changed, by a trade if a fill caused it. -/
  | position (change : PositionChange) (position : Position) (trade : Option Trade)
  /-- An exit was crossed and the position is being closed. -/
  | exitTriggered (positionId : Nat) (symbol : String) (kind : TriggerKind) (price : Decimal)
  deriving DecidableEq

instance : Codec LedgerEvent where
  encode
    | .orderFilled o => .obj [("event", .str "order_filled"), ("order", encode o)]
    | .orderCanceled o => .obj [("event", .str "order_canceled"), ("order", encode o)]
    | .position c p t => .obj
      [("event", .str "position"), ("kind", encode c), ("position", encode p), ("trade", encode t)]
    | .exitTriggered id s k p => .obj
      [("event", .str "exit_triggered"), ("position_id", encode id), ("symbol", encode s),
        ("kind", encode k), ("price", encode p)]
  read? := tagged "event"
    [("order_filled", do return .orderFilled (← field "order")),
      ("order_canceled", do return .orderCanceled (← field "order")),
      ("position", do
        let change ← field "kind"
        let position ← field "position"
        let trade ← optional "trade"
        return .position change position trade),
      ("exit_triggered", do
        let positionId ← field "position_id"
        let symbol ← field "symbol"
        let kind ← field "kind"
        let price ← field "price"
        return .exitTriggered positionId symbol kind price)]

end SimBroker
