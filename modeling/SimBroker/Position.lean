import SimBroker.Trade

/-!
# Positions

An open position of one symbol: its average entry, its mark at the latest price and its protective
exits.  The operations say how a trade changes it: `opened`, `increased` and `reduced`.
-/

namespace SimBroker

open Json (Codec encode name? record)
open Json.Fields (field optional)

/-- An exit of a position. -/
inductive TriggerKind where
  | stopLoss
  | takeProfit
  deriving DecidableEq

namespace TriggerKind

/-- The name of an exit. -/
def name : TriggerKind → String
  | stopLoss => "stop_loss"
  | takeProfit => "take_profit"

instance : Codec TriggerKind where
  encode k := .str k.name
  read? := name? [("stop_loss", stopLoss), ("take_profit", takeProfit)]

end TriggerKind

/-- An open position. -/
structure Position where
  id : Nat
  symbol : String
  side : PositionSide
  quantity : Decimal
  /-- The average entry price, weighted by quantity. -/
  entryPrice : Decimal
  currentPrice : Decimal
  stopLoss : Option Decimal
  takeProfit : Option Decimal
  realizedPnl : Decimal
  unrealizedPnl : Decimal
  /-- The unrealized profit in percent of the entry value. -/
  unrealizedPnlPct : Decimal
  strategyTag : String
  openTime : Instant
  updatedAt : Instant
  /-- The orders that traded in the position. -/
  orderIds : List Uuid
  deriving DecidableEq

namespace Position

/-- Reads the fields of a position. -/
def read : Json.Fields.Reader Position := do
  let id ← field "id"
  let symbol ← field "symbol"
  let side ← field "side"
  let quantity ← field "quantity"
  let entryPrice ← field "entry_price"
  let currentPrice ← field "current_price"
  let stopLoss ← optional "stop_loss"
  let takeProfit ← optional "take_profit"
  let realizedPnl ← field "realized_pnl"
  let unrealizedPnl ← field "unrealized_pnl"
  let unrealizedPnlPct ← field "unrealized_pnl_pct"
  let strategyTag ← field "strategy_tag"
  let openTime ← field "open_time"
  let updatedAt ← field "updated_at"
  let orderIds ← field "order_ids"
  return ⟨id, symbol, side, quantity, entryPrice, currentPrice, stopLoss, takeProfit, realizedPnl,
    unrealizedPnl, unrealizedPnlPct, strategyTag, openTime, updatedAt, orderIds⟩

instance : Codec Position where
  encode p := .obj
    [("id", encode p.id), ("symbol", encode p.symbol), ("side", encode p.side),
      ("quantity", encode p.quantity), ("entry_price", encode p.entryPrice),
      ("current_price", encode p.currentPrice), ("stop_loss", encode p.stopLoss),
      ("take_profit", encode p.takeProfit), ("realized_pnl", encode p.realizedPnl),
      ("unrealized_pnl", encode p.unrealizedPnl),
      ("unrealized_pnl_pct", encode p.unrealizedPnlPct), ("strategy_tag", encode p.strategyTag),
      ("open_time", encode p.openTime), ("updated_at", encode p.updatedAt),
      ("order_ids", encode p.orderIds)]
  read? := record read

/-! ## Value -/

/-- The profit of `quantity` between the entry and a price. -/
def gain (p : Position) (price quantity : Decimal) : Calc Decimal := do
  (← (← price.sub p.entryPrice).mul quantity).mul p.side.sign

/-- The profit of the whole position at a price. -/
def pnlAt (p : Position) (price : Decimal) : Calc Decimal := p.gain price p.quantity

/-- The entry value, negative for a short position. -/
def signedCostBasis (p : Position) : Calc Decimal := do
  (← p.entryPrice.mul p.quantity).mul p.side.sign

/-- A profit in percent of an entry value; zero if that is zero. -/
def percentOf (pnl basis : Decimal) : Calc Decimal := do
  if basis.isZero then return 0 else (← pnl.div basis).mul .hundred

/-- The position marked at a price. -/
def mark (p : Position) (price : Decimal) (now : Instant) : Calc Position := do
  let pnl ← p.pnlAt price
  let basis ← p.entryPrice.mul p.quantity
  let pct ← percentOf pnl basis
  return { p with
    currentPrice := price, unrealizedPnl := pnl, unrealizedPnlPct := pct, updatedAt := now }

/-! ## Exits -/

/-- The exit that a price has crossed, the stop loss first. -/
def triggerAt (p : Position) (price : Decimal) : Option TriggerKind :=
  let reached (a b : Decimal) : Bool :=
    match p.side with
    | .long => decide (a ≤ b)
    | .short => decide (b ≤ a)
  if p.stopLoss.any fun s => reached price s then some .stopLoss
  else if p.takeProfit.any fun t => reached t price then some .takeProfit
  else none

/-- The position with an exit moved. -/
def withExit (p : Position) (kind : TriggerKind) (price : Decimal) (now : Instant) : Position :=
  match kind with
  | .stopLoss => { p with stopLoss := some price, updatedAt := now }
  | .takeProfit => { p with takeProfit := some price, updatedAt := now }

/-! ## Trades in a position -/

/-- The position that an order opens. -/
def opened (id : Nat) (order : Order) (request : OrderRequest) (quantity price : Decimal)
    (now : Instant) : Position where
  id
  symbol := order.symbol
  side := .ofOrderSide order.side
  quantity
  entryPrice := price
  currentPrice := price
  stopLoss := request.stopLoss
  takeProfit := request.takeProfit
  realizedPnl := 0
  unrealizedPnl := 0
  unrealizedPnlPct := 0
  strategyTag := order.strategyTag
  openTime := now
  updatedAt := now
  orderIds := [order.id]

/-- The position with more of it bought or sold: the entry becomes the weighted average, and exits
that the request names replace the old ones. -/
def increased (p : Position) (orderId : Uuid) (request : OrderRequest) (quantity price : Decimal)
    (now : Instant) : Calc Position := do
  let total ← p.quantity.add quantity
  let entry ← (← (← p.entryPrice.mul p.quantity).add (← price.mul quantity)).div total
  { p with
    entryPrice := entry
    quantity := total
    stopLoss := request.stopLoss <|> p.stopLoss
    takeProfit := request.takeProfit <|> p.takeProfit
    orderIds := p.orderIds ++ [orderId] }.mark price now

/-- The position with some of it given back, and the profit that this realizes. -/
def reduced (p : Position) (orderId : Uuid) (quantity price : Decimal) (now : Instant) :
    Calc (Position × Decimal) := do
  let realized ← p.gain price quantity
  let rest ← p.quantity.sub quantity
  let total ← p.realizedPnl.add realized
  let p ← { p with
    quantity := rest, realizedPnl := total, orderIds := p.orderIds ++ [orderId] }.mark price now
  return (p, realized)

/-- The order that gives back the whole position at the market. -/
def closing (p : Position) : OrderRequest :=
  { OrderRequest.market p.symbol p.side.entrySide.opposite p.quantity with
    strategyTag := p.strategyTag }

end Position

end SimBroker
