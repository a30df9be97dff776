import SimBroker.Side
import SimBroker.TradingError

/-!
# Orders

What a caller asks for, when a request makes sense, and the order that the ledger makes of it.
-/

namespace SimBroker

open Json (Codec encode name? record)
open Json.Fields (field fieldD optional)

/-- How the price of an order is found. -/
inductive OrderType where
  /-- The reference price, made worse by slippage. -/
  | market
  /-- The limit price. -/
  | limit
  deriving DecidableEq

/-- Where an order stands. -/
inductive OrderStatus where
  | pending
  | open
  | filled
  | canceled
  | rejected
  deriving DecidableEq

namespace OrderType

/-- The name of a type. -/
def name : OrderType → String
  | market => "market"
  | limit => "limit"

instance : Codec OrderType where
  encode t := .str t.name
  read? := name? [("market", market), ("limit", limit)]

end OrderType

namespace OrderStatus

/-- The name of a status. -/
def name : OrderStatus → String
  | pending => "pending"
  | .open => "open"
  | filled => "filled"
  | canceled => "canceled"
  | rejected => "rejected"

/-- The name of a status, with a capital. -/
def title : OrderStatus → String
  | pending => "Pending"
  | .open => "Open"
  | filled => "Filled"
  | canceled => "Canceled"
  | rejected => "Rejected"

instance : Codec OrderStatus where
  encode s := .str s.name
  read? := name? ([pending, .open, filled, canceled, rejected].map fun s => (s.name, s))

/-- Whether an order may still be filled or canceled. -/
def isActive : OrderStatus → Bool
  | pending | .open => true
  | _ => false

end OrderStatus

/-- What a caller asks for. -/
structure OrderRequest where
  symbol : String
  side : OrderSide
  orderType : OrderType
  quantity : Decimal
  limitPrice : Option Decimal := none
  stopLoss : Option Decimal := none
  takeProfit : Option Decimal := none
  strategyTag : String := ""
  /-- The caller's own reference. -/
  clientId : Option String := none
  deriving DecidableEq

namespace OrderRequest

/-- Reads the fields of a request. -/
def read : Json.Fields.Reader OrderRequest := do
  let symbol ← field "symbol"
  let side ← field "side"
  let orderType ← field "order_type"
  let quantity ← field "quantity"
  let limitPrice ← fieldD "limit_price" none
  let stopLoss ← fieldD "stop_loss" none
  let takeProfit ← fieldD "take_profit" none
  let strategyTag ← fieldD "strategy_tag" ""
  let clientId ← fieldD "client_id" none
  return ⟨symbol, side, orderType, quantity, limitPrice, stopLoss, takeProfit, strategyTag,
    clientId⟩

instance : Codec OrderRequest where
  encode r := .obj
    [("symbol", encode r.symbol), ("side", encode r.side), ("order_type", encode r.orderType),
      ("quantity", encode r.quantity), ("limit_price", encode r.limitPrice),
      ("stop_loss", encode r.stopLoss), ("take_profit", encode r.takeProfit),
      ("strategy_tag", encode r.strategyTag), ("client_id", encode r.clientId)]
  read? := record read

/-- An order at the market. -/
def market (symbol : String) (side : OrderSide) (quantity : Decimal) : OrderRequest :=
  { symbol, side, orderType := .market, quantity }

/-- Whether a price, if given, is positive. -/
def isPositiveOrAbsent : Option Decimal → Bool
  | some p => decide (0 < p)
  | none => true

/-- The first reason why a request makes no sense, if any. -/
def fault? (r : OrderRequest) : Option TradingError :=
  if (trimmed r.symbol).isEmpty then some (.invalidInput "symbol is empty")
  else if r.quantity ≤ 0 then
    some (.invalidInput s!"quantity must be positive, got {r.quantity}")
  else if r.orderType = .limit ∧ !(r.limitPrice.any fun p => decide (0 < p)) then
    some (.invalidInput "limit order requires a positive limit price")
  else if !isPositiveOrAbsent r.stopLoss then some (.invalidInput "stop_loss must be positive")
  else if !isPositiveOrAbsent r.takeProfit then some (.invalidInput "take_profit must be positive")
  else none

end OrderRequest

/-- An order of the ledger. -/
structure Order where
  id : Uuid
  clientId : Option String
  symbol : String
  side : OrderSide
  orderType : OrderType
  quantity : Decimal
  limitPrice : Option Decimal
  strategyTag : String
  status : OrderStatus
  filledQuantity : Decimal
  avgFillPrice : Decimal
  commission : Decimal
  createdAt : Instant
  filledAt : Option Instant
  deriving DecidableEq

namespace Order

/-- Reads the fields of an order. -/
def read : Json.Fields.Reader Order := do
  let id ← field "id"
  let clientId ← optional "client_id"
  let symbol ← field "symbol"
  let side ← field "side"
  let orderType ← field "order_type"
  let quantity ← field "quantity"
  let limitPrice ← optional "limit_price"
  let strategyTag ← field "strategy_tag"
  let status ← field "status"
  let filledQuantity ← field "filled_quantity"
  let avgFillPrice ← field "avg_fill_price"
  let commission ← field "commission"
  let createdAt ← field "created_at"
  let filledAt ← optional "filled_at"
  return ⟨id, clientId, symbol, side, orderType, quantity, limitPrice, strategyTag, status,
    filledQuantity, avgFillPrice, commission, createdAt, filledAt⟩

instance : Codec Order where
  encode o := .obj
    [("id", encode o.id), ("client_id", encode o.clientId), ("symbol", encode o.symbol),
      ("side", encode o.side), ("order_type", encode o.orderType),
      ("quantity", encode o.quantity), ("limit_price", encode o.limitPrice),
      ("strategy_tag", encode o.strategyTag), ("status", encode o.status),
      ("filled_quantity", encode o.filledQuantity), ("avg_fill_price", encode o.avgFillPrice),
      ("commission", encode o.commission), ("created_at", encode o.createdAt),
      ("filled_at", encode o.filledAt)]
  read? := record read

/-- The order made of a request, not filled yet. -/
def ofRequest (id : Uuid) (r : OrderRequest) (now : Instant) : Order where
  id
  clientId := r.clientId
  symbol := r.symbol
  side := r.side
  orderType := r.orderType
  quantity := r.quantity
  limitPrice := r.limitPrice
  strategyTag := r.strategyTag
  status := .pending
  filledQuantity := 0
  avgFillPrice := 0
  commission := 0
  createdAt := now
  filledAt := none

/-- The order filled in full at a price. -/
def filled (o : Order) (price commission : Decimal) (now : Instant) : Order :=
  { o with
    status := .filled
    filledQuantity := o.quantity
    avgFillPrice := price
    commission
    filledAt := some now }

end Order

end SimBroker
