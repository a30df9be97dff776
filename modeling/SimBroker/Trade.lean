import SimBroker.Order

/-!
# Trades

The record of one execution.  An order makes one trade, or two if it closes a position and opens
another.
-/

namespace SimBroker

open Json (Codec encode record)
open Json.Fields (field optional)

/-- One execution. -/
structure Trade where
  id : Uuid
  orderId : Uuid
  positionId : Option Nat
  symbol : String
  side : OrderSide
  quantity : Decimal
  price : Decimal
  commission : Decimal
  /-- The gross profit that the execution realizes; zero for an entry. -/
  realizedPnl : Decimal
  strategyTag : String
  executedAt : Instant
  deriving DecidableEq

namespace Trade

/-- Reads the fields of a trade. -/
def read : Json.Fields.Reader Trade := do
  let id ← field "id"
  let orderId ← field "order_id"
  let positionId ← optional "position_id"
  let symbol ← field "symbol"
  let side ← field "side"
  let quantity ← field "quantity"
  let price ← field "price"
  let commission ← field "commission"
  let realizedPnl ← field "realized_pnl"
  let strategyTag ← field "strategy_tag"
  let executedAt ← field "executed_at"
  return ⟨id, orderId, positionId, symbol, side, quantity, price, commission, realizedPnl,
    strategyTag, executedAt⟩

instance : Codec Trade where
  encode t := .obj
    [("id", encode t.id), ("order_id", encode t.orderId), ("position_id", encode t.positionId),
      ("symbol", encode t.symbol), ("side", encode t.side), ("quantity", encode t.quantity),
      ("price", encode t.price), ("commission", encode t.commission),
      ("realized_pnl", encode t.realizedPnl), ("strategy_tag", encode t.strategyTag),
      ("executed_at", encode t.executedAt)]
  read? := record read

end Trade

/-- The trade that an order makes in a position. -/
def Order.trade (o : Order) (id : Uuid) (positionId : Nat)
    (quantity price commission realizedPnl : Decimal) (now : Instant) : Trade where
  id
  orderId := o.id
  positionId := some positionId
  symbol := o.symbol
  side := o.side
  quantity
  price
  commission
  realizedPnl
  strategyTag := o.strategyTag
  executedAt := now

end SimBroker
