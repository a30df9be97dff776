import SimBroker.Json.Codec

/-!
# Sides

Which way a signal points, which way an order trades and which way a position is held.
-/

namespace SimBroker

open Json (Codec name?)

/-- The direction of a signal. -/
inductive Direction where
  | long
  | short
  deriving DecidableEq

/-- The side of an order. -/
inductive OrderSide where
  | buy
  | sell
  deriving DecidableEq

/-- The side of an open position. -/
inductive PositionSide where
  | long
  | short
  deriving DecidableEq

namespace Direction

/-- The name of a direction. -/
def name : Direction → String
  | long => "long"
  | short => "short"

instance : Codec Direction where
  encode d := .str d.name
  read? := name? [("long", long), ("short", short)]

/-- `1` for long, `-1` for short. -/
def sign : Direction → Decimal
  | long => 1
  | short => -1

end Direction

namespace OrderSide

/-- The name of a side. -/
def name : OrderSide → String
  | buy => "buy"
  | sell => "sell"

instance : Codec OrderSide where
  encode s := .str s.name
  read? := name? [("buy", buy), ("sell", sell)]

/-- The side that offsets this one. -/
def opposite : OrderSide → OrderSide
  | buy => sell
  | sell => buy

/-- The side that opens a position in a direction. -/
def entering : Direction → OrderSide
  | .long => buy
  | .short => sell

end OrderSide

namespace PositionSide

/-- The name of a side. -/
def name : PositionSide → String
  | long => "long"
  | short => "short"

instance : Codec PositionSide where
  encode s := .str s.name
  read? := name? [("long", long), ("short", short)]

/-- The side of a position that an order opens. -/
def ofOrderSide : OrderSide → PositionSide
  | .buy => long
  | .sell => short

/-- The side of the orders that increase a position. -/
def entrySide : PositionSide → OrderSide
  | long => .buy
  | short => .sell

/-- `1` for long, `-1` for short. -/
def sign : PositionSide → Decimal
  | long => 1
  | short => -1

end PositionSide

end SimBroker
