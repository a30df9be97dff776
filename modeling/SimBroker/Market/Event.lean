import SimBroker.Signal

/-!
# Market events

What a feed delivers: a price, a closed candle or a signal.
-/

namespace SimBroker

open Json (Codec encode record tagged)
open Json.Fields (field)

/-- A reference price. -/
structure PriceTick where
  symbol : String
  price : Decimal
  timestamp : Instant
  deriving DecidableEq

namespace PriceTick

/-- The members of a price in JSON. -/
def members (t : PriceTick) : List (String × Json) :=
  [("symbol", encode t.symbol), ("price", encode t.price), ("timestamp", encode t.timestamp)]

/-- Reads the fields of a price. -/
def read : Json.Fields.Reader PriceTick := do
  let symbol ← field "symbol"
  let price ← field "price"
  let timestamp ← field "timestamp"
  return ⟨symbol, price, timestamp⟩

instance : Codec PriceTick where
  encode t := .obj t.members
  read? := record read

end PriceTick

/-- A closed candle. -/
structure Candle where
  symbol : String
  interval : String
  opening : Decimal
  high : Decimal
  low : Decimal
  closing : Decimal
  volume : Decimal
  openTime : Instant
  closeTime : Instant
  deriving DecidableEq

namespace Candle

/-- The members of a candle in JSON. -/
def members (c : Candle) : List (String × Json) :=
  [("symbol", encode c.symbol), ("interval", encode c.interval), ("open", encode c.opening),
    ("high", encode c.high), ("low", encode c.low), ("close", encode c.closing),
    ("volume", encode c.volume), ("open_time", encode c.openTime),
    ("close_time", encode c.closeTime)]

/-- Reads the fields of a candle. -/
def read : Json.Fields.Reader Candle := do
  let symbol ← field "symbol"
  let interval ← field "interval"
  let opening ← field "open"
  let high ← field "high"
  let low ← field "low"
  let closing ← field "close"
  let volume ← field "volume"
  let openTime ← field "open_time"
  let closeTime ← field "close_time"
  return ⟨symbol, interval, opening, high, low, closing, volume, openTime, closeTime⟩

/-- The closing price. -/
def tick (c : Candle) : PriceTick := ⟨c.symbol, c.closing, c.closeTime⟩

instance : Codec Candle where
  encode c := .obj c.members
  read? := record read

end Candle

/-- An event of the market or of a strategy. -/
inductive MarketEvent where
  | price (tick : PriceTick)
  | candle (candle : Candle)
  | signal (signal : Signal)
  deriving DecidableEq

instance : Codec MarketEvent where
  encode
    | .price t => .obj (("kind", .str "price") :: t.members)
    | .candle c => .obj (("kind", .str "candle") :: c.members)
    | .signal s => .obj (("kind", .str "signal") :: s.members)
  read? := tagged "kind"
    [("price", do return .price (← PriceTick.read)),
      ("candle", do return .candle (← Candle.read)),
      ("signal", do return .signal (← Signal.read))]

end SimBroker
