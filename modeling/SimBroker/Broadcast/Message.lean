import SimBroker.Market.Event
import SimBroker.Session.Report

/-!
# Messages to subscribers

What is broadcast: a payload and the time at which it was published.
-/

namespace SimBroker

open Json (Codec encode decode? read?)
open Json.Fields (field)

/-- A change of a position. -/
structure PositionUpdate where
  change : PositionChange
  position : Position
  deriving DecidableEq

instance : Codec PositionUpdate where
  encode u := .obj [("kind", encode u.change), ("position", encode u.position)]
  read? := Json.object do
    let change ← field "kind"
    let position ← field "position"
    return ⟨change, position⟩

/-- The values of indicators for a symbol, in the order of their names. -/
structure IndicatorSnapshot where
  symbol : String
  values : List (String × Decimal)
  deriving DecidableEq

/-- The names in order, each with the last value given to it. -/
def sortedByName {α : Type} (values : List (String × α)) : List (String × α) :=
  let last := values.foldr (fun e es => if es.any (·.1 = e.1) then es else e :: es) []
  last.mergeSort fun a b => decide (a.1 ≤ b.1)

/-- Reads values by name. -/
def readValues? : Json.Place → Json → Option (List (String × Decimal))
  | place, .obj members => do
    return sortedByName (← members.mapM fun m => do return (m.1, ← read? place m.2))
  | _, _ => none

instance : Codec IndicatorSnapshot where
  encode s := .obj
    [("symbol", encode s.symbol),
      ("values", .obj (s.values.map fun v => (v.1, encode v.2)))]
  read? := Json.object do
    let symbol ← field "symbol"
    let values ← Json.Fields.fieldBy readValues? "values"
    return ⟨symbol, values⟩

/-- The content of a message. -/
inductive Payload where
  | state (state : TradingState)
  | candle (candle : Candle)
  | signal (entry : SignalRecord)
  | trade (trade : Trade)
  | position (update : PositionUpdate)
  | risk (event : RiskEvent)
  | indicators (snapshot : IndicatorSnapshot)
  | price (tick : PriceTick)
  | error (entry : ErrorRecord)
  deriving DecidableEq

namespace Payload

/-- The name of the kind of content. -/
def kind : Payload → String
  | state _ => "state"
  | candle _ => "candle"
  | signal _ => "signal"
  | trade _ => "trade"
  | position _ => "position"
  | risk _ => "risk"
  | indicators _ => "indicators"
  | price _ => "price"
  | error _ => "error"

/-- The content in JSON. -/
def data : Payload → Json
  | state s => encode s
  | candle c => encode c
  | signal r => encode r
  | trade t => encode t
  | position u => encode u
  | risk e => encode e
  | indicators s => encode s
  | price t => encode t
  | error r => encode r

/-- How the content of each kind is read. -/
def readers : List (String × (Json → Option Payload)) :=
  [("state", fun j => (decode? j).map state), ("candle", fun j => (decode? j).map candle),
    ("signal", fun j => (decode? j).map signal), ("trade", fun j => (decode? j).map trade),
    ("position", fun j => (decode? j).map position), ("risk", fun j => (decode? j).map risk),
    ("indicators", fun j => (decode? j).map indicators),
    ("price", fun j => (decode? j).map price), ("error", fun j => (decode? j).map error)]

end Payload

/-- A message. -/
structure Message where
  payload : Payload
  timestamp : Instant
  deriving DecidableEq

namespace Message

/-- The message in JSON. -/
def toJson (m : Message) : Json :=
  .obj [("type", .str m.payload.kind), ("data", m.payload.data), ("timestamp", encode m.timestamp)]

end Message

end SimBroker
