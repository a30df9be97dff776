import SimBroker.Side

/-!
# Signals

A strategy's proposal to enter a position, and the distances that say what it risks and what it may
gain.
-/

namespace SimBroker

open Json (Codec encode record)
open Json.Fields (field fieldD)

/-- A proposal to enter a position. -/
structure Signal where
  symbol : String
  direction : Direction
  entryPrice : Decimal
  stopLoss : Decimal
  takeProfit : Decimal
  /-- The strategy that makes the proposal. -/
  strategyTag : String
  /-- The conviction, from 0 to 1. -/
  strength : Decimal
  /-- The average true range, if the strategy measured it. -/
  atr : Option Decimal
  timestamp : Instant
  deriving DecidableEq

namespace Signal

/-- The members of a signal in JSON. -/
def members (s : Signal) : List (String × Json) :=
  [("symbol", encode s.symbol), ("direction", encode s.direction),
    ("entry_price", encode s.entryPrice), ("stop_loss", encode s.stopLoss),
    ("take_profit", encode s.takeProfit), ("strategy_tag", encode s.strategyTag),
    ("strength", encode s.strength), ("atr", encode s.atr), ("timestamp", encode s.timestamp)]

/-- Reads the fields of a signal. -/
def read : Json.Fields.Reader Signal := do
  let symbol ← field "symbol"
  let direction ← field "direction"
  let entryPrice ← field "entry_price"
  let stopLoss ← field "stop_loss"
  let takeProfit ← field "take_profit"
  let strategyTag ← field "strategy_tag"
  let strength ← field "strength"
  let atr ← fieldD "atr" none
  let timestamp ← field "timestamp"
  return ⟨symbol, direction, entryPrice, stopLoss, takeProfit, strategyTag, strength, atr,
    timestamp⟩

instance : Codec Signal where
  encode s := .obj s.members
  read? := record read

/-- The distance from the entry to the stop, positive if the stop is on the losing side. -/
def riskDistance (s : Signal) : Calc Decimal := do
  (← s.entryPrice.sub s.stopLoss).mul s.direction.sign

/-- The distance from the entry to the target, positive if the target is on the winning side. -/
def rewardDistance (s : Signal) : Calc Decimal := do
  (← s.takeProfit.sub s.entryPrice).mul s.direction.sign

/-- What may be gained for what is risked; none if the stop is not on the losing side. -/
def riskReward (s : Signal) : Calc (Option Decimal) := do
  let risk ← s.riskDistance
  if risk ≤ 0 then return none
  else return some (← (← s.rewardDistance).div risk)

end Signal

end SimBroker
