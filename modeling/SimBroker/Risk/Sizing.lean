import SimBroker.Settings
import SimBroker.Side

/-!
# Position sizes

How large a position may be.  A primary method proposes a size from the equity, the entry and the
stop; `applyLimits` cuts it to the caps of the settings, one after the other; the remaining
functions adjust a quantity.
-/

namespace SimBroker

open Json (Codec encode name? record)
open Json.Fields (field optional)

/-- A cap on the size of a position. -/
inductive SizeLimit where
  /-- The value as a fraction of equity. -/
  | positionSize
  /-- The value. -/
  | positionValue
  /-- What is lost at the stop. -/
  | riskPerTrade
  /-- The value as a multiple of equity. -/
  | leverage
  deriving DecidableEq

namespace SizeLimit

/-- The name of a cap. -/
def name : SizeLimit → String
  | positionSize => "position_size"
  | positionValue => "position_value"
  | riskPerTrade => "risk_per_trade"
  | leverage => "leverage"

instance : Codec SizeLimit where
  encode l := .str l.name
  read? := name? ([positionSize, positionValue, riskPerTrade, leverage].map fun l => (l.name, l))

end SizeLimit

/-- A proposed size and what follows from it. -/
structure Sizing where
  direction : Direction
  size : Decimal
  entryPrice : Decimal
  stopPrice : Decimal
  /-- The distance between entry and stop. -/
  stopDistance : Decimal
  /-- The size at the entry price. -/
  value : Decimal
  /-- What is lost at the stop. -/
  riskAmount : Decimal
  /-- The last cap that cut the size. -/
  limitedBy : Option SizeLimit
  deriving DecidableEq

namespace Sizing

instance : Codec Sizing where
  encode s := .obj
    [("direction", encode s.direction), ("size", encode s.size),
      ("entry_price", encode s.entryPrice), ("stop_price", encode s.stopPrice),
      ("stop_distance", encode s.stopDistance), ("value", encode s.value),
      ("risk_amount", encode s.riskAmount), ("limited_by", encode s.limitedBy)]
  read? := record do
    let direction ← field "direction"
    let size ← field "size"
    let entryPrice ← field "entry_price"
    let stopPrice ← field "stop_price"
    let stopDistance ← field "stop_distance"
    let value ← field "value"
    let riskAmount ← field "risk_amount"
    let limitedBy ← optional "limited_by"
    return ⟨direction, size, entryPrice, stopPrice, stopDistance, value, riskAmount, limitedBy⟩

/-- The size zero between an entry and a stop. -/
def zero (direction : Direction) (entry stop : Decimal) : Calc Sizing := do
  let distance := (← entry.sub stop).abs
  let value ← Decimal.mul 0 entry
  let risk ← Decimal.mul 0 distance
  return ⟨direction, 0, entry, stop, distance, value, risk, none⟩

/-- The same trade with another size, zero if that is negative. -/
def withSize (s : Sizing) (size : Decimal) : Calc Sizing := do
  let size := size.max 0
  let value ← size.mul s.entryPrice
  let risk ← size.mul s.stopDistance
  return { s with size, value, riskAmount := risk }

/-- The same trade with its size cut by a cap. -/
def cut (s : Sizing) (size : Decimal) (limit : SizeLimit) : Calc Sizing := do
  return { ← s.withSize size with limitedBy := some limit }

end Sizing

namespace RiskSettings

/-! ## Primary methods -/

/-- The size that loses the allowed fraction of equity at the stop; zero if there is no equity or no
distance to the stop. -/
def sizeByRisk (limits : RiskSettings) (equity entry stop : Decimal) (direction : Direction) :
    Calc Sizing := do
  let zero ← Sizing.zero direction entry stop
  if equity ≤ 0 ∨ entry ≤ 0 ∨ zero.stopDistance ≤ 0 then return zero
  else
    let risk ← equity.mul limits.maxRiskPerTrade
    zero.withSize (← risk.div zero.stopDistance)

/-- The size by risk with the stop a multiple of the average true range away. -/
def sizeByAtr (limits : RiskSettings) (equity entry atr multiplier : Decimal)
    (direction : Direction) : Calc Sizing := do
  let offset ← atr.mul multiplier
  let stop ←
    match direction with
    | .long => entry.sub offset
    | .short => entry.add offset
  if offset ≤ 0 then Sizing.zero direction entry stop
  else limits.sizeByRisk equity entry stop direction

/-- The size that commits a fraction of equity at the entry. -/
def sizeByFraction (equity fraction entry stop : Decimal) (direction : Direction) :
    Calc Sizing := do
  let zero ← Sizing.zero direction entry stop
  if equity ≤ 0 ∨ entry ≤ 0 ∨ fraction ≤ 0 then return zero
  else zero.withSize (← (← equity.mul fraction).div entry)

/-! ## Caps -/

/-- Cuts the value to a fraction of equity. -/
def capPositionSize (limits : RiskSettings) (equity : Decimal) (s : Sizing) : Calc Sizing := do
  let most ← equity.mul limits.maxPositionSize
  if most < s.value then s.cut (← most.div s.entryPrice) .positionSize else return s

/-- Cuts the value. -/
def capPositionValue (limits : RiskSettings) (s : Sizing) : Calc Sizing := do
  if limits.maxPositionValue < s.value then
    s.cut (← limits.maxPositionValue.div s.entryPrice) .positionValue
  else return s

/-- Cuts what is lost at the stop to a fraction of equity. -/
def capRiskPerTrade (limits : RiskSettings) (equity : Decimal) (s : Sizing) : Calc Sizing := do
  let most ← equity.mul limits.maxRiskPerTrade
  if 0 < s.stopDistance ∧ most < s.riskAmount then
    s.cut (← most.div s.stopDistance) .riskPerTrade
  else return s

/-- Cuts the value to a multiple of equity. -/
def capLeverage (limits : RiskSettings) (equity : Decimal) (s : Sizing) : Calc Sizing := do
  let most ← equity.mul limits.maxLeverage
  if most < s.value then s.cut (← most.div s.entryPrice) .leverage else return s

/-- Cuts a size to all caps, each looking at what the one before has left.  A value exactly at a cap
is kept; without equity nothing is. -/
def applyLimits (limits : RiskSettings) (s : Sizing) (equity : Decimal) : Calc Sizing := do
  if equity ≤ 0 ∨ s.entryPrice ≤ 0 then s.withSize 0
  else
    let s ← limits.capPositionSize equity s
    let s ← limits.capPositionValue s
    let s ← limits.capRiskPerTrade equity s
    limits.capLeverage equity s

/-! ## Fractions of equity from past trades -/

/-- One half. -/
def half : Decimal := .lit 5 1

/-- Half the Kelly fraction `(p * b - q) / b` for the win rate `p` and the ratio `b` of the average
win to the average loss, within zero and the largest position size; zero without a loss or a win. -/
def kellyFraction (limits : RiskSettings) (winRate averageWin averageLoss : Decimal) :
    Calc Decimal := do
  let loss := averageLoss.abs
  if loss.isZero ∨ averageWin ≤ 0 then return 0
  else
    let p := (winRate.max 0).min 1
    let q ← Decimal.sub 1 p
    let b ← averageWin.div loss
    let kelly ← (← (← p.mul b).sub q).div b
    return ((← kelly.mul half).max 0).min limits.maxPositionSize

/-- The least element; of equal ones the first. -/
def least? : List Decimal → Option Decimal
  | [] => none
  | x :: xs => some (xs.foldl Decimal.min x)

/-- The greatest element; of equal ones the last. -/
def greatest? : List Decimal → Option Decimal
  | [] => none
  | x :: xs => some (xs.foldl (fun a b => if b < a then a else b) x)

/-- Half of the largest win over the largest loss, within zero and the largest position size; the
default fraction without a loss. -/
def optimalFraction (limits : RiskSettings) (pnls : List Decimal) : Calc Decimal := do
  match least? (pnls.filter fun p => decide (p < 0)) with
  | none => return limits.defaultFraction.min limits.maxPositionSize
  | some loss =>
    let win := (greatest? (pnls.filter fun p => decide (0 < p))).getD 0
    return ((← (← half.mul win).div loss.abs).max 0).min limits.maxPositionSize

/-- The Kelly fraction of a history of trades; the default fraction without a win or a loss. -/
def kellyOfHistory (limits : RiskSettings) (pnls : List Decimal) : Calc Decimal := do
  let wins := pnls.filter fun p => decide (0 < p)
  let losses := pnls.filter fun p => decide (p < 0)
  if wins.isEmpty ∨ losses.isEmpty then return limits.defaultFraction
  else
    let winRate ← (countOf wins).div (countOf pnls)
    let averageWin ← (← Decimal.total wins).div (countOf wins)
    let averageLoss ← (← Decimal.total losses).abs.div (countOf losses)
    limits.kellyFraction winRate averageWin averageLoss
where
  /-- The number of elements. -/
  countOf (xs : List Decimal) : Decimal := (Decimal.ofParts? false xs.length 0).getD 0

/-! ## Adjustments -/

/-- From half a size at strength 0 to the whole at strength 1. -/
def scaleByStrength (size strength : Decimal) : Calc Decimal := do
  let strength := (strength.max 0).min 1
  size.mul (← half.add (← half.mul strength))

/-- Shrinks a size when the volatility is above the target, and never lets it grow. -/
def adjustForVolatility (size volatility target : Decimal) : Calc Decimal := do
  if volatility ≤ 0 ∨ target ≤ 0 then return size
  else size.mul ((← target.div volatility).min 1)

/-- Shrinks a size in proportion to a positive correlation. -/
def adjustForCorrelation (limits : RiskSettings) (size correlation : Decimal) : Calc Decimal := do
  let correlation := ((correlation.max (-1)).min 1).max 0
  let factor := (← Decimal.sub 1 (← correlation.mul limits.correlationPenalty)).max 0
  size.mul factor

/-- Rounds a size down to a whole number of steps. -/
def roundToStep (size step : Decimal) : Calc Decimal := do
  if step ≤ 0 then return size
  else (← (← size.div step).floor).mul step

end RiskSettings

end SimBroker
