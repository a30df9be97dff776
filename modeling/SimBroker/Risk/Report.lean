import SimBroker.Risk.Sizing
import SimBroker.Signal
import SimBroker.Order

/-!
# What the risk manager reports

An approved signal with its size, the events of the risk manager, and its state for display.
-/

namespace SimBroker

open Json (Codec encode name? record)
open Json.Fields (field optional)

/-- A signal that passed every check, with its size. -/
structure Approval where
  signal : Signal
  /-- The quantity to trade. -/
  size : Decimal
  sizing : Sizing
  riskReward : Decimal
  deriving DecidableEq

namespace Approval

instance : Codec Approval where
  encode a := .obj
    [("signal", encode a.signal), ("size", encode a.size), ("sizing", encode a.sizing),
      ("risk_reward", encode a.riskReward)]
  read? := record do
    let signal ← field "signal"
    let size ← field "size"
    let sizing ← field "sizing"
    let riskReward ← field "risk_reward"
    return ⟨signal, size, sizing, riskReward⟩

/-- The market order that enters the signal's position, with its exits and tag. -/
def toOrderRequest (a : Approval) : OrderRequest :=
  { OrderRequest.market a.signal.symbol (.entering a.signal.direction) a.size with
    stopLoss := some a.signal.stopLoss
    takeProfit := some a.signal.takeProfit
    strategyTag := a.signal.strategyTag }

end Approval

/-- How close an account is to its limits. -/
inductive RiskLevel where
  | normal
  /-- Close to a limit; trading goes on. -/
  | warning
  | halted
  deriving DecidableEq

namespace RiskLevel

/-- The name of a level. -/
def name : RiskLevel → String
  | normal => "normal"
  | warning => "warning"
  | halted => "halted"

instance : Codec RiskLevel where
  encode l := .str l.name
  read? := name? [("normal", normal), ("warning", warning), ("halted", halted)]

end RiskLevel

/-- What the risk manager has decided. -/
inductive RiskDecision where
  | warning (metric : String) (value limit : Decimal)
  | halted (reason : HaltReason)
  /-- A halt was lifted, by hand or because its time was over. -/
  | resumed (manual : Bool)
  | rejected (reason : RejectReason) (symbol : String)
  /-- No metric is close to its limit any more. -/
  | recovered
  deriving DecidableEq

/-- A decision and its time. -/
structure RiskEvent where
  decision : RiskDecision
  timestamp : Instant
  deriving DecidableEq

namespace RiskDecision

/-- The members of a decision in JSON. -/
def members : RiskDecision → List (String × Json)
  | warning metric value limit =>
    [("kind", .str "warning"), ("metric", .str metric), ("value", encode value),
      ("limit", encode limit)]
  | halted reason => [("kind", .str "halted"), ("reason", encode reason)]
  | resumed manual => [("kind", .str "resumed"), ("manual", .bool manual)]
  | rejected reason symbol =>
    [("kind", .str "rejected"), ("reason", encode reason), ("symbol", .str symbol)]
  | recovered => [("kind", .str "recovered")]

/-- The cases of a decision, in order. -/
def cases : List (String × Json.Fields.Reader RiskDecision) :=
  [("warning", do
      let metric ← field "metric"
      let value ← field "value"
      let limit ← field "limit"
      return warning metric value limit),
    ("halted", do return halted (← field "reason")),
    ("resumed", do return resumed (← field "manual")),
    ("rejected", do
      let reason ← field "reason"
      let symbol ← field "symbol"
      return rejected reason symbol),
    ("recovered", pure recovered)]

end RiskDecision

instance : Codec RiskEvent where
  encode e := .obj (e.decision.members ++ [("timestamp", encode e.timestamp)])
  read? := record do
    let decision ← Json.flattened "kind" RiskDecision.cases
    let timestamp ← field "timestamp"
    return ⟨decision, timestamp⟩

/-- The state of the risk manager. -/
structure RiskStatus where
  level : RiskLevel
  equity : Decimal
  peakEquity : Decimal
  currentDrawdown : Decimal
  maxDrawdown : Decimal
  dailyPnl : Decimal
  weeklyPnl : Decimal
  consecutiveLosses : Nat
  totalTrades : Nat
  halted : Bool
  haltReason : Option HaltReason
  haltedUntil : Option Instant
  timestamp : Instant
  deriving DecidableEq

namespace RiskStatus

/-- Reads the fields of a status. -/
def read : Json.Fields.Reader RiskStatus := do
  let level ← field "level"
  let equity ← field "equity"
  let peakEquity ← field "peak_equity"
  let currentDrawdown ← field "current_drawdown"
  let maxDrawdown ← field "max_drawdown"
  let dailyPnl ← field "daily_pnl"
  let weeklyPnl ← field "weekly_pnl"
  let consecutiveLosses ← Json.Fields.fieldBy (Json.natBelow? UInt32.size) "consecutive_losses"
  let totalTrades ← field "total_trades"
  let halted ← field "halted"
  let haltReason ← optional "halt_reason"
  let haltedUntil ← optional "halted_until"
  let timestamp ← field "timestamp"
  return ⟨level, equity, peakEquity, currentDrawdown, maxDrawdown, dailyPnl, weeklyPnl,
    consecutiveLosses, totalTrades, halted, haltReason, haltedUntil, timestamp⟩

instance : Codec RiskStatus where
  encode s := .obj
    [("level", encode s.level), ("equity", encode s.equity), ("peak_equity", encode s.peakEquity),
      ("current_drawdown", encode s.currentDrawdown), ("max_drawdown", encode s.maxDrawdown),
      ("daily_pnl", encode s.dailyPnl), ("weekly_pnl", encode s.weeklyPnl),
      ("consecutive_losses", encode s.consecutiveLosses),
      ("total_trades", encode s.totalTrades), ("halted", encode s.halted),
      ("halt_reason", encode s.haltReason), ("halted_until", encode s.haltedUntil),
      ("timestamp", encode s.timestamp)]
  read? := record read

end RiskStatus

/-- The drawdown in detail. -/
structure DrawdownInfo where
  peakEquity : Decimal
  currentEquity : Decimal
  currentDrawdown : Decimal
  maxDrawdown : Decimal
  limit : Decimal
  /-- How far the drawdown is below its limit; zero at or beyond it. -/
  headroom : Decimal
  dailyStartEquity : Decimal
  weeklyStartEquity : Decimal
  deriving DecidableEq

instance : Codec DrawdownInfo where
  encode d := .obj
    [("peak_equity", encode d.peakEquity), ("current_equity", encode d.currentEquity),
      ("current_drawdown", encode d.currentDrawdown), ("max_drawdown", encode d.maxDrawdown),
      ("limit", encode d.limit), ("headroom", encode d.headroom),
      ("daily_start_equity", encode d.dailyStartEquity),
      ("weekly_start_equity", encode d.weeklyStartEquity)]
  read? := record do
    let peakEquity ← field "peak_equity"
    let currentEquity ← field "current_equity"
    let currentDrawdown ← field "current_drawdown"
    let maxDrawdown ← field "max_drawdown"
    let limit ← field "limit"
    let headroom ← field "headroom"
    let dailyStartEquity ← field "daily_start_equity"
    let weeklyStartEquity ← field "weekly_start_equity"
    return ⟨peakEquity, currentEquity, currentDrawdown, maxDrawdown, limit, headroom,
      dailyStartEquity, weeklyStartEquity⟩

end SimBroker
