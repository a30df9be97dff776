import SimBroker.Json.Codec

/-!
# Settings

The configuration of an account: how fills are priced, what risks are allowed, how much is kept in
the logs.  Every field has a default.  `fault?` is the first reason why the rest of the library
cannot work with a configuration.
-/

namespace SimBroker

open Json (Codec encode name? natBelow? record)
open Json.Fields (fieldByD fieldD)

/-- The simulated account. -/
structure AccountSettings where
  /-- The free balance at the start, in the quote asset. -/
  initialBalance : Decimal := .lit 100000 0
  quoteAsset : String := "USDT"
  /-- The commission as a fraction of the value traded. -/
  commissionRate : Decimal := .lit 1 3
  /-- How much worse than the reference price a market order fills, as a fraction. -/
  slippage : Decimal := .lit 5 4
  deriving DecidableEq

instance : Codec AccountSettings where
  encode s := .obj
    [("initial_balance", encode s.initialBalance), ("quote_asset", encode s.quoteAsset),
      ("commission_rate", encode s.commissionRate), ("slippage", encode s.slippage)]
  read? := record do
    let d : AccountSettings := {}
    let initialBalance ← fieldD "initial_balance" d.initialBalance
    let quoteAsset ← fieldD "quote_asset" d.quoteAsset
    let commissionRate ← fieldD "commission_rate" d.commissionRate
    let slippage ← fieldD "slippage" d.slippage
    return ⟨initialBalance, quoteAsset, commissionRate, slippage⟩

/-- How the size of a new position is found. -/
inductive SizingMethod where
  /-- A fixed fraction of equity is lost at the stop. -/
  | risk
  /-- The stop is placed by the average true range, then as `risk`. -/
  | atr
  /-- Half the Kelly fraction of the recent trades. -/
  | kelly
  /-- The optimal fraction by the extremes of the recent trades. -/
  | optimalF
  deriving DecidableEq

namespace SizingMethod

/-- The name of a method. -/
def name : SizingMethod → String
  | risk => "risk"
  | atr => "atr"
  | kelly => "kelly"
  | optimalF => "optimal_f"

instance : Codec SizingMethod where
  encode m := .str m.name
  read? := name? ([risk, atr, kelly, optimalF].map fun m => (m.name, m))

end SizingMethod

/-- Limits on risk and the parameters of sizing. -/
structure RiskSettings where
  /-- The fraction of equity that one trade may lose. -/
  maxRiskPerTrade : Decimal := .lit 2 2
  /-- The largest position value as a fraction of equity. -/
  maxPositionSize : Decimal := .lit 25 2
  /-- The largest position value. -/
  maxPositionValue : Decimal := .lit 100000 0
  /-- The largest position value as a multiple of equity. -/
  maxLeverage : Decimal := .lit 3 0
  /-- The least gain for what is risked that a signal must offer. -/
  minRiskReward : Decimal := .lit 15 1
  maxOpenPositions : Nat := 5
  /-- The most entries in one symbol. -/
  maxPositionsPerSymbol : Nat := 1
  /-- The drawdown from the peak that halts trading. -/
  maxDrawdownPct : Decimal := .lit 15 2
  /-- The loss of a day, as a fraction of equity, that halts trading. -/
  maxDailyLossPct : Decimal := .lit 5 2
  /-- The loss of a week, as a fraction of equity, that halts trading. -/
  maxWeeklyLossPct : Decimal := .lit 10 2
  /-- The fraction of a limit at which to warn. -/
  warningThreshold : Decimal := .lit 8 1
  /-- Whether a streak of losses halts trading. -/
  circuitBreakerEnabled : Bool := true
  maxConsecutiveLosses : Nat := 5
  /-- How many seconds a halt lasts. -/
  haltDurationSecs : Nat := 3600
  sizingMethod : SizingMethod := .risk
  /-- How many average true ranges the stop is away. -/
  atrMultiplier : Decimal := .lit 2 0
  /-- The fraction of equity to commit without a history of trades. -/
  defaultFraction : Decimal := .lit 2 2
  /-- How much a correlation of 1 shrinks a size. -/
  correlationPenalty : Decimal := .lit 5 1
  /-- The step that sizes are rounded down to; none if zero. -/
  stepSize : Decimal := 0
  /-- How many trade results are kept for sizing. -/
  tradeHistory : Nat := 200
  deriving DecidableEq

/-- Reads the fields of the risk settings. -/
def RiskSettings.read : Json.Fields.Reader RiskSettings := do
  let d : RiskSettings := {}
  let maxRiskPerTrade ← fieldD "max_risk_per_trade" d.maxRiskPerTrade
  let maxPositionSize ← fieldD "max_position_size" d.maxPositionSize
  let maxPositionValue ← fieldD "max_position_value" d.maxPositionValue
  let maxLeverage ← fieldD "max_leverage" d.maxLeverage
  let minRiskReward ← fieldD "min_risk_reward" d.minRiskReward
  let maxOpenPositions ← fieldD "max_open_positions" d.maxOpenPositions
  let maxPositionsPerSymbol ← fieldD "max_positions_per_symbol" d.maxPositionsPerSymbol
  let maxDrawdownPct ← fieldD "max_drawdown_pct" d.maxDrawdownPct
  let maxDailyLossPct ← fieldD "max_daily_loss_pct" d.maxDailyLossPct
  let maxWeeklyLossPct ← fieldD "max_weekly_loss_pct" d.maxWeeklyLossPct
  let warningThreshold ← fieldD "warning_threshold" d.warningThreshold
  let circuitBreakerEnabled ← fieldD "circuit_breaker_enabled" d.circuitBreakerEnabled
  let maxConsecutiveLosses ←
    fieldByD (natBelow? UInt32.size) "max_consecutive_losses" d.maxConsecutiveLosses
  let haltDurationSecs ← fieldD "halt_duration_secs" d.haltDurationSecs
  let sizingMethod ← fieldD "sizing_method" d.sizingMethod
  let atrMultiplier ← fieldD "atr_multiplier" d.atrMultiplier
  let defaultFraction ← fieldD "default_fraction" d.defaultFraction
  let correlationPenalty ← fieldD "correlation_penalty" d.correlationPenalty
  let stepSize ← fieldD "step_size" d.stepSize
  let tradeHistory ← fieldD "trade_history" d.tradeHistory
  return ⟨maxRiskPerTrade, maxPositionSize, maxPositionValue, maxLeverage, minRiskReward,
    maxOpenPositions, maxPositionsPerSymbol, maxDrawdownPct, maxDailyLossPct, maxWeeklyLossPct,
    warningThreshold, circuitBreakerEnabled, maxConsecutiveLosses, haltDurationSecs, sizingMethod,
    atrMultiplier, defaultFraction, correlationPenalty, stepSize, tradeHistory⟩

instance : Codec RiskSettings where
  encode s := .obj
    [("max_risk_per_trade", encode s.maxRiskPerTrade),
      ("max_position_size", encode s.maxPositionSize),
      ("max_position_value", encode s.maxPositionValue), ("max_leverage", encode s.maxLeverage),
      ("min_risk_reward", encode s.minRiskReward),
      ("max_open_positions", encode s.maxOpenPositions),
      ("max_positions_per_symbol", encode s.maxPositionsPerSymbol),
      ("max_drawdown_pct", encode s.maxDrawdownPct),
      ("max_daily_loss_pct", encode s.maxDailyLossPct),
      ("max_weekly_loss_pct", encode s.maxWeeklyLossPct),
      ("warning_threshold", encode s.warningThreshold),
      ("circuit_breaker_enabled", encode s.circuitBreakerEnabled),
      ("max_consecutive_losses", encode s.maxConsecutiveLosses),
      ("halt_duration_secs", encode s.haltDurationSecs), ("sizing_method", encode s.sizingMethod),
      ("atr_multiplier", encode s.atrMultiplier), ("default_fraction", encode s.defaultFraction),
      ("correlation_penalty", encode s.correlationPenalty), ("step_size", encode s.stepSize),
      ("trade_history", encode s.tradeHistory)]
  read? := record RiskSettings.read

/-- What a session keeps. -/
structure SessionSettings where
  /-- How many signals the audit log keeps. -/
  signalHistory : Nat := 500
  /-- How many errors the trading state shows. -/
  maxErrors : Nat := 50
  /-- Whether a session begins running. -/
  autoStart : Bool := false
  deriving DecidableEq

instance : Codec SessionSettings where
  encode s := .obj
    [("signal_history", encode s.signalHistory), ("max_errors", encode s.maxErrors),
      ("auto_start", encode s.autoStart)]
  read? := record do
    let d : SessionSettings := {}
    let signalHistory ← fieldD "signal_history" d.signalHistory
    let maxErrors ← fieldD "max_errors" d.maxErrors
    let autoStart ← fieldD "auto_start" d.autoStart
    return ⟨signalHistory, maxErrors, autoStart⟩

/-- The broadcast of messages. -/
structure BroadcastSettings where
  /-- The length of a subscriber's queue. -/
  queueDepth : Nat := 256
  deriving DecidableEq

instance : Codec BroadcastSettings where
  encode s := .obj [("queue_depth", encode s.queueDepth)]
  read? := record do
    let d : BroadcastSettings := {}
    return ⟨← fieldD "queue_depth" d.queueDepth⟩

/-- Logs and measurements. -/
structure TelemetrySettings where
  /-- The port at which measurements are served, if they are. -/
  metricsPort : Option Nat := none
  logLevel : String := "info"
  jsonLogs : Bool := false
  deriving DecidableEq

instance : Codec TelemetrySettings where
  encode s := .obj
    [("metrics_port", encode s.metricsPort), ("log_level", encode s.logLevel),
      ("json_logs", encode s.jsonLogs)]
  read? := record do
    let d : TelemetrySettings := {}
    let metricsPort ← fieldByD (fun
      | _, .null => some none
      | place, j => (natBelow? UInt16.size place j).map some) "metrics_port" d.metricsPort
    let logLevel ← fieldD "log_level" d.logLevel
    let jsonLogs ← fieldD "json_logs" d.jsonLogs
    return ⟨metricsPort, logLevel, jsonLogs⟩

/-- The whole configuration. -/
structure Settings where
  account : AccountSettings := {}
  risk : RiskSettings := {}
  session : SessionSettings := {}
  broadcast : BroadcastSettings := {}
  telemetry : TelemetrySettings := {}
  deriving DecidableEq

namespace Settings

instance : Codec Settings where
  encode s := .obj
    [("account", encode s.account), ("risk", encode s.risk), ("orchestrator", encode s.session),
      ("broadcast", encode s.broadcast), ("telemetry", encode s.telemetry)]
  read? := record do
    let account ← fieldD "account" {}
    let risk ← fieldD "risk" {}
    let session ← fieldD "orchestrator" {}
    let broadcast ← fieldD "broadcast" {}
    let telemetry ← fieldD "telemetry" {}
    return ⟨account, risk, session, broadcast, telemetry⟩

/-- Why a configuration is refused. -/
inductive Fault where
  | negativeInitialBalance
  | negativeFees
  | noRiskPerTrade
  | noQueue
  deriving DecidableEq

/-- The text of a fault. -/
def Fault.message : Fault → String
  | negativeInitialBalance => "account.initial_balance must not be negative"
  | negativeFees => "account.commission_rate and account.slippage must not be negative"
  | noRiskPerTrade => "risk.max_risk_per_trade must be positive"
  | noQueue => "broadcast.queue_depth must be at least 1"

/-- The first reason why a configuration is refused, if any. -/
def fault? (s : Settings) : Option Fault :=
  if s.account.initialBalance < 0 then some .negativeInitialBalance
  else if s.account.commissionRate < 0 ∨ s.account.slippage < 0 then some .negativeFees
  else if s.risk.maxRiskPerTrade ≤ 0 then some .noRiskPerTrade
  else if s.broadcast.queueDepth = 0 then some .noQueue
  else none

end Settings

end SimBroker
