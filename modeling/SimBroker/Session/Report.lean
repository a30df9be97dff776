import SimBroker.Ledger.Report
import SimBroker.Risk.Report

/-!
# What a session reports

The run state, the fate of each signal, the errors, and the trading state that shows them together
with the account.
-/

namespace SimBroker

open Json (Codec encode name? record tagged)
open Json.Fields (field optional)

/-- The run state of a session. -/
inductive TradingStatus where
  | stopped
  | running
  | paused
  /-- Stopped by the risk manager. -/
  | halted
  deriving DecidableEq

namespace TradingStatus

/-- The name of a status. -/
def name : TradingStatus → String
  | stopped => "stopped"
  | running => "running"
  | paused => "paused"
  | halted => "halted"

instance : Codec TradingStatus where
  encode s := .str s.name
  read? := name? ([stopped, running, paused, halted].map fun s => (s.name, s))

end TradingStatus

/-- The fate of a signal. -/
inductive SignalOutcome where
  /-- It came while the session was not running. -/
  | ignored (status : TradingStatus)
  | executed (orderId : Uuid) (size : Decimal)
  /-- A risk check rejected it. -/
  | rejected (reason : String)
  /-- It made no sense or could not be filled. -/
  | failed (error : String)
  deriving DecidableEq

namespace SignalOutcome

/-- The members of an outcome in JSON. -/
def members : SignalOutcome → List (String × Json)
  | ignored status => [("outcome", .str "ignored"), ("status", encode status)]
  | executed orderId size =>
    [("outcome", .str "executed"), ("order_id", encode orderId), ("size", encode size)]
  | rejected reason => [("outcome", .str "rejected"), ("reason", encode reason)]
  | failed error => [("outcome", .str "failed"), ("error", encode error)]

/-- The cases of an outcome, in order. -/
def cases : List (String × Json.Fields.Reader SignalOutcome) :=
  [("ignored", do return ignored (← field "status")),
    ("executed", do
      let orderId ← field "order_id"
      let size ← field "size"
      return executed orderId size),
    ("rejected", do return rejected (← field "reason")),
    ("failed", do return failed (← field "error"))]

instance : Codec SignalOutcome where
  encode o := .obj o.members
  read? := tagged "outcome" cases

end SignalOutcome

/-- A signal in the audit log. -/
structure SignalRecord where
  signal : Signal
  outcome : SignalOutcome
  receivedAt : Instant
  deriving DecidableEq

instance : Codec SignalRecord where
  encode r := .obj
    (("signal", encode r.signal) :: r.outcome.members ++ [("received_at", encode r.receivedAt)])
  read? := record do
    let signal ← field "signal"
    let outcome ← Json.flattened "outcome" SignalOutcome.cases
    let receivedAt ← field "received_at"
    return ⟨signal, outcome, receivedAt⟩

/-- An error shown to operators. -/
structure ErrorRecord where
  /-- What reported the error. -/
  source : String
  message : String
  timestamp : Instant
  deriving DecidableEq

instance : Codec ErrorRecord where
  encode e := .obj
    [("source", encode e.source), ("message", encode e.message), ("timestamp", encode e.timestamp)]
  read? := record do
    let source ← field "source"
    let message ← field "message"
    let timestamp ← field "timestamp"
    return ⟨source, message, timestamp⟩

/-- Everything a dashboard shows. -/
structure TradingState where
  status : TradingStatus
  account : AccountSummary
  risk : RiskStatus
  openPositions : Nat
  openOrders : Nat
  totalTrades : Nat
  lastSignal : Option SignalRecord
  activeStrategies : List String
  /-- The market regime, if the strategies have named one. -/
  regime : Option String
  /-- The last errors, oldest first. -/
  errors : List ErrorRecord
  updatedAt : Instant
  deriving DecidableEq

namespace TradingState

/-- Reads the fields of a trading state. -/
def read : Json.Fields.Reader TradingState := do
  let status ← field "status"
  let account ← field "account"
  let risk ← field "risk"
  let openPositions ← field "open_positions"
  let openOrders ← field "open_orders"
  let totalTrades ← field "total_trades"
  let lastSignal ← optional "last_signal"
  let activeStrategies ← field "active_strategies"
  let regime ← optional "regime"
  let errors ← field "errors"
  let updatedAt ← field "updated_at"
  return ⟨status, account, risk, openPositions, openOrders, totalTrades, lastSignal,
    activeStrategies, regime, errors, updatedAt⟩

instance : Codec TradingState where
  encode s := .obj
    [("status", encode s.status), ("account", encode s.account), ("risk", encode s.risk),
      ("open_positions", encode s.openPositions), ("open_orders", encode s.openOrders),
      ("total_trades", encode s.totalTrades), ("last_signal", encode s.lastSignal),
      ("active_strategies", encode s.activeStrategies), ("regime", encode s.regime),
      ("errors", encode s.errors), ("updated_at", encode s.updatedAt)]
  read? := record read

end TradingState

end SimBroker
