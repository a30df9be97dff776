import SimBroker.Json.Codec

/-!
# Why an operation is refused

`TradingError` lists the causes for which the ledger, the risk manager or the session refuses a
call, with the text of each.  Only a violated invariant of the ledger is fatal.
-/

namespace SimBroker

open Json (Codec encode read? name? natBelow? content)

/-- Why the risk manager rejects a signal. -/
inductive RejectReason where
  | belowMinRiskReward
  | positionLimitExceeded
  | tradingHalted
  | symbolLimitExceeded
  | zeroSize
  deriving DecidableEq

namespace RejectReason

/-- The name of a reason. -/
def name : RejectReason → String
  | belowMinRiskReward => "below_min_risk_reward"
  | positionLimitExceeded => "position_limit_exceeded"
  | tradingHalted => "trading_halted"
  | symbolLimitExceeded => "symbol_limit_exceeded"
  | zeroSize => "zero_size"

/-- The text of a reason. -/
def message : RejectReason → String
  | belowMinRiskReward => "below minimum risk/reward"
  | positionLimitExceeded => "position limit exceeded"
  | tradingHalted => "trading halted"
  | symbolLimitExceeded => "symbol limit exceeded"
  | zeroSize => "computed size is zero"

instance : Codec RejectReason where
  encode r := .str r.name
  read? := name?
    ([belowMinRiskReward, positionLimitExceeded, tradingHalted, symbolLimitExceeded, zeroSize].map
      fun r => (r.name, r))

end RejectReason

/-- Why trading is halted. -/
inductive HaltReason where
  | consecutiveLosses (count : Nat)
  | maxDrawdownReached (drawdown : Decimal)
  | maxDailyLossReached (loss : Decimal)
  | maxWeeklyLossReached (loss : Decimal)
  | invariantViolation (message : String)
  deriving DecidableEq

namespace HaltReason

/-- The text of a reason. -/
def message : HaltReason → String
  | consecutiveLosses n => s!"{n} consecutive losing trades"
  | maxDrawdownReached d => s!"drawdown {d} exceeds limit"
  | maxDailyLossReached l => s!"daily loss {l} exceeds limit"
  | maxWeeklyLossReached l => s!"weekly loss {l} exceeds limit"
  | invariantViolation m => s!"invariant violation: {m}"

/-- The kind of a reason, under which halts are counted. -/
def kind : HaltReason → String
  | consecutiveLosses _ => "consecutive_losses"
  | maxDrawdownReached _ => "max_drawdown"
  | maxDailyLossReached _ => "max_daily_loss"
  | maxWeeklyLossReached _ => "max_weekly_loss"
  | invariantViolation _ => "invariant_violation"

instance : Codec HaltReason where
  encode r :=
    let of (type : String) (value : Json) : Json := .obj [("type", .str type), ("value", value)]
    match r with
    | consecutiveLosses n => of "consecutive_losses" (.int n)
    | maxDrawdownReached d => of "max_drawdown_reached" (encode d)
    | maxDailyLossReached l => of "max_daily_loss_reached" (encode l)
    | maxWeeklyLossReached l => of "max_weekly_loss_reached" (encode l)
    | invariantViolation m => of "invariant_violation" (.str m)
  read? := content "type" "value"
    [("consecutive_losses", fun p j => (natBelow? UInt32.size p j).map consecutiveLosses),
      ("max_drawdown_reached", fun p j => (read? p j).map maxDrawdownReached),
      ("max_daily_loss_reached", fun p j => (read? p j).map maxDailyLossReached),
      ("max_weekly_loss_reached", fun p j => (read? p j).map maxWeeklyLossReached),
      ("invariant_violation", fun p j => (read? p j).map invariantViolation)]

end HaltReason

/-- Why an operation is refused. -/
inductive TradingError where
  /-- An order, a price or a signal makes no sense. -/
  | invalidInput (what : String)
  /-- A purchase costs more than the free balance. -/
  | insufficientBalance (required available : Decimal)
  /-- No reference price is known for the symbol. -/
  | noPriceAvailable (symbol : String)
  /-- No such order or position. -/
  | notFound (what : String)
  /-- The operation is not allowed now. -/
  | invalidState (what : String)
  /-- A risk check rejects the signal or order. -/
  | riskRejected (reason : RejectReason)
  /-- The signal's evaluation found a limit exceeded and halted trading. -/
  | circuitBreakerTripped (reason : HaltReason)
  /-- The ledger is no longer consistent. -/
  | invariantViolation (what : String)
  deriving DecidableEq

namespace TradingError

/-- The text of an error. -/
def message : TradingError → String
  | invalidInput what => s!"Invalid input: {what}"
  | insufficientBalance required available =>
    s!"Insufficient balance: required {required}, available {available}"
  | noPriceAvailable symbol => s!"No price available for {symbol}"
  | notFound what => s!"Not found: {what}"
  | invalidState what => s!"Invalid state: {what}"
  | riskRejected reason => s!"Risk rejected: {reason.message}"
  | circuitBreakerTripped reason => s!"Circuit breaker tripped: {reason.message}"
  | invariantViolation what => s!"Invariant violation: {what}"

/-- Whether the account must be halted after the error. -/
def isFatal : TradingError → Bool
  | invariantViolation _ => true
  | _ => false

/-- Whether the same request may succeed later as it is. -/
def isRetryable : TradingError → Bool
  | noPriceAvailable _ => true
  | _ => false

end TradingError

/-- What an operation answers, unless it is refused. -/
abbrev Outcome (α : Type) := Except TradingError α

end SimBroker
