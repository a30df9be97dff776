import SimBroker.Risk.Drawdown
import SimBroker.Risk.Report
import SimBroker.Ledger.Report
import SimBroker.Tally

/-!
# The risk manager

The manager sizes signals against the limits of an account, follows realized profit and equity, and
halts trading when a limit is exceeded or a streak of losses is too long.  A halt ends when its
time is over, which is noticed at the next call, or by `reset`.  A halt for a violated invariant has
no such time, so it stays until `reset`, unless another halt takes its place.
-/

namespace SimBroker

/-- How many events are kept, both for the log and for the next taker. -/
def maxRiskEvents : Nat := 100

/-- The last elements of a list, at most `n`. -/
def lastOf {α : Type} (n : Nat) (xs : List α) : List α := xs.drop (xs.length - n)

/-- What an evaluation looks at in an account. -/
structure Exposure where
  equity : Decimal
  openPositions : Nat
  openSymbols : List String
  deriving DecidableEq

/-- The exposure that a summary shows. -/
def AccountSummary.exposure (a : AccountSummary) : Exposure :=
  ⟨a.equity, a.openPositions, a.openSymbols⟩

/-- The risk manager of one account. -/
structure RiskManager where
  limits : RiskSettings
  monitor : DrawdownMonitor
  level : RiskLevel := .normal
  consecutiveLosses : Nat := 0
  totalTrades : Nat := 0
  /-- The results of the last trades, oldest first. -/
  pnlHistory : List Decimal := []
  haltReason : Option HaltReason := none
  haltedUntil : Option Instant := none
  /-- The last events, oldest first. -/
  events : List RiskEvent := []
  /-- The last events that nobody has taken. -/
  unpublished : List RiskEvent := []
  /-- How many signals were rejected for each reason. -/
  rejections : Tally RejectReason := {}
  /-- How many halts there were of each kind. -/
  halts : Tally String := {}

namespace RiskManager

/-- A manager that starts from an equity. -/
def new (limits : RiskSettings) (equity : Decimal) (now : Instant) : RiskManager where
  limits
  monitor := .new equity now

/-- Whether trading is halted. -/
def isHalted (m : RiskManager) : Bool := m.level == .halted

/-- Logs a decision. -/
def push (m : RiskManager) (decision : RiskDecision) (now : Instant) : RiskManager :=
  let event : RiskEvent := ⟨decision, now⟩
  { m with
    events := lastOf maxRiskEvents (m.events ++ [event])
    unpublished := lastOf maxRiskEvents (m.unpublished ++ [event]) }

/-! ## Halts -/

/-- When a halt for a reason ends by itself. -/
def haltEnd (m : RiskManager) (reason : HaltReason) (now : Instant) : Option Instant :=
  match reason with
  | .invariantViolation _ => none
  | _ => now.addSeconds? m.limits.haltDurationSecs

/-- Halts trading. -/
def halt (m : RiskManager) (reason : HaltReason) (now : Instant) : RiskManager :=
  { m with
    level := .halted
    haltReason := some reason
    haltedUntil := m.haltEnd reason now
    halts := m.halts.bump reason.kind }.push (.halted reason) now

/-- The manager without a halt. -/
def clearHalt (m : RiskManager) : RiskManager :=
  { m with level := .normal, haltReason := none, haltedUntil := none }

/-- Ends a halt whose time is over.  The streak of losses stays, so one more loss halts again. -/
def expireHalt (m : RiskManager) (now : Instant) : RiskManager :=
  if m.isHalted ∧ m.haltedUntil.any fun time => decide (time ≤ now) then
    m.clearHalt.push (.resumed false) now
  else m

/-- Ends a halt by hand and forgets the streak of losses. -/
def reset (m : RiskManager) (now : Instant) : RiskManager :=
  { m.clearHalt with consecutiveLosses := 0 }.push (.resumed true) now

/-- Brings the level up to date: halts at an exceeded limit, warns near one, and recovers. -/
def assess (m : RiskManager) (now : Instant) : Calc RiskManager := do
  if m.isHalted then return m
  else
    match ← m.monitor.breach? m.limits with
    | some reason => return m.halt reason now
    | none =>
      match ← m.monitor.warning? m.limits, m.level with
      | some w, .normal =>
        return { m with level := .warning }.push (.warning w.metric w.value w.limit) now
      | none, .warning => return { m with level := .normal }.push .recovered now
      | _, _ => return m

/-! ## Trades and equity -/

/-- Records the result of a trade that closed or reduced a position. -/
def recordTrade (m : RiskManager) (pnl : Decimal) (now : Instant) : Calc RiskManager := do
  let m := m.expireHalt now
  let monitor ← m.monitor.recordPnl pnl now
  let m := { m with
    monitor
    totalTrades := m.totalTrades + 1
    pnlHistory := lastOf (max m.limits.tradeHistory 1) (m.pnlHistory ++ [pnl])
    consecutiveLosses := if pnl < 0 then m.consecutiveLosses + 1 else 0 }
  let tripped := m.limits.circuitBreakerEnabled ∧ !m.isHalted ∧
    m.limits.maxConsecutiveLosses ≤ m.consecutiveLosses
  (if tripped then m.halt (.consecutiveLosses m.consecutiveLosses) now else m).assess now

/-- Takes a new equity. -/
def updateEquity (m : RiskManager) (equity : Decimal) (now : Instant) : Calc RiskManager := do
  let m := m.expireHalt now
  let monitor ← m.monitor.update equity now
  { m with monitor }.assess now

/-! ## Signals -/

/-- What a signal offers for its risk, if the signal makes sense. -/
def checkSignal (s : Signal) : Calc (Outcome Decimal) :=
  let notPositive (name : String) (value : Decimal) : TradingError :=
    .invalidInput s!"{name} must be positive, got {value}"
  if (trimmed s.symbol).isEmpty then .ok (.error (.invalidInput "signal symbol is empty"))
  else if s.entryPrice ≤ 0 then .ok (.error (notPositive "entry_price" s.entryPrice))
  else if s.stopLoss ≤ 0 then .ok (.error (notPositive "stop_loss" s.stopLoss))
  else if s.takeProfit ≤ 0 then .ok (.error (notPositive "take_profit" s.takeProfit))
  else do
    match ← s.riskReward with
    | some ratio => return .ok ratio
    | none =>
      return .error (.invalidInput
        s!"stop loss {s.stopLoss} is not on the losing side of entry {s.entryPrice}")

/-- The size that the configured method proposes for a signal. -/
def proposeSize (m : RiskManager) (s : Signal) (equity : Decimal) : Calc Sizing := do
  let byFraction (fraction : Decimal) : Calc Sizing :=
    RiskSettings.sizeByFraction equity fraction s.entryPrice s.stopLoss s.direction
  match m.limits.sizingMethod, s.atr with
  | .atr, some atr =>
    m.limits.sizeByAtr equity s.entryPrice atr m.limits.atrMultiplier s.direction
  | .risk, _ | .atr, none => m.limits.sizeByRisk equity s.entryPrice s.stopLoss s.direction
  | .kelly, _ => byFraction (← m.limits.kellyOfHistory m.pnlHistory)
  | .optimalF, _ => byFraction (← m.limits.optimalFraction m.pnlHistory)

/-- Sizes a signal: the proposal, scaled by strength, cut to the caps, and rounded to steps. -/
def sizeSignal (m : RiskManager) (s : Signal) (equity riskReward : Decimal) :
    Calc (Outcome Approval) := do
  let proposal ← m.proposeSize s equity
  let scaled ← RiskSettings.scaleByStrength proposal.size s.strength
  let limited ← m.limits.applyLimits (← proposal.withSize scaled) equity
  let size ← RiskSettings.roundToStep limited.size m.limits.stepSize
  if size ≤ 0 then return .error (.riskRejected .zeroSize)
  else return .ok ⟨s, size, ← limited.withSize size, riskReward⟩

/-- Checks a signal against the limits that do not depend on its size, then sizes it. -/
def screen (m : RiskManager) (s : Signal) (account : Exposure) : Calc (Outcome Approval) := do
  match ← checkSignal s with
  | .error e => return .error e
  | .ok riskReward =>
    let held := account.openSymbols.contains s.symbol
    if riskReward < m.limits.minRiskReward then
      return .error (.riskRejected .belowMinRiskReward)
    else if m.limits.maxOpenPositions < account.openPositions + (if held then 0 else 1) then
      return .error (.riskRejected .positionLimitExceeded)
    else if m.limits.maxPositionsPerSymbol < (if held then 2 else 1) then
      return .error (.riskRejected .symbolLimitExceeded)
    else m.sizeSignal s account.equity riskReward

/-- Takes the account's equity, and approves or refuses a signal. -/
def judge (m : RiskManager) (s : Signal) (account : Exposure) (now : Instant) :
    Calc (RiskManager × Outcome Approval) := do
  let m := m.expireHalt now
  let monitor ← m.monitor.update account.equity now
  let m := { m with monitor }
  if m.isHalted then return (m, .error (.riskRejected .tradingHalted))
  else
    match ← m.monitor.breach? m.limits with
    | some reason => return (m.halt reason now, .error (.circuitBreakerTripped reason))
    | none => return (m, ← m.screen s account)

/-- Evaluates a signal, and logs a rejection. -/
def evaluate (m : RiskManager) (s : Signal) (account : Exposure) (now : Instant) :
    Calc (RiskManager × Outcome Approval) := do
  match ← m.judge s account now with
  | (m, .error (.riskRejected reason)) =>
    let m := { m with rejections := m.rejections.bump reason }.push (.rejected reason s.symbol) now
    return (m, .error (.riskRejected reason))
  | answer => return answer

/-! ## Queries -/

/-- The last events, at most `n`, oldest first. -/
def recentEvents (m : RiskManager) (n : Nat) : List RiskEvent := lastOf n m.events

/-- Takes the events that nobody has taken. -/
def takeNewEvents (m : RiskManager) : List RiskEvent × RiskManager :=
  (m.unpublished, { m with unpublished := [] })

/-- The state of the manager. -/
def status (m : RiskManager) (now : Instant) : Calc RiskStatus := do
  return {
    level := m.level
    equity := m.monitor.currentEquity
    peakEquity := m.monitor.peakEquity
    currentDrawdown := ← m.monitor.currentDrawdown
    maxDrawdown := m.monitor.maxDrawdown
    dailyPnl := m.monitor.dailyPnl
    weeklyPnl := m.monitor.weeklyPnl
    consecutiveLosses := m.consecutiveLosses
    totalTrades := m.totalTrades
    halted := m.isHalted
    haltReason := m.haltReason
    haltedUntil := m.haltedUntil
    timestamp := now }

/-- The drawdown in detail. -/
def drawdownInfo (m : RiskManager) : Calc DrawdownInfo := do
  let current ← m.monitor.currentDrawdown
  return {
    peakEquity := m.monitor.peakEquity
    currentEquity := m.monitor.currentEquity
    currentDrawdown := current
    maxDrawdown := m.monitor.maxDrawdown
    limit := m.limits.maxDrawdownPct
    headroom := (← m.limits.maxDrawdownPct.sub current).max 0
    dailyStartEquity := m.monitor.dailyStartEquity
    weeklyStartEquity := m.monitor.weeklyStartEquity }

/-! ## Runs -/

/-- A call that may change the manager. -/
inductive Operation where
  | evaluate (signal : Signal) (account : Exposure) (now : Instant)
  | recordTrade (pnl : Decimal) (now : Instant)
  | updateEquity (equity : Decimal) (now : Instant)
  | halt (reason : HaltReason) (now : Instant)
  | reset (now : Instant)
  | takeNewEvents

/-- Carries out one operation; only an evaluation has an answer of interest. -/
def step (m : RiskManager) : Operation → Calc (RiskManager × Option (Outcome Approval))
  | .evaluate signal account now => do
    let (m, outcome) ← m.evaluate signal account now
    return (m, some outcome)
  | .recordTrade pnl now => do return (← m.recordTrade pnl now, none)
  | .updateEquity equity now => do return (← m.updateEquity equity now, none)
  | .halt reason now => .ok (m.halt reason now, none)
  | .reset now => .ok (m.reset now, none)
  | .takeNewEvents => .ok (m.takeNewEvents.2, none)

/-- Carries out a list of operations in order. -/
def run (m : RiskManager) (ops : List Operation) : Calc RiskManager :=
  ops.foldlM (fun m op => do return (← m.step op).1) m

end RiskManager

end SimBroker
