import SimBroker.Broadcast.Hub
import SimBroker.Broadcast.Message
import SimBroker.Instant.Clock
import SimBroker.Ledger.Operations
import SimBroker.Risk.Manager

/-!
# The session

A session joins a ledger, a risk manager and a hub.  Its run state gates trading.  Every call that
changes something ends in `sync`: the events of the ledger go to the risk manager and the
subscribers, the risk manager sees the new equity, a halt stops the session, and the new trading
state is published.

The calls are actions on the session that may stop at an arithmetic fault; what they have done until
then stays done.  A call takes a reading of its clock wherever it stamps something: the fill of an
order, what the risk manager does with it, and each message have their own.
-/

namespace SimBroker

/-- A trading session of one account. -/
structure Session where
  settings : SessionSettings
  ledger : Ledger
  risk : RiskManager
  status : TradingStatus
  /-- The trading state published last. -/
  state : TradingState
  hub : Hub Message
  /-- The audit log of signals, oldest first. -/
  signals : List SignalRecord := []
  errors : List ErrorRecord := []
  strategies : List String := []
  regime : Option String := none
  /-- How many errors the session's own operations had. -/
  failures : Tally String := {}
  /-- The number of open positions last reported, if any was. -/
  reportedPositions : Option Nat := none

namespace Session

/-- An action on a session, which may stop at an arithmetic fault. -/
abbrev Action (α : Type) := EStateM ArithmeticFault Session α

/-- A calculation as an action. -/
def compute {α : Type} (x : Calc α) : Action α :=
  match x with
  | .ok a => pure a
  | .error e => throw e

/-- A new session. -/
def new (settings : Settings) (hub : Hub Message) (firstId : Uuid) (clock : Clock) :
    Calc Session := do
  let ledger := Ledger.new settings.account firstId true
  let risk := RiskManager.new settings.risk settings.account.initialBalance (clock 0)
  let status : TradingStatus := if settings.session.autoStart then .running else .stopped
  let account ← ledger.summary (clock 1)
  let state : TradingState := {
    status
    account
    risk := ← risk.status (clock 2)
    openPositions := account.openPositions
    openOrders := account.openOrders
    totalTrades := account.totalTrades
    lastSignal := none
    activeStrategies := []
    regime := none
    errors := []
    updatedAt := clock 3 }
  return { settings := settings.session, ledger, risk, status, state, hub }

/-! ## Messages and logs -/

/-- Publishes a payload. -/
def publish (payload : Payload) (now : Instant) : Action Unit :=
  modify fun s => { s with hub := s.hub.publish ⟨payload, now⟩ }

/-- Adds an error to the log and publishes it. -/
def pushError (source message : String) (clock : Clock) : Action Unit := do
  let entry : ErrorRecord := ⟨source, message, clock 0⟩
  modify fun s => { s with errors := lastOf (max s.settings.maxErrors 1) (s.errors ++ [entry]) }
  publish (.error entry) (clock 1)

/-- Adds a signal to the audit log and publishes it. -/
def recordSignal (signal : Signal) (outcome : SignalOutcome) (clock : Clock) : Action Unit := do
  let entry : SignalRecord := ⟨signal, outcome, clock 0⟩
  modify fun s =>
    { s with signals := lastOf (max s.settings.signalHistory 1) (s.signals ++ [entry]) }
  publish (.signal entry) (clock 1)

/-- Counts and logs an error of an operation; a violated invariant halts the account. -/
def handleError (source : String) (e : TradingError) (clock : Clock) : Action Unit := do
  match e with
  | .invariantViolation message =>
    modify fun s =>
      { s with risk := s.risk.halt (.invariantViolation message) (clock 0), status := .halted }
  | _ => pure ()
  modify fun s => { s with failures := s.failures.bump source }
  pushError source e.message (clock.after 1)

/-! ## Bringing the session up to date -/

/-- Acts for each element of a list in order, and takes `n` readings of the clock for each.  The
answer is the clock after all of them. -/
def forEach {α : Type} (n : Nat) (f : α → Clock → Action Unit) : List α → Clock → Action Clock
  | [], clock => return clock
  | a :: as, clock => do
    f a clock
    forEach n f as (clock.after n)

/-- Passes one event of the ledger on: realized profit to the risk manager, the trade and the
position to the subscribers. -/
def forward (event : LedgerEvent) (clock : Clock) : Action Unit := do
  match event with
  | .position change position trade =>
    match trade with
    | some t =>
      if change.realizesPnl then
        let risk ← compute ((← get).risk.recordTrade t.realizedPnl (clock 0))
        modify fun s => { s with risk }
      publish (.trade t) (clock 1)
    | none => pure ()
    publish (.position ⟨change, position⟩) (clock 2)
  | _ => pure ()

/-- Passes all events of the ledger on, in order; the answer is the clock after them. -/
def drain (clock : Clock) : Action Clock := do
  let (events, ledger) := (← get).ledger.takeEvents
  modify fun s => { s with ledger }
  forEach 3 forward events clock

/-- The trading state as it is. -/
def snapshot (account : AccountSummary) (risk : RiskStatus) (now : Instant) (s : Session) :
    TradingState where
  status := s.status
  account
  risk
  openPositions := account.openPositions
  openOrders := account.openOrders
  totalTrades := account.totalTrades
  lastSignal := s.signals.getLast?
  activeStrategies := s.strategies
  regime := s.regime
  errors := s.errors
  updatedAt := now

/-- Brings the session up to date and publishes the trading state. -/
def sync (clock : Clock) : Action Unit := do
  let clock ← drain clock
  let account ← compute ((← get).ledger.summary (clock 0))
  let risk ← compute ((← get).risk.updateEquity account.equity (clock 1))
  let riskStatus ← compute (risk.status (clock 2))
  let (events, risk) := risk.takeNewEvents
  modify fun s =>
    { s with
      risk
      status :=
        if risk.isHalted ∧ (s.status = .running ∨ s.status = .paused) then .halted else s.status }
  let clock ← forEach 1 (fun e clock => publish (.risk e) (clock 0)) events (clock.after 3)
  modify fun s => { s with reportedPositions := some account.openPositions }
  let state := snapshot account riskStatus (clock 0) (← get)
  modify fun s => { s with state }
  publish (.state state) (clock 1)

end Session

end SimBroker
