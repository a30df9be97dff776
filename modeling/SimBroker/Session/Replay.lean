import SimBroker.Session.Operations

/-!
# Replaying recorded events

A replay runs a new session over a list of market events and sums up how it ends, as lines of text
or as JSON.  It may also tell the messages that the session has published.
-/

namespace SimBroker

/-- The end of a replay. -/
structure ReplaySummary where
  status : TradingStatus
  account : AccountSummary
  risk : RiskStatus
  positions : List Position
  deriving DecidableEq

namespace ReplaySummary

/-- A fraction in percent, to two places. -/
def percent (fraction : Decimal) : Calc Decimal := do
  return (← fraction.mul .hundred).toCents

/-- The summary in lines. -/
def lines (s : ReplaySummary) : Calc (List String) := do
  let drawdown ← percent s.risk.currentDrawdown
  let maxDrawdown ← percent s.risk.maxDrawdown
  let halted :=
    match s.risk.haltReason with
    | some reason => [s!"  Halted:        {reason.message}"]
    | none => []
  return [s!"Replay finished ({s.status.name})",
    s!"  Equity:        {s.account.equity} {s.account.quoteAsset}",
    s!"  Free balance:  {s.account.freeBalance}",
    s!"  Realized P&L:  {s.account.realizedPnl}",
    s!"  Unrealized:    {s.account.unrealizedPnl}",
    s!"  Commission:    {s.account.totalCommission}",
    s!"  Trades:        {s.account.totalTrades}",
    s!"  Open:          {s.account.openPositions}",
    s!"  Drawdown:      {drawdown}% (max {maxDrawdown}%)"] ++ halted

/-- The summary in JSON, with members in the order of their names. -/
def toJson (s : ReplaySummary) : Json :=
  Json.sorted (.obj [("status", Json.encode s.status), ("account", Json.encode s.account),
    ("risk", Json.encode s.risk), ("positions", Json.encode s.positions)])

end ReplaySummary

namespace Settings

/-- The settings with another initial balance, if one is given. -/
def withCapital (s : Settings) : Option Decimal → Settings
  | some capital => { s with account := { s.account with initialBalance := capital } }
  | none => s

end Settings

namespace Session

/-- Starts a session that does not start by itself. -/
def ensureStarted (clock : Clock) : Action Unit := do
  if (← get).status = .stopped then discard (start clock)

/-- Replays events, in a session that is started first. -/
def replayAll (events : List (MarketEvent × Clock)) (clock : Clock) : Action Unit := do
  ensureStarted clock
  replay events

/-- Takes the messages queued for a subscriber. -/
def receiveAll (subscriber : Nat) : Action (List Message) :=
  modifyGet fun s =>
    let (messages, hub) := s.hub.receiveAll subscriber
    (messages, { s with hub })

/-- Replays events for a subscriber who takes the messages after every event. -/
def replayFor (subscriber : Nat) (events : List (MarketEvent × Clock)) (clock : Clock) :
    Action (List Message) := do
  ensureStarted clock
  let first ← receiveAll subscriber
  let rest ← events.mapM fun (event, clock) => do
    onEvent event clock
    receiveAll subscriber
  return first ++ rest.flatten

/-- How a session stands. -/
def replaySummary (s : Session) (clock : Clock) : Calc ReplaySummary := do
  let account ← s.ledger.summary (clock 0)
  let risk ← s.risk.status (clock 1)
  return ⟨s.status, account, risk, s.ledger.positionList⟩

end Session

namespace Settings

/-- Replays events in a new session, and sums up how it ends. -/
def replay (settings : Settings) (events : List (MarketEvent × Clock)) (firstId : Uuid)
    (begin finish : Clock) : Calc ReplaySummary := do
  let s ← Session.new settings (.new settings.broadcast.queueDepth) firstId begin
  match (Session.replayAll events (begin.after 4)).run s with
  | .ok _ s => s.replaySummary finish
  | .error fault _ => throw fault

/-- The messages of a replay, if a subscriber can have a queue. -/
def replayMessages (settings : Settings) (events : List (MarketEvent × Clock)) (firstId : Uuid)
    (begin : Clock) : Calc (Outcome (List Message)) := do
  match (Hub.new settings.broadcast.queueDepth).subscribe none with
  | (.error e, _) => return .error e
  | (.ok subscriber, hub) =>
    let s ← Session.new settings hub firstId begin
    match (Session.replayFor subscriber events (begin.after 4)).run s with
    | .ok messages _ => return .ok messages
    | .error fault _ => throw fault

end Settings

end SimBroker
