import SimBroker.Session.Basic

/-!
# Operations of a session

The calls that a session answers: run state, signals and market data, manual trading, and settings
of the dashboard.
-/

namespace SimBroker

namespace Session

/-! ## Run state -/

/-- Changes the run state to `target` from one of the states `sources`. -/
def transition (action : String) (sources : List TradingStatus) (target : TradingStatus)
    (clock : Clock) : Action (Outcome TradingStatus) := do
  let status := (← get).status
  if sources.contains status then
    modify fun s => { s with status := target }
    sync clock
    return .ok target
  else return .error (.invalidState s!"cannot {action} while {status.name}")

/-- Starts a stopped session. -/
def start (clock : Clock) : Action (Outcome TradingStatus) :=
  transition "start" [.stopped] .running clock

/-- Pauses a running session. -/
def pause (clock : Clock) : Action (Outcome TradingStatus) :=
  transition "pause" [.running] .paused clock

/-- Resumes a paused session. -/
def resume (clock : Clock) : Action (Outcome TradingStatus) :=
  transition "resume" [.paused] .running clock

/-- Stops a session. -/
def stop (clock : Clock) : Action (Outcome TradingStatus) :=
  transition "stop" [.stopped, .running, .paused, .halted] .stopped clock

/-- Lifts a halt by hand; a halted session runs again, unless a limit is still exceeded. -/
def resetCircuitBreaker (clock : Clock) : Action TradingStatus := do
  modify fun s =>
    { s with
      risk := s.risk.reset (clock 0)
      status := if s.status = .halted then .running else s.status }
  sync (clock.after 1)
  return (← get).status

/-! ## The ledger and the risk manager as parts of the session -/

/-- Carries out an operation of the ledger. -/
def onLedger {α : Type} (f : Ledger → Calc (Ledger × α)) : Action α := do
  let (ledger, a) ← compute (f (← get).ledger)
  modify fun s => { s with ledger }
  return a

/-- Evaluates a signal against the account. -/
def evaluate (signal : Signal) (clock : Clock) : Action (Outcome Approval) := do
  let account ← compute ((← get).ledger.summary (clock 0))
  let (risk, outcome) ← compute ((← get).risk.evaluate signal account.exposure (clock 1))
  modify fun s => { s with risk }
  return outcome

/-! ## Signals and market data -/

/-- Evaluates a signal, and places its order if it is approved.  It looks at the run state again,
which may have changed while the signal had to wait for its turn. -/
def evaluateAndPlace (signal : Signal) (clock : Clock) : Action (Outcome SignalOutcome) := do
  let status := (← get).status
  if status ≠ .running then return .ok (.ignored status)
  else
    match ← evaluate signal clock with
    | .error (.riskRejected reason) => return .ok (.rejected reason.message)
    | .error e => return .error e
    | .ok approval =>
      match ← onLedger (·.place approval.toOrderRequest (clock 2)) with
      | .error e => return .error e
      | .ok execution => return .ok (.executed execution.order.id approval.size)

/-- Takes a signal.  Its outcome says what became of it; only a fatal error is an error of the
call. -/
def onSignal (signal : Signal) (clock : Clock) : Action (Outcome SignalOutcome) := do
  let status := (← get).status
  if status ≠ .running then
    recordSignal signal (.ignored status) clock
    return .ok (.ignored status)
  else
    match ← evaluateAndPlace signal clock with
    | .ok outcome =>
      recordSignal signal outcome (clock.after 3)
      sync (clock.after 5)
      return .ok outcome
    | .error e =>
      handleError "signal" e (clock.after 3)
      recordSignal signal (.failed e.message) (clock.after 6)
      sync (clock.after 8)
      return if e.isFatal then .error e else .ok (.failed e.message)

/-- The first step of a price update: records the price and marks the position. -/
def markPrice (tick : PriceTick) : Action (Outcome (Option Ledger.Trigger)) :=
  onLedger (·.recordPrice tick.symbol tick.price tick.timestamp)

/-- Closes the position whose exit the mark has found crossed. -/
def closeTriggered (timestamp : Instant) :
    Outcome (Option Ledger.Trigger) → Action (Outcome (Option Execution))
  | .ok (some trigger) => onLedger (·.executeTrigger trigger timestamp)
  | .ok none => return .ok none
  | .error e => return .error e

/-- The second step of a price update: closes a position whose exit was crossed, and tells the
subscribers.  Other calls may come between the two steps. -/
def finishPrice (tick : PriceTick) (marked : Outcome (Option Ledger.Trigger)) (clock : Clock) :
    Action (Outcome (Option Execution)) := do
  let outcome ← closeTriggered tick.timestamp marked
  match outcome with
  | .error e => handleError "price" e clock
  | .ok _ => publish (.price tick) (clock 0)
  sync (clock.after 3)
  return outcome

/-- Takes a reference price, which may close a position. -/
def updatePrice (tick : PriceTick) (clock : Clock) : Action (Outcome (Option Execution)) := do
  finishPrice tick (← markPrice tick) clock

/-- The second step of taking a candle. -/
def finishCandle (candle : Candle) (marked : Outcome (Option Ledger.Trigger)) (clock : Clock) :
    Action (Outcome (Option Execution)) := do
  let outcome ← closeTriggered candle.closeTime marked
  match outcome with
  | .error e => handleError "candle" e clock
  | .ok _ => pure ()
  publish (.candle candle) (clock 3)
  sync (clock.after 4)
  return outcome

/-- Takes a closed candle as a price. -/
def onCandle (candle : Candle) (clock : Clock) : Action (Outcome (Option Execution)) := do
  finishCandle candle (← markPrice candle.tick) clock

/-- Passes indicator values on to the subscribers. -/
def publishIndicators (snapshot : IndicatorSnapshot) (clock : Clock) : Action Unit :=
  publish (.indicators snapshot) (clock 0)

/-- Takes one market event, and goes on after an error. -/
def onEvent (event : MarketEvent) (clock : Clock) : Action Unit := do
  match event with
  | .price tick => discard (updatePrice tick clock)
  | .candle candle => discard (onCandle candle clock)
  | .signal signal => discard (onSignal signal clock)

/-- Takes market events in order, each at its time. -/
def replay (events : List (MarketEvent × Clock)) : Action Unit :=
  events.forM fun e => onEvent e.1 e.2

/-! ## Manual trading -/

/-- Carries out a manual operation of the ledger, and handles a fatal error. -/
def manual {α : Type} (source : String) (f : Instant → Ledger → Calc (Ledger × Outcome α))
    (clock : Clock) : Action (Outcome α) := do
  let outcome ← onLedger (f (clock 0))
  match outcome with
  | .error e => if e.isFatal then handleError source e (clock.after 1)
  | .ok _ => pure ()
  sync (clock.after 4)
  return outcome

/-- Places an order without evaluation; refused while the session is halted. -/
def placeOrder (request : OrderRequest) (clock : Clock) : Action (Outcome Execution) := do
  if (← get).status = .halted then return .error (.riskRejected .tradingHalted)
  else manual "place_order" (fun now l => l.place request now) clock

/-- Cancels an order. -/
def cancelOrder (id : Uuid) (clock : Clock) : Action (Outcome Order) :=
  manual "cancel_order" (fun _ l => .ok (l.cancel id)) clock

/-- Closes a position. -/
def closePosition (id : Nat) (clock : Clock) : Action (Outcome Execution) :=
  manual "close_position" (fun now l => l.close id now) clock

/-- Moves an exit of a position. -/
def setExit (id : Nat) (kind : TriggerKind) (price : Decimal) (clock : Clock) :
    Action (Outcome Position) :=
  manual s!"update_{kind.name}" (fun now l => .ok (l.setExit id kind price now)) clock

/-! ## The dashboard -/

/-- Names the active strategies. -/
def setStrategies (names : List String) (clock : Clock) : Action Unit := do
  modify fun s => { s with strategies := names }
  sync clock

/-- Names the market regime. -/
def setRegime (label : Option String) (clock : Clock) : Action Unit := do
  modify fun s => { s with regime := label }
  sync clock

/-- Takes an error from outside. -/
def reportError (source message : String) (clock : Clock) : Action Unit := do
  pushError source message clock
  sync (clock.after 2)

/-! ## Runs -/

/-- A call that may change the session. -/
inductive Call where
  | start
  | pause
  | resume
  | stop
  | resetCircuitBreaker
  | signal (signal : Signal)
  | price (tick : PriceTick)
  | candle (candle : Candle)
  /-- The first step of a price update or of a candle alone. -/
  | mark (tick : PriceTick)
  /-- The second step of a price update alone. -/
  | finishPrice (tick : PriceTick) (marked : Outcome (Option Ledger.Trigger))
  /-- The second step of a candle alone. -/
  | finishCandle (candle : Candle) (marked : Outcome (Option Ledger.Trigger))
  | indicators (snapshot : IndicatorSnapshot)
  | place (request : OrderRequest)
  | cancel (id : Uuid)
  | close (id : Nat)
  | setExit (id : Nat) (kind : TriggerKind) (price : Decimal)
  | strategies (names : List String)
  | regime (label : Option String)
  | reportError (source message : String)

/-- Carries out one call, for its effect. -/
def perform (call : Call) (clock : Clock) : Action Unit :=
  match call with
  | .start => discard (start clock)
  | .pause => discard (pause clock)
  | .resume => discard (resume clock)
  | .stop => discard (stop clock)
  | .resetCircuitBreaker => discard (resetCircuitBreaker clock)
  | .signal s => discard (onSignal s clock)
  | .price tick => discard (updatePrice tick clock)
  | .candle c => discard (onCandle c clock)
  | .mark tick => discard (markPrice tick)
  | .finishPrice tick marked => discard (finishPrice tick marked clock)
  | .finishCandle c marked => discard (finishCandle c marked clock)
  | .indicators v => publishIndicators v clock
  | .place request => discard (placeOrder request clock)
  | .cancel id => discard (cancelOrder id clock)
  | .close id => discard (closePosition id clock)
  | .setExit id kind price => discard (setExit id kind price clock)
  | .strategies names => setStrategies names clock
  | .regime label => setRegime label clock
  | .reportError source message => reportError source message clock

/-- Carries out calls in order, each with its clock. -/
def runCalls (calls : List (Call × Clock)) : Action Unit :=
  calls.forM fun c => perform c.1 c.2

end Session

end SimBroker
