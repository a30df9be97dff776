import SimBroker.Settings
import SimBroker.TradingError

/-!
# Drawdown and loss windows

The monitor follows the equity of an account from its peak, and the realized profit of the current
day and ISO week.  From these it says when a limit is exceeded and when one is close.
-/

namespace SimBroker

/-- The equity and the realized profit that limits are measured against. -/
structure DrawdownMonitor where
  peakEquity : Decimal
  currentEquity : Decimal
  /-- The worst drawdown so far. -/
  maxDrawdown : Decimal
  /-- The equity when the day began. -/
  dailyStartEquity : Decimal
  /-- The equity when the week began. -/
  weeklyStartEquity : Decimal
  dailyPnl : Decimal
  weeklyPnl : Decimal
  day : Int
  week : Int
  deriving DecidableEq

/-- A metric that has come close to its limit. -/
structure RiskWarning where
  metric : String
  value : Decimal
  limit : Decimal
  deriving DecidableEq

namespace DrawdownMonitor

/-- A monitor that starts from an equity. -/
def new (equity : Decimal) (now : Instant) : DrawdownMonitor where
  peakEquity := equity
  currentEquity := equity
  maxDrawdown := 0
  dailyStartEquity := equity
  weeklyStartEquity := equity
  dailyPnl := 0
  weeklyPnl := 0
  day := now.day
  week := now.week

/-- Begins another day. -/
def rollDay (m : DrawdownMonitor) (day : Int) : DrawdownMonitor :=
  if day = m.day then m else { m with day, dailyStartEquity := m.currentEquity, dailyPnl := 0 }

/-- Begins another week. -/
def rollWeek (m : DrawdownMonitor) (week : Int) : DrawdownMonitor :=
  if week = m.week then m
  else { m with week, weeklyStartEquity := m.currentEquity, weeklyPnl := 0 }

/-- Begins another day or week when `now` is not in the current one. -/
def roll (m : DrawdownMonitor) (now : Instant) : DrawdownMonitor :=
  (m.rollDay now.day).rollWeek now.week

/-- How far the equity is below its peak, as a fraction of the peak. -/
def currentDrawdown (m : DrawdownMonitor) : Calc Decimal := do
  if m.peakEquity ≤ 0 then return 0
  else return (← (← m.peakEquity.sub m.currentEquity).div m.peakEquity).max 0

/-- Takes a new equity. -/
def update (m : DrawdownMonitor) (equity : Decimal) (now : Instant) : Calc DrawdownMonitor := do
  let m := m.roll now
  let m := { m with
    currentEquity := equity
    peakEquity := if m.peakEquity < equity then equity else m.peakEquity }
  let drawdown ← m.currentDrawdown
  return if m.maxDrawdown < drawdown then { m with maxDrawdown := drawdown } else m

/-- Adds a realized profit to the day and the week. -/
def recordPnl (m : DrawdownMonitor) (pnl : Decimal) (now : Instant) : Calc DrawdownMonitor := do
  let m := m.roll now
  let dailyPnl ← m.dailyPnl.add pnl
  let weeklyPnl ← m.weeklyPnl.add pnl
  return { m with dailyPnl, weeklyPnl }

/-- A loss as a fraction of a positive base; zero for a profit. -/
def lossFraction (pnl base : Decimal) : Calc Decimal := do
  if base ≤ 0 ∨ 0 ≤ pnl then return 0 else (-pnl).div base

/-- The loss of the day as a fraction of the equity when it began. -/
def dailyLoss (m : DrawdownMonitor) : Calc Decimal := lossFraction m.dailyPnl m.dailyStartEquity

/-- The loss of the week as a fraction of the equity when it began. -/
def weeklyLoss (m : DrawdownMonitor) : Calc Decimal :=
  lossFraction m.weeklyPnl m.weeklyStartEquity

/-- The limit that is exceeded, the loss of the day before that of the week before the drawdown. -/
def breach? (m : DrawdownMonitor) (limits : RiskSettings) : Calc (Option HaltReason) := do
  let daily ← m.dailyLoss
  if limits.maxDailyLossPct < daily then return some (.maxDailyLossReached daily)
  else
    let weekly ← m.weeklyLoss
    if limits.maxWeeklyLossPct < weekly then return some (.maxWeeklyLossReached weekly)
    else
      let drawdown ← m.currentDrawdown
      if limits.maxDrawdownPct < drawdown then return some (.maxDrawdownReached drawdown)
      else return none

/-- The first of some metrics that is positive and has reached its share of the limit. -/
def firstWarning? (threshold : Decimal) : List RiskWarning → Calc (Option RiskWarning)
  | [] => .ok none
  | w :: ws => do
    if 0 < w.value then
      if (← w.limit.mul threshold) ≤ w.value then return some w else firstWarning? threshold ws
    else firstWarning? threshold ws

/-- The first metric that is close to its limit. -/
def warning? (m : DrawdownMonitor) (limits : RiskSettings) : Calc (Option RiskWarning) := do
  let drawdown ← m.currentDrawdown
  let daily ← m.dailyLoss
  let weekly ← m.weeklyLoss
  firstWarning? limits.warningThreshold
    [⟨"drawdown", drawdown, limits.maxDrawdownPct⟩, ⟨"daily_loss", daily, limits.maxDailyLossPct⟩,
      ⟨"weekly_loss", weekly, limits.maxWeeklyLossPct⟩]

end DrawdownMonitor

end SimBroker
