import SimBroker.Market.Feed
import SimBroker.Session.Operations
import SimBroker.Toml.Basic
import SimBroker.Toml.Document
import SimBroker.Toml.Parser
import SimBroker.Settings.Toml
import SimBroker.CommandLine
import SimBroker.Session.Replay
import SimBroker.Main
import SimBroker.Proofs.Decimal.Nearest
import SimBroker.Proofs.Decimal.Rounding
import SimBroker.Proofs.Position
import SimBroker.Proofs.Ledger.Fill
import SimBroker.Proofs.Ledger.Step
import SimBroker.Proofs.Ledger.Consistent
import SimBroker.Proofs.Ledger.Replay
import SimBroker.Proofs.Table
import SimBroker.Proofs.Decimal.Exact
import SimBroker.Proofs.Ledger.Accounting
import SimBroker.Proofs.Ledger.Exit
import SimBroker.Proofs.Ledger.Interleaving
import SimBroker.Proofs.Ledger.Events
import SimBroker.Proofs.Ledger.ExitTrades
import SimBroker.Proofs.Risk.Log
import SimBroker.Proofs.Session.Action
import SimBroker.Proofs.Risk.Manager
import SimBroker.Proofs.Risk.Evaluate
import SimBroker.Proofs.Session.Sync
import SimBroker.Proofs.Session.Call
import SimBroker.Proofs.Session.Status
import SimBroker.Proofs.Session.Orders
import SimBroker.Proofs.Session.Recorded
import SimBroker.Proofs.Session.Delivery
import SimBroker.Proofs.Broadcast.Subscriber
import SimBroker.Proofs.Broadcast.Hub
import SimBroker.Proofs.Broadcast.Delivery
import SimBroker.Proofs.Ledger.Entries
import SimBroker.Proofs.Session.Entries
import SimBroker.Proofs.Decimal.Division
import SimBroker.Proofs.Risk.Loss
import SimBroker.Proofs.Risk.Halts
import SimBroker.Proofs.Risk.Level
import SimBroker.Proofs.Ledger.Solvency
import SimBroker.Proofs.Ledger.Refusals
import SimBroker.Proofs.Session.Messages
import SimBroker.Proofs.Session.Signals
import SimBroker.Proofs.Session.Audit
import SimBroker.Proofs.Session.Snapshot
import SimBroker.Proofs.Session.RunState
import SimBroker.Proofs.Session.Day
import SimBroker.Proofs.Json.RoundTrip
import SimBroker.Proofs.Market.Feed
import SimBroker.Proofs.Settings.Toml
import SimBroker.Proofs.Decimal.HalfEven
import SimBroker.Proofs.Decimal.Monotone
import SimBroker.Proofs.Ledger.NetPosition
import SimBroker.Proofs.Risk.Caps
import SimBroker.Proofs.Risk.Steps
import SimBroker.Proofs.Risk.Drawdown
import SimBroker.Proofs.Risk.LossWindows
import SimBroker.Proofs.Risk.Divisors
import SimBroker.Proofs.Risk.Journal
import SimBroker.Proofs.Risk.Streak
import SimBroker.Proofs.Ledger.Changes
import SimBroker.Proofs.Ledger.Divisors
import SimBroker.Proofs.Ledger.Marks
import SimBroker.Proofs.Ledger.Close
import SimBroker.Proofs.Ledger.Isolation
import SimBroker.Proofs.Decimal.Overflow
import SimBroker.Proofs.Decimal.Shares
import SimBroker.Proofs.Ledger.CommissionSplit
import SimBroker.Proofs.Ledger.MarkOverflow
import SimBroker.Proofs.Session.OpenPositions
import SimBroker.Proofs.Ledger.OrderList
import SimBroker.Proofs.Risk.Adjustments
import SimBroker.Proofs.Broadcast.Dropped
import SimBroker.Proofs.Risk.Counters
import SimBroker.Proofs.Ledger.FillCounts
import SimBroker.Proofs.Session.Violations
import SimBroker.Proofs.Session.Counters
import SimBroker.Proofs.Instant.Clock
