import SimBroker.Proofs.Session.Codec

/-!
# Records read back

Every record that is kept or broadcast is read back from the JSON that is written for it, equal by
the values of its decimals.  The unions among the records name their case beside other fields, and
no two of these names are equal.

## Main results

* `Json.records_roundTrip`: what is written is read back
-/

namespace SimBroker

namespace Json

/-- The names of the members of an object. -/
def names (j : Json) : List String := j.members.map Prod.fst

theorem nodup_names_riskEvent (e : RiskEvent) : (names (encode e)).Nodup := by
  show ((e.decision.members ++ [("timestamp", encode e.timestamp)]).map Prod.fst).Nodup
  cases e.decision <;> simp [RiskDecision.members]

theorem nodup_names_signalRecord (r : SignalRecord) : (names (encode r)).Nodup := by
  show ((("signal", encode r.signal) :: r.outcome.members ++
    [("received_at", encode r.receivedAt)]).map Prod.fst).Nodup
  cases r.outcome <;> simp [SignalOutcome.members]

theorem nodup_names_ledgerEvent (e : LedgerEvent) : (names (encode e)).Nodup := by
  cases e <;> simp [names, members, encode]

theorem nodup_names_haltReason (r : HaltReason) : (names (encode r)).Nodup := by
  cases r <;> simp [names, members, encode]

/-- Every record is read back, and the names of a tagged or flattened union are distinct. -/
theorem records_roundTrip :
    (RoundTrips OrderRequest ∧ RoundTrips Order ∧ RoundTrips Position ∧ RoundTrips Trade ∧
      RoundTrips Execution ∧ RoundTrips AccountSummary ∧ RoundTrips LedgerEvent ∧
      RoundTrips Sizing ∧ RoundTrips Approval ∧ RoundTrips HaltReason ∧ RoundTrips RiskEvent ∧
      RoundTrips RiskStatus ∧ RoundTrips DrawdownInfo ∧ RoundTrips SignalOutcome ∧
      RoundTrips SignalRecord ∧ RoundTrips ErrorRecord ∧ RoundTrips TradingState) ∧
    (∀ e : RiskEvent, (names (encode e)).Nodup) ∧ (∀ r : SignalRecord, (names (encode r)).Nodup) ∧
      (∀ e : LedgerEvent, (names (encode e)).Nodup) ∧
      ∀ r : HaltReason, (names (encode r)).Nodup :=
  ⟨⟨LawfulCodec.roundTrips, LawfulCodec.roundTrips, LawfulCodec.roundTrips,
      LawfulCodec.roundTrips, LawfulCodec.roundTrips, LawfulCodec.roundTrips,
      LawfulCodec.roundTrips, LawfulCodec.roundTrips, LawfulCodec.roundTrips,
      LawfulCodec.roundTrips, LawfulCodec.roundTrips, LawfulCodec.roundTrips,
      LawfulCodec.roundTrips, LawfulCodec.roundTrips, LawfulCodec.roundTrips,
      LawfulCodec.roundTrips, LawfulCodec.roundTrips⟩,
    nodup_names_riskEvent, nodup_names_signalRecord, nodup_names_ledgerEvent,
    nodup_names_haltReason⟩

/-- The trading state of a session that five losses have halted is read back. -/
theorem records_roundTrip_halted : ∃ s : TradingState,
    s.risk.haltReason = some (.consecutiveLosses 5) ∧ Fits s ∧
      ∃ b, decode? (encode s) = some b ∧ SameValues b s := by
  let account : AccountSummary := {
    quoteAsset := "USDT", initialBalance := .lit 100000 0, freeBalance := .lit 992505 1
    equity := .lit 992505 1, unrealizedPnl := 0, realizedPnl := -.lit 7495 1
    totalCommission := .lit 0 3, openPositions := 0, openOrders := 0, totalTrades := 10
    openSymbols := [], timestamp := .epoch }
  let risk : RiskStatus := {
    level := .halted, equity := .lit 992505 1, peakEquity := .lit 100000 0
    currentDrawdown := .lit 7495 6, maxDrawdown := .lit 7495 6, dailyPnl := -.lit 7495 1
    weeklyPnl := -.lit 7495 1, consecutiveLosses := 5, totalTrades := 5, halted := true
    haltReason := some (.consecutiveLosses 5), haltedUntil := none, timestamp := .epoch }
  have hsmall {n : Nat} (h : n < 11) : Fits n := Nat.lt_trans h (by decide)
  have hreason : Fits risk.haltReason := fun r hr => by
    cases hr
    exact (by decide : 5 < UInt32.size)
  have haccount : Fits account := ⟨hsmall (by decide), hsmall (by decide), hsmall (by decide)⟩
  have hrisk : Fits risk := ⟨by decide, hsmall (by decide), hreason⟩
  let state : TradingState := {
    status := .halted, account, risk, openPositions := 0, openOrders := 0, totalTrades := 10
    lastSignal := none, activeStrategies := [], regime := none, errors := []
    updatedAt := .epoch }
  have hstate : Fits state :=
    ⟨haccount, hrisk, hsmall (by decide), hsmall (by decide), hsmall (by decide)⟩
  have hroundTrip : RoundTrips TradingState := by simp only [records_roundTrip]
  exact ⟨state, rfl, hstate, hroundTrip state hstate⟩

end Json

end SimBroker
