import SimBroker.Settings
import SimBroker.Proofs.Json.Codec

/-!
# Settings read back

The sections of the settings are records of decimals, names, counters and truth values, and are read
back like other records.  The streak of losses has 32 bits and the port 16; the other counters have
64.

## Main results

* the instances of `Json.LawfulCodec` for `Settings` and its sections
-/

namespace SimBroker

open Json (Atom Fits LawfulCodec Parts encode mapDecimals mapDecimals_comp natBelow? natBelow?_int
  Uncounted record str_ne_null)

instance : Atom SizingMethod := ⟨fun _ m => by cases m <;> rfl, fun m => str_ne_null m.name⟩

/-! ## Sections -/

instance : Parts AccountSettings where
  mapDecimals f s :=
    { s with
      initialBalance := f s.initialBalance
      commissionRate := f s.commissionRate
      slippage := f s.slippage }

instance : Uncounted AccountSettings := ⟨fun _ => trivial⟩

instance : LawfulCodec AccountSettings where
  mapDecimals_comp _ _ _ := rfl
  read?_encode place s _ := by
    show record _ place (.obj _) = _
    simp [record]
    rfl

instance : Parts RiskSettings where
  mapDecimals f s :=
    { s with
      maxRiskPerTrade := f s.maxRiskPerTrade
      maxPositionSize := f s.maxPositionSize
      maxPositionValue := f s.maxPositionValue
      maxLeverage := f s.maxLeverage
      minRiskReward := f s.minRiskReward
      maxDrawdownPct := f s.maxDrawdownPct
      maxDailyLossPct := f s.maxDailyLossPct
      maxWeeklyLossPct := f s.maxWeeklyLossPct
      warningThreshold := f s.warningThreshold
      atrMultiplier := f s.atrMultiplier
      defaultFraction := f s.defaultFraction
      correlationPenalty := f s.correlationPenalty
      stepSize := f s.stepSize }
  Fits s :=
    Fits s.maxOpenPositions ∧ Fits s.maxPositionsPerSymbol ∧
      s.maxConsecutiveLosses < UInt32.size ∧ Fits s.haltDurationSecs ∧ Fits s.tradeHistory

instance : LawfulCodec RiskSettings where
  mapDecimals_comp _ _ _ := rfl
  read?_encode place s h := by
    obtain ⟨hopen, hsymbol, hlosses, hhalt, hhistory⟩ := h
    have hlosses : natBelow? UInt32.size place (encode s.maxConsecutiveLosses) =
      some s.maxConsecutiveLosses := natBelow?_int hlosses
    show record RiskSettings.read place (.obj _) = _
    simp [record, RiskSettings.read, hopen, hsymbol, hlosses, hhalt, hhistory]
    rfl

instance : Parts SessionSettings where
  mapDecimals _ s := s
  Fits s := Fits s.signalHistory ∧ Fits s.maxErrors

instance : LawfulCodec SessionSettings where
  mapDecimals_comp _ _ _ := rfl
  read?_encode place s h := by
    show record _ place (.obj _) = _
    simp [record, h.1, h.2]
    rfl

instance : Parts BroadcastSettings where
  mapDecimals _ s := s
  Fits s := Fits s.queueDepth

instance : LawfulCodec BroadcastSettings where
  mapDecimals_comp _ _ _ := rfl
  read?_encode place s h := by
    have hdepth : Fits s.queueDepth := h
    show record _ place (.obj _) = _
    simp [record, hdepth]
    rfl

instance : Parts TelemetrySettings where
  mapDecimals _ s := s
  Fits s := ∀ port ∈ s.metricsPort, port < UInt16.size

instance : LawfulCodec TelemetrySettings where
  mapDecimals_comp _ _ _ := rfl
  read?_encode place s h := by
    obtain ⟨port, logLevel, jsonLogs⟩ := s
    show record _ place (.obj _) = _
    cases port with
    | none =>
      simp [record]
      rfl
    | some port =>
      have hport : natBelow? UInt16.size place (encode (some port)) = some port :=
        natBelow?_int (h port rfl)
      simp [record, hport]
      rfl

/-! ## The whole configuration -/

instance : Parts Settings where
  mapDecimals f s :=
    { s with account := mapDecimals f s.account, risk := mapDecimals f s.risk }
  Fits s := Fits s.risk ∧ Fits s.session ∧ Fits s.broadcast ∧ Fits s.telemetry

instance : LawfulCodec Settings where
  mapDecimals_comp _ _ _ := rfl
  read?_encode place s h := by
    obtain ⟨hrisk, hsession, hbroadcast, htelemetry⟩ := h
    show record _ place (.obj _) = _
    simp [record, hrisk, hsession, hbroadcast, htelemetry]
    rfl

end SimBroker
