import SimBroker.Risk.Report
import SimBroker.Proofs.Market.Codec

/-!
# Reports of the risk manager read back

Sizes, approvals, halts and the events of the risk manager are read back.  A decision stands among
the members of its event; the name of its case and those of its fields are no other's.

## Main results

* the instances of `Json.LawfulCodec` for the records of the risk manager, `HaltReason` and
  `RiskEvent`
-/

namespace SimBroker

open Json (Atom Fits LawfulCodec NotNull Parts Uncounted content_pair encode mapDecimals
  mapDecimals_comp natBelow? natBelow?_int obj_ne_null read?_encode record str_ne_null tagged
  tagged_cons valuesOf)

/-! ## Cases without data -/

instance : Atom SizeLimit := ⟨fun _ l => by cases l <;> rfl, fun l => str_ne_null l.name⟩

instance : Atom RiskLevel := ⟨fun _ l => by cases l <;> rfl, fun l => str_ne_null l.name⟩

instance : Atom RejectReason := ⟨fun _ r => by cases r <;> rfl, fun r => str_ne_null r.name⟩

/-! ## Sizes and approvals -/

instance : Parts Sizing where
  mapDecimals f s :=
    { s with
      size := f s.size
      entryPrice := f s.entryPrice
      stopPrice := f s.stopPrice
      stopDistance := f s.stopDistance
      value := f s.value
      riskAmount := f s.riskAmount }

instance : Uncounted Sizing := ⟨fun _ => trivial⟩

instance : LawfulCodec Sizing where
  mapDecimals_comp _ _ _ := rfl
  read?_encode place s _ := by
    show record _ place (.obj _) = _
    simp [record]
    rfl

instance : Parts Approval where
  mapDecimals f a :=
    ⟨mapDecimals f a.signal, f a.size, mapDecimals f a.sizing, f a.riskReward⟩

instance : Uncounted Approval := ⟨fun _ => trivial⟩

instance : LawfulCodec Approval where
  mapDecimals_comp f g a := by
    show Approval.mk (mapDecimals f (mapDecimals g a.signal)) _
      (mapDecimals f (mapDecimals g a.sizing)) _ = _
    simp only [mapDecimals_comp]
    rfl
  read?_encode place a _ := by
    show record _ place (.obj _) = _
    simp [record]
    rfl

/-! ## Halts -/

instance : Parts HaltReason where
  mapDecimals f
    | .consecutiveLosses n => .consecutiveLosses n
    | .maxDrawdownReached d => .maxDrawdownReached (f d)
    | .maxDailyLossReached l => .maxDailyLossReached (f l)
    | .maxWeeklyLossReached l => .maxWeeklyLossReached (f l)
    | .invariantViolation m => .invariantViolation m
  Fits
    | .consecutiveLosses n => n < UInt32.size
    | _ => True

instance : NotNull HaltReason := ⟨fun r => by cases r <;> exact obj_ne_null _⟩

instance : LawfulCodec HaltReason where
  mapDecimals_comp _ _ r := by cases r <;> rfl
  read?_encode place r h := by
    cases r with
    | consecutiveLosses n =>
      exact content_pair (f := HaltReason.consecutiveLosses) (by simp) rfl (natBelow?_int h)
    | maxDrawdownReached d =>
      exact content_pair (f := HaltReason.maxDrawdownReached) (by simp) rfl
        (read?_encode place trivial)
    | maxDailyLossReached l =>
      exact content_pair (f := HaltReason.maxDailyLossReached) (by simp) rfl
        (read?_encode place trivial)
    | maxWeeklyLossReached l =>
      exact content_pair (f := HaltReason.maxWeeklyLossReached) (by simp) rfl
        (read?_encode place trivial)
    | invariantViolation m =>
      exact content_pair (f := HaltReason.invariantViolation) (by simp) rfl
        (read?_encode place trivial)

/-! ## Events -/

instance : Parts RiskDecision where
  mapDecimals f
    | .warning metric value limit => .warning metric (f value) (f limit)
    | .halted reason => .halted (mapDecimals f reason)
    | .resumed manual => .resumed manual
    | .rejected reason symbol => .rejected reason symbol
    | .recovered => .recovered
  Fits
    | .halted reason => Fits reason
    | _ => True

instance : Parts RiskEvent where
  mapDecimals f e := { e with decision := mapDecimals f e.decision }
  Fits e := Fits e.decision

/-- The members of a decision are its own, also when the time of its event stands among them. -/
theorem RiskDecision.tagged_members {d : RiskDecision} {time : Json} (h : Fits d) :
    tagged "kind" cases .union (.obj (d.members ++ [("timestamp", time)])) =
      some (mapDecimals Decimal.plain d) := by
  cases d with
  | warning metric value limit =>
    refine (tagged_cons (by simp) rfl).trans ?_
    simp
    rfl
  | halted reason =>
    have hreason : Fits reason := h
    refine (tagged_cons (by simp) rfl).trans ?_
    simp [hreason]
    rfl
  | resumed manual =>
    refine (tagged_cons (by simp) rfl).trans ?_
    simp
    rfl
  | rejected reason symbol =>
    refine (tagged_cons (by simp) rfl).trans ?_
    simp
    rfl
  | recovered =>
    refine (tagged_cons (by simp) rfl).trans ?_
    rfl

theorem RiskDecision.valuesOf_timestamp {d : RiskDecision} {time : Json} :
    valuesOf "timestamp" (d.members ++ [("timestamp", time)]) = [time] := by
  cases d <;> simp [members]

instance : LawfulCodec RiskEvent where
  mapDecimals_comp f g e := by
    obtain ⟨d, time⟩ := e
    cases d with
    | halted reason =>
      exact congrArg (fun reason => (⟨.halted reason, time⟩ : RiskEvent))
        (mapDecimals_comp f g reason)
    | _ => rfl
  read?_encode place e h := by
    show record _ place (.obj (e.decision.members ++ [("timestamp", encode e.timestamp)])) = _
    simp [record, RiskDecision.tagged_members h, RiskDecision.valuesOf_timestamp]
    rfl

/-! ## The state of the risk manager -/

instance : Parts RiskStatus where
  mapDecimals f s :=
    { s with
      equity := f s.equity
      peakEquity := f s.peakEquity
      currentDrawdown := f s.currentDrawdown
      maxDrawdown := f s.maxDrawdown
      dailyPnl := f s.dailyPnl
      weeklyPnl := f s.weeklyPnl
      haltReason := mapDecimals f s.haltReason }
  Fits s := s.consecutiveLosses < UInt32.size ∧ Fits s.totalTrades ∧ Fits s.haltReason

instance : LawfulCodec RiskStatus where
  mapDecimals_comp f g s :=
    congrArg (fun reason => { mapDecimals (f ∘ g) s with haltReason := reason })
      (mapDecimals_comp f g s.haltReason)
  read?_encode place s h := by
    obtain ⟨hlosses, htrades, hreason⟩ := h
    have hlosses : natBelow? UInt32.size place (encode s.consecutiveLosses) =
      some s.consecutiveLosses := natBelow?_int hlosses
    show record RiskStatus.read place (.obj _) = _
    simp [record, RiskStatus.read, hlosses, htrades, hreason]
    rfl

instance : Parts DrawdownInfo where
  mapDecimals f d :=
    ⟨f d.peakEquity, f d.currentEquity, f d.currentDrawdown, f d.maxDrawdown, f d.limit,
      f d.headroom, f d.dailyStartEquity, f d.weeklyStartEquity⟩

instance : Uncounted DrawdownInfo := ⟨fun _ => trivial⟩

instance : LawfulCodec DrawdownInfo where
  mapDecimals_comp _ _ _ := rfl
  read?_encode place d _ := by
    show record _ place (.obj _) = _
    simp [record]
    rfl

end SimBroker
