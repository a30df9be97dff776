import SimBroker.Session.Report
import SimBroker.Proofs.Ledger.Codec
import SimBroker.Proofs.Risk.Codec

/-!
# Reports of a session read back

The fates of signals, errors and the trading state are read back.  An outcome stands among the
members of its record, between the signal and the time.

## Main results

* the instances of `Json.LawfulCodec` for `SignalOutcome`, `SignalRecord`, `ErrorRecord` and
  `TradingState`
-/

namespace SimBroker

open Json (Atom Fits LawfulCodec NotNull Parts Uncounted encode mapDecimals mapDecimals_comp
  obj_ne_null record str_ne_null tagged tagged_cons tagged_obj valuesOf)

instance : Atom TradingStatus := ⟨fun _ s => by cases s <;> rfl, fun s => str_ne_null s.name⟩

/-! ## Signals -/

instance : Parts SignalOutcome where
  mapDecimals f
    | .ignored status => .ignored status
    | .executed orderId size => .executed orderId (f size)
    | .rejected reason => .rejected reason
    | .failed error => .failed error

instance : Uncounted SignalOutcome := ⟨fun _ => trivial⟩

/-- The members of an outcome are its own, also when the signal and the time of its record stand
among them. -/
theorem SignalOutcome.tagged_members {o : SignalOutcome} {signal time : Json} :
    tagged "outcome" cases .union
      (.obj (("signal", signal) :: (o.members ++ [("received_at", time)]))) =
        some (mapDecimals Decimal.plain o) := by
  cases o with
  | ignored status =>
    refine (tagged_obj "ignored" (by simp [members]) rfl).trans ?_
    simp [members]
    rfl
  | executed orderId size =>
    refine (tagged_obj "executed" (by simp [members]) rfl).trans ?_
    simp [members]
    rfl
  | rejected reason =>
    refine (tagged_obj "rejected" (by simp [members]) rfl).trans ?_
    simp [members]
    rfl
  | failed error =>
    refine (tagged_obj "failed" (by simp [members]) rfl).trans ?_
    simp [members]
    rfl

theorem SignalOutcome.valuesOf_signal {o : SignalOutcome} {time : Json} :
    valuesOf "signal" (o.members ++ [("received_at", time)]) = [] := by
  cases o <;> simp [members]

theorem SignalOutcome.valuesOf_receivedAt {o : SignalOutcome} {time : Json} :
    valuesOf "received_at" (o.members ++ [("received_at", time)]) = [time] := by
  cases o <;> simp [members]

instance : LawfulCodec SignalOutcome where
  mapDecimals_comp _ _ o := by cases o <;> rfl
  read?_encode place o _ := by
    cases o with
    | ignored status =>
      refine (tagged_cons (by simp) rfl).trans ?_
      simp
      rfl
    | executed orderId size =>
      refine (tagged_cons (by simp) rfl).trans ?_
      simp
      rfl
    | rejected reason =>
      refine (tagged_cons (by simp) rfl).trans ?_
      simp
      rfl
    | failed error =>
      refine (tagged_cons (by simp) rfl).trans ?_
      simp
      rfl

instance : Parts SignalRecord where
  mapDecimals f r :=
    { r with signal := mapDecimals f r.signal, outcome := mapDecimals f r.outcome }

instance : Uncounted SignalRecord := ⟨fun _ => trivial⟩

instance : NotNull SignalRecord := ⟨fun _ => obj_ne_null _⟩

instance : LawfulCodec SignalRecord where
  mapDecimals_comp f g r :=
    congrArg₂ (fun signal outcome => (⟨signal, outcome, r.receivedAt⟩ : SignalRecord))
      (mapDecimals_comp f g r.signal) (mapDecimals_comp f g r.outcome)
  read?_encode place r _ := by
    show record _ place (.obj (("signal", encode r.signal) :: (r.outcome.members ++
      [("received_at", encode r.receivedAt)]))) = _
    simp [record, SignalOutcome.tagged_members, SignalOutcome.valuesOf_signal,
      SignalOutcome.valuesOf_receivedAt]
    rfl

/-! ## Errors and the trading state -/

instance : Atom ErrorRecord where
  read?_encode_atom place e := by
    show record _ place (.obj _) = _
    simp [record]
  encode_atom_ne_null _ := obj_ne_null _

instance : Parts TradingState where
  mapDecimals f s :=
    { s with
      account := mapDecimals f s.account
      risk := mapDecimals f s.risk
      lastSignal := mapDecimals f s.lastSignal }
  Fits s :=
    Fits s.account ∧ Fits s.risk ∧ Fits s.openPositions ∧ Fits s.openOrders ∧ Fits s.totalTrades

instance : LawfulCodec TradingState where
  mapDecimals_comp f g s := by
    show ({ s with
      account := mapDecimals f (mapDecimals g s.account)
      risk := mapDecimals f (mapDecimals g s.risk)
      lastSignal := mapDecimals f (mapDecimals g s.lastSignal) } : TradingState) = _
    simp only [mapDecimals_comp]
    rfl
  read?_encode place s h := by
    obtain ⟨haccount, hrisk, hpositions, horders, htrades⟩ := h
    show record TradingState.read place (.obj _) = _
    simp [record, TradingState.read, haccount, hrisk, hpositions, horders, htrades]
    rfl

end SimBroker
