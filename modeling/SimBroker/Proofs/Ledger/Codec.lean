import SimBroker.Ledger.Report
import SimBroker.Proofs.Json.Codec

/-!
# Reports of the ledger read back

Orders, positions, trades and what is made of them are read back.  The counters are the ids of
positions and the numbers of a summary.

## Main results

* the instances of `Json.LawfulCodec` for the records of the ledger and for `LedgerEvent`
-/

namespace SimBroker

open Json (Atom Fits LawfulCodec NotNull Parts Uncounted mapDecimals mapDecimals_comp obj_ne_null
  record str_ne_null tagged_cons)

/-! ## Cases without data -/

instance : Atom OrderSide := ⟨fun _ s => by cases s <;> rfl, fun s => str_ne_null s.name⟩

instance : Atom PositionSide := ⟨fun _ s => by cases s <;> rfl, fun s => str_ne_null s.name⟩

instance : Atom OrderType := ⟨fun _ t => by cases t <;> rfl, fun t => str_ne_null t.name⟩

instance : Atom OrderStatus := ⟨fun _ s => by cases s <;> rfl, fun s => str_ne_null s.name⟩

instance : Atom TriggerKind := ⟨fun _ k => by cases k <;> rfl, fun k => str_ne_null k.name⟩

instance : Atom PositionChange := ⟨fun _ c => by cases c <;> rfl, fun c => str_ne_null c.name⟩

/-! ## Orders -/

instance : Parts OrderRequest where
  mapDecimals f r :=
    { r with
      quantity := f r.quantity
      limitPrice := r.limitPrice.map f
      stopLoss := r.stopLoss.map f
      takeProfit := r.takeProfit.map f }

instance : Uncounted OrderRequest := ⟨fun _ => trivial⟩

instance : LawfulCodec OrderRequest where
  mapDecimals_comp f g r := by simp [mapDecimals]
  read?_encode place r _ := by
    show record OrderRequest.read place (.obj _) = _
    simp [record, OrderRequest.read]
    rfl

instance : Parts Order where
  mapDecimals f o :=
    { o with
      quantity := f o.quantity
      limitPrice := o.limitPrice.map f
      filledQuantity := f o.filledQuantity
      avgFillPrice := f o.avgFillPrice
      commission := f o.commission }

instance : Uncounted Order := ⟨fun _ => trivial⟩

instance : LawfulCodec Order where
  mapDecimals_comp f g o := by simp [mapDecimals]
  read?_encode place o _ := by
    show record Order.read place (.obj _) = _
    simp [record, Order.read]
    rfl

/-! ## Positions and trades -/

instance : Parts Position where
  mapDecimals f p :=
    { p with
      quantity := f p.quantity
      entryPrice := f p.entryPrice
      currentPrice := f p.currentPrice
      stopLoss := p.stopLoss.map f
      takeProfit := p.takeProfit.map f
      realizedPnl := f p.realizedPnl
      unrealizedPnl := f p.unrealizedPnl
      unrealizedPnlPct := f p.unrealizedPnlPct }
  Fits p := Fits p.id

instance : NotNull Position := ⟨fun _ => obj_ne_null _⟩

instance : LawfulCodec Position where
  mapDecimals_comp f g p := by simp [mapDecimals]
  read?_encode place p h := by
    have hid : Fits p.id := h
    show record Position.read place (.obj _) = _
    simp [record, Position.read, hid]
    rfl

instance : Parts Trade where
  mapDecimals f t :=
    { t with
      quantity := f t.quantity
      price := f t.price
      commission := f t.commission
      realizedPnl := f t.realizedPnl }
  Fits t := Fits t.positionId

instance : NotNull Trade := ⟨fun _ => obj_ne_null _⟩

instance : LawfulCodec Trade where
  mapDecimals_comp _ _ _ := rfl
  read?_encode place t h := by
    have hposition : Fits t.positionId := h
    show record Trade.read place (.obj _) = _
    simp [record, Trade.read, hposition]
    rfl

instance : Parts Execution where
  mapDecimals f e := ⟨mapDecimals f e.order, mapDecimals f e.trades, mapDecimals f e.position⟩
  Fits e := Fits e.trades ∧ Fits e.position

instance : LawfulCodec Execution where
  mapDecimals_comp f g e := by
    show Execution.mk (mapDecimals f (mapDecimals g e.order))
      (mapDecimals f (mapDecimals g e.trades)) (mapDecimals f (mapDecimals g e.position)) = _
    simp only [mapDecimals_comp]
    rfl
  read?_encode place e h := by
    obtain ⟨htrades, hposition⟩ := h
    show record _ place (.obj _) = _
    simp [record, htrades, hposition]
    rfl

/-! ## Accounts -/

instance : Parts AccountSummary where
  mapDecimals f a :=
    { a with
      initialBalance := f a.initialBalance
      freeBalance := f a.freeBalance
      equity := f a.equity
      unrealizedPnl := f a.unrealizedPnl
      realizedPnl := f a.realizedPnl
      totalCommission := f a.totalCommission }
  Fits a := Fits a.openPositions ∧ Fits a.openOrders ∧ Fits a.totalTrades

instance : LawfulCodec AccountSummary where
  mapDecimals_comp _ _ _ := rfl
  read?_encode place a h := by
    obtain ⟨hpositions, horders, htrades⟩ := h
    show record AccountSummary.read place (.obj _) = _
    simp [record, AccountSummary.read, hpositions, horders, htrades]
    rfl

/-! ## Events -/

instance : Parts LedgerEvent where
  mapDecimals f
    | .orderFilled o => .orderFilled (mapDecimals f o)
    | .orderCanceled o => .orderCanceled (mapDecimals f o)
    | .position c p t => .position c (mapDecimals f p) (mapDecimals f t)
    | .exitTriggered id s k p => .exitTriggered id s k (f p)
  Fits
    | .orderFilled _ => True
    | .orderCanceled _ => True
    | .position _ p t => Fits p ∧ Fits t
    | .exitTriggered id _ _ _ => Fits id

instance : LawfulCodec LedgerEvent where
  mapDecimals_comp f g e := by
    cases e with
    | orderFilled o => exact congrArg LedgerEvent.orderFilled (mapDecimals_comp f g o)
    | orderCanceled o => exact congrArg LedgerEvent.orderCanceled (mapDecimals_comp f g o)
    | position c p t =>
      exact congrArg₂ (LedgerEvent.position c) (mapDecimals_comp f g p) (mapDecimals_comp f g t)
    | exitTriggered => rfl
  read?_encode place e h := by
    cases e with
    | orderFilled o =>
      refine (tagged_cons (by simp) rfl).trans ?_
      simp
      rfl
    | orderCanceled o =>
      refine (tagged_cons (by simp) rfl).trans ?_
      simp
      rfl
    | position c p t =>
      obtain ⟨hposition, htrade⟩ := h
      refine (tagged_cons (by simp) rfl).trans ?_
      simp [hposition, htrade]
      rfl
    | exitTriggered id s k p =>
      have hid : Fits id := h
      refine (tagged_cons (by simp) rfl).trans ?_
      simp [hid]
      rfl

end SimBroker
