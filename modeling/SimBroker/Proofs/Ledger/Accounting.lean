import SimBroker.Proofs.Decimal.Exact
import SimBroker.Proofs.Ledger.Consistent
import SimBroker.Proofs.Table

/-!
# The accounting identity

Where the arithmetic is exact, the free balance and the entry value of what is held are the initial
balance, plus the profit realized, less the commission paid; and the free balance is the initial
balance and what each trade has brought.  Exactness is asked only of the operations that the two
identities rest on: prices, commissions, marks and what a position itself has realized may round.

## Main definitions

* `Holding.value`, `Trade.flow`: the entry value of a holding, and what a trade brings
* `ExactFill`, `ExactStep`: the operations of a fill are exact
* `Balanced`: the two identities

## Main results

* `Meets.value_sub`, `Meets.flow_sum`: what the legs of an order change
* `Balanced.filled`: a fill keeps the identities
* `run_balances`: they hold after every run, and what they say of equity
-/

namespace SimBroker

/-! ## Values -/

/-- `1` for a purchase, `-1` for a sale. -/
def OrderSide.sign : OrderSide → ℚ
  | buy => 1
  | sell => -1

theorem PositionSide.toRat_sign (side : PositionSide) : side.sign.toRat = side.entrySide.sign := by
  cases side with
  | long => exact Decimal.toRat_one
  | short =>
    show (-1 : Decimal).toRat = -1
    rw [Decimal.toRat_neg, Decimal.toRat_one]

theorem OrderSide.sign_of_ne {s t : OrderSide} (h : s ≠ t) : s.sign = -t.sign := by
  cases s <;> cases t <;> simp [sign] at h ⊢

/-- The entry value of what is held, negative for a short position. -/
def Holding.value (h : Holding) : ℚ := h.entryPrice.toRat * h.quantity.toRat * h.side.sign.toRat

/-- What a trade brings to the balance. -/
def Trade.flow (t : Trade) : ℚ :=
  -(t.side.sign * (t.quantity.toRat * t.price.toRat)) - t.commission.toRat

/-! ## What is calculated -/

namespace Position

/-- The profit of `quantity` at a price, as `gain` calculates it. -/
def gainFormula (p : Position) (price quantity : Decimal) : Formula :=
  (price - p.entryPrice : Formula) * quantity * p.side.sign

theorem eval_gainFormula (p : Position) (price quantity : Decimal) :
    (p.gainFormula price quantity).eval = p.gain price quantity := by
  simp [gainFormula, gain]

/-- The average of two entries, as `averageEntry` calculates it. -/
def averageFormula (entry quantity price more total : Decimal) : Formula :=
  ((entry * quantity + price * more : Formula)) / total

theorem eval_averageFormula (entry quantity price more total : Decimal) :
    (averageFormula entry quantity price more total).eval =
      averageEntry entry quantity price more total := by
  simp [averageFormula, averageEntry]

/-- The entry value, as `signedCostBasis` calculates it. -/
def valueFormula (p : Position) : Formula := (p.entryPrice * p.quantity : Formula) * p.side.sign

end Position

/-- What an order costs or brings, as `cashFlow` calculates it. -/
def OrderSide.flowFormula (side : OrderSide) (notional commission : Decimal) : Formula :=
  match side with
  | buy => notional + commission
  | sell => notional - commission

/-- The share of a commission that falls to a part of an order. -/
def commissionShare (commission quantity total : Decimal) : Calc Decimal :=
  if quantity.SameValue total then .ok commission else do (← commission.mul quantity).div total

/-! ## What is asked to be exact -/

/-- The new entry of a position, over whatever its new quantity is. -/
def ExactIncrease (p : Position) (quantity price : Decimal) : Prop :=
  (p.quantity.add quantity).All fun total =>
    (Position.averageFormula p.entryPrice p.quantity price quantity total).Exact

/-- The profit of what is given back and the sum of all profit, what is left of the position and of
the order, and the commission of that rest. -/
def ExactReduce (realizedPnl : Decimal) (p : Position) (given quantity price commission : Decimal) :
    Prop :=
  (p.gainFormula price given).Exact ∧
    (p.gain price given).All (fun realized => (realizedPnl + realized : Formula).Exact) ∧
    (p.quantity - given : Formula).Exact ∧ (quantity - given : Formula).Exact ∧
    (commissionShare commission given quantity).All fun share =>
      (commission - share : Formula).Exact

instance (p : Position) (quantity price : Decimal) :
    Decidable (ExactIncrease p quantity price) := by
  unfold ExactIncrease; infer_instance

instance (realizedPnl : Decimal) (p : Position) (given quantity price commission : Decimal) :
    Decidable (ExactReduce realizedPnl p given quantity price commission) := by
  unfold ExactReduce; infer_instance

/-- The operations of the legs of an order. -/
def ExactLegs (realizedPnl : Decimal) (before : Option Position) (side : OrderSide)
    (quantity price commission : Decimal) : Prop :=
  ∀ p ∈ before, if p.side.entrySide = side then ExactIncrease p quantity price
    else ExactReduce realizedPnl p (quantity.min p.quantity) quantity price commission

instance (realizedPnl : Decimal) (before : Option Position) (side : OrderSide)
    (quantity price commission : Decimal) :
    Decidable (ExactLegs realizedPnl before side quantity price commission) := by
  unfold ExactLegs; infer_instance

/-- What an order pays or brings, the balance after it, and the sum of all commission. -/
def ExactPayment (l : Ledger) (side : OrderSide) (notional commission : Decimal) : Prop :=
  (side.flowFormula notional commission).Exact ∧
    (side.cashFlow notional commission).All (fun flow => (l.freeBalance + flow : Formula).Exact) ∧
    (l.totalCommission + commission : Formula).Exact

instance (l : Ledger) (side : OrderSide) (notional commission : Decimal) :
    Decidable (ExactPayment l side notional commission) := by
  unfold ExactPayment; infer_instance

/-- The operations of a fill: the value of the order and, if it can be paid, its payment and its
legs. -/
def ExactFill (l : Ledger) (request : OrderRequest) (price : Decimal) : Prop :=
  (request.quantity * price : Formula).Exact ∧ (request.quantity.mul price).All fun notional =>
    (notional.mul l.account.commissionRate).All fun commission =>
      Ledger.Affordable l.freeBalance request.side notional commission →
        ExactPayment l request.side notional commission ∧
          ExactLegs l.realizedPnl (l.positions.get? request.symbol) request.side request.quantity
            price commission

instance (l : Ledger) (request : OrderRequest) (price : Decimal) :
    Decidable (ExactFill l request price) := by
  unfold ExactFill Ledger.Affordable; infer_instance

/-- The operations of the fill that an operation comes to, if any. -/
def ExactStep (l : Ledger) (op : Ledger.Operation) : Prop :=
  ∀ fill ∈ l.fillOf op, ExactFill fill.1 fill.2.1 fill.2.2

instance (l : Ledger) (op : Ledger.Operation) : Decidable (ExactStep l op) := by
  unfold ExactStep; infer_instance

/-! ## The legs of an order -/

section Legs

variable {order : Order} {request : OrderRequest} {price commission realizedPnl total : Decimal}
  {now : Instant} {newId : ℕ} {before after : Option Position} {legs : List Leg} {p : Position}

/-- The entry value of a position that may be there. -/
def valueOf (p? : Option Position) : ℚ := p?.elim 0 fun p => p.holding.value

theorem value_opened (quantity : Decimal) : valueOf (some (.opened newId order request quantity
    price now)) = order.side.sign * (quantity.toRat * price.toRat) := by
  show price.toRat * quantity.toRat * (PositionSide.ofOrderSide order.side).sign.toRat = _
  rw [PositionSide.toRat_sign, PositionSide.entrySide_ofOrderSide]
  ring

theorem flow_trade (id : Uuid) (positionId : ℕ) (quantity realized : Decimal) :
    (order.trade id positionId quantity price commission realized now).flow =
      -(order.side.sign * (quantity.toRat * price.toRat)) - commission.toRat := rfl

/-- An exact average keeps the value of what it averages. -/
theorem toRat_average {entry quantity more total average : Decimal}
    (h : (Position.averageFormula entry quantity price more total).Exact)
    (haverage : Position.averageEntry entry quantity price more total = .ok average) :
    average.toRat * total.toRat = entry.toRat * quantity.toRat + price.toRat * more.toRat := by
  -- an average over nothing is a fault
  have htotal : total.toRat ≠ 0 := by
    rw [ne_eq, ← Decimal.isZero_iff]
    intro hzero
    simp only [Position.averageEntry, Calc.bind_eq_ok] at haverage
    obtain ⟨_, _, _, _, sum, _, hdiv⟩ := haverage
    rw [Decimal.div, if_pos hzero] at hdiv
    cases hdiv
  rw [h.toRat_eq ((Position.eval_averageFormula ..).trans haverage)]
  simp only [Position.averageFormula, Formula.toRat_div, Formula.toRat_add, Formula.toRat_mul,
    Formula.toRat_value]
  exact div_mul_cancel₀ _ htotal

theorem toRat_gain {quantity realized : Decimal} (h : (p.gainFormula price quantity).Exact)
    (hgain : p.gain price quantity = .ok realized) :
    realized.toRat =
      (price.toRat - p.entryPrice.toRat) * quantity.toRat * p.side.entrySide.sign := by
  rw [h.toRat_eq ((p.eval_gainFormula price quantity).trans hgain), ← PositionSide.toRat_sign]
  rfl

theorem value_holding (p : Position) :
    p.holding.value = p.side.entrySide.sign * (p.quantity.toRat * p.entryPrice.toRat) := by
  rw [← PositionSide.toRat_sign]
  show p.entryPrice.toRat * p.quantity.toRat * p.side.sign.toRat = _
  ring

/-- What more of a position adds to its value, at the price. -/
theorem value_increased {id : Uuid} {quantity : Decimal} {p' : Position}
    (h : ExactIncrease p quantity price)
    (hincreased : p.increased id request quantity price now = .ok p') :
    p'.holding.value =
      p.holding.value + p.side.entrySide.sign * (quantity.toRat * price.toRat) := by
  obtain ⟨total, entry, htotal, haverage, hholding⟩ := Position.holding_increased hincreased
  rw [hholding, value_holding, ← PositionSide.toRat_sign]
  show entry.toRat * total.toRat * p.side.sign.toRat = _
  -- the average keeps the value of both entries
  rw [toRat_average (h total htotal) haverage]
  ring

/-- What giving back a part of a position takes from its value, at the entry price. -/
theorem value_reduced {id : Uuid} {quantity realized : Decimal} {p' : Position}
    (h : (p.quantity - quantity : Formula).Exact)
    (hreduced : p.reduced id quantity price now = .ok (p', realized)) :
    p'.holding.value =
      p.holding.value - p.side.entrySide.sign * (quantity.toRat * p.entryPrice.toRat) := by
  obtain ⟨-, rest, realizedPnl, hrest, -, hholding⟩ := Position.holding_reduced hreduced
  rw [hholding, value_holding, ← PositionSide.toRat_sign]
  show p.entryPrice.toRat * rest.toRat * p.side.sign.toRat = _
  rw [h.sub hrest]
  ring

/-- The legs of an order move its value at the price, and the profit realized, into what is
held. -/
theorem Meets.value_sub (h : Meets order request price commission now newId before legs after)
    (hexact : ExactLegs realizedPnl before order.side order.quantity price commission)
    (htotal : legs.foldlM Leg.realize realizedPnl = .ok total) :
    valueOf after - valueOf before = order.side.sign * (order.quantity.toRat * price.toRat) +
      (total.toRat - realizedPnl.toRat) := by
  cases h with
  | opens =>
    obtain rfl : realizedPnl = total := Calc.pure_eq_ok.mp htotal
    -- the whole order is held, at its price
    rw [value_opened]
    show _ - 0 = _
    ring
  | @increases p p' side increased =>
    obtain rfl : realizedPnl = total := Calc.pure_eq_ok.mp htotal
    have hincrease : ExactIncrease p order.quantity price := by
      simpa only [if_pos side] using hexact p rfl
    show p'.holding.value - p.holding.value = _
    rw [value_increased hincrease increased, side]
    ring
  | @reduces p p' realized side less reduced =>
    replace htotal := Leg.add_eq_ok htotal rfl (List.forall_mem_nil _)
    have hmin : order.quantity.min p.quantity = order.quantity := if_neg (Decimal.not_lt_of_lt less)
    obtain ⟨hgain, hrealized, hquantity, -⟩ := by simpa only [if_neg side, hmin] using hexact p rfl
    obtain ⟨hgain', -⟩ := Position.holding_reduced reduced
    show p'.holding.value - p.holding.value = _
    -- what leaves is at the entry price, and the profit is what the price brings above it
    rw [value_reduced hquantity reduced, (hrealized _ hgain').add htotal, toRat_gain hgain hgain',
      OrderSide.sign_of_ne side]
    ring
  | @closes p p' realized side same reduced =>
    replace htotal := Leg.add_eq_ok htotal rfl (List.forall_mem_nil _)
    have hsame := Decimal.sameValue_iff.mp same
    have hmin : order.quantity.min p.quantity = order.quantity :=
      if_neg (Decimal.SameValue.not_lt (Eq.symm same))
    obtain ⟨hgain, hrealized, -⟩ := by simpa only [if_neg side, hmin] using hexact p rfl
    obtain ⟨hgain', -⟩ := Position.holding_reduced reduced
    -- the whole value of the position leaves
    show 0 - p.holding.value = _
    rw [value_holding, (hrealized _ hgain').add htotal, toRat_gain hgain hgain',
      OrderSide.sign_of_ne side, hsame]
    ring
  | @flips p p' realized product share rest restCommission side more reduced product_eq share_eq
      rest_eq restCommission_eq =>
    replace htotal := Leg.add_eq_ok htotal rfl (List.forall_mem_singleton.mpr nofun)
    have hmin : order.quantity.min p.quantity = p.quantity := if_pos more
    obtain ⟨hgain, hrealized, -, hrest, -⟩ := by simpa only [if_neg side, hmin] using hexact p rfl
    obtain ⟨hgain', -⟩ := Position.holding_reduced reduced
    rw [value_opened]
    show _ - p.holding.value = _
    -- the value of the position leaves, and that of the rest at the price comes in
    rw [value_holding, hrest.sub rest_eq, (hrealized _ hgain').add htotal,
      toRat_gain hgain hgain', OrderSide.sign_of_ne side]
    ring

/-- The legs of an order bring what the order brings. -/
theorem Meets.flow_sum (h : Meets order request price commission now newId before legs after)
    (hexact : ExactLegs realizedPnl before order.side order.quantity price commission) :
    (legs.map fun leg => leg.trade.flow).sum =
      -(order.side.sign * (order.quantity.toRat * price.toRat)) - commission.toRat := by
  cases h with
  | opens | increases | reduces | closes => exact add_zero _
  | @flips p p' realized product share rest restCommission side more reduced product_eq share_eq
      rest_eq restCommission_eq =>
    have hmin : order.quantity.min p.quantity = p.quantity := if_pos more
    have hne := Decimal.not_sameValue_of_lt more
    have hshare : commissionShare commission p.quantity order.quantity = .ok share := by
      rw [commissionShare, if_neg hne, product_eq]
      exact share_eq
    obtain ⟨-, -, -, hrest, hcommission⟩ := by simpa only [if_neg side, hmin] using hexact p rfl
    show (order.trade ..).flow + ((order.trade ..).flow + 0) = _
    -- the two shares of the commission are all of it
    rw [flow_trade, flow_trade, hrest.sub rest_eq, (hcommission _ hshare).sub restCommission_eq]
    ring

end Legs

/-! ## The identities -/

namespace Ledger

variable {l l' : Ledger} {account : AccountSettings} {request : OrderRequest}
  {price notional commission : Decimal} {now : Instant} {legs : List Leg}

/-- The entry value of all that is held. -/
def heldValue (l : Ledger) : ℚ := (l.positions.values.map fun p => p.holding.value).sum

/-- The balance and the entry value of what is held are the initial balance with the profit and
less the commission, and the balance is the initial balance and what the trades brought. -/
structure Balanced (account : AccountSettings) (l : Ledger) : Prop where
  held_eq : l.freeBalance.toRat + l.heldValue =
    account.initialBalance.toRat + l.realizedPnl.toRat - l.totalCommission.toRat
  flow_eq : l.freeBalance.toRat =
    account.initialBalance.toRat + (l.trades.map Trade.flow).sum

/-- What an exact payment brings. -/
theorem toRat_cashFlow {side : OrderSide} {flow : Decimal}
    (h : (side.flowFormula notional commission).Exact)
    (hflow : side.cashFlow notional commission = .ok flow) :
    flow.toRat = -(side.sign * notional.toRat) - commission.toRat := by
  cases side with
  | buy =>
    simp only [OrderSide.cashFlow, Calc.bind_eq_ok, Calc.pure_eq_ok] at hflow
    obtain ⟨cost, hcost, rfl⟩ := hflow
    rw [Decimal.toRat_neg, h.add hcost, OrderSide.sign]
    ring
  | sell =>
    rw [h.sub hflow, OrderSide.sign]
    ring

namespace Balanced

theorem new (account : AccountSettings) (firstId : Uuid) (listened : Bool) :
    Balanced account (new account firstId listened) where
  held_eq := by
    show account.initialBalance.toRat + 0 = account.initialBalance.toRat + (0 : Decimal).toRat -
      (0 : Decimal).toRat
    rw [Decimal.toRat_zero]
    ring
  flow_eq := (add_zero _).symm

theorem quiet (hl : Balanced account l) (h : l.Quiet l') : Balanced account l' where
  held_eq := by
    have hget : ∀ s, (l'.positions.get? s).map (fun p => p.holding.value) =
        (l.positions.get? s).map fun p => p.holding.value := fun s => by
      have := congrArg (Option.map Holding.value) (h.holding_eq s)
      rwa [Option.map_map, Option.map_map] at this
    rw [h.freeBalance_eq, h.realizedPnl_eq, h.totalCommission_eq, heldValue,
      (Table.values_perm hget).sum_eq]
    exact hl.held_eq
  flow_eq := by rw [h.freeBalance_eq, h.trades_eq, hl.flow_eq]

theorem filled (hl : Balanced account l) (hexact : ExactFill l request price)
    (h : l.Filled request price notional commission now legs l') : Balanced account l' := by
  obtain ⟨hnotional, hpaid⟩ := hexact
  -- the order has been paid for, so its payment and its legs are exact
  obtain ⟨⟨hflow, hfree, hcommission⟩, hlegs⟩ :=
    hpaid notional h.notional_eq commission h.commission_eq h.affordable
  obtain ⟨flow, hflow', hfree'⟩ := h.freeBalance_eq
  have hbalance : l'.freeBalance.toRat = l.freeBalance.toRat +
      (-(request.side.sign * (request.quantity.toRat * price.toRat)) - commission.toRat) := by
    rw [(hfree flow hflow').add hfree', toRat_cashFlow hflow hflow', hnotional.mul h.notional_eq]
  constructor
  · -- only the position of this symbol changes what is held
    have hsum := Table.sum_values_eq (fun p => p.holding.value) h.get?_other
    have hvalue : valueOf (l'.positions.get? request.symbol) -
        valueOf (l.positions.get? request.symbol) =
        request.side.sign * (request.quantity.toRat * price.toRat) +
          (l'.realizedPnl.toRat - l.realizedPnl.toRat) := h.meets.value_sub hlegs h.realizedPnl_eq
    have hheld := hl.held_eq
    have htotal := hcommission.add h.totalCommission_eq
    simp only [heldValue, valueOf] at hsum hvalue hheld ⊢
    linarith
  · have hsum := h.meets.flow_sum hlegs
    rw [h.trades_eq, List.map_append, List.sum_append, List.map_map, hbalance, hl.flow_eq]
    show _ = _ + (_ + (legs.map fun leg => leg.trade.flow).sum)
    rw [hsum]
    exact add_assoc ..

end Balanced

theorem balanced_run {firstId : Uuid} {listened : Bool} {ops : List Operation}
    (hexact : (new account firstId listened).Along ExactStep ops)
    (h : (new account firstId listened).run ops = .ok l) : Balanced account l := by
  refine ((consistent_new account firstId listened).along_induction (.new ..) ?_ hexact h).2
  intro l₁ l₂ op answer hl₁ hbalanced hop hstep
  cases hl₁.step_cases hstep with
  | quiet quiet _ => exact hbalanced.quiet quiet
  | filled quiet fillOf_eq _ _ filled _ =>
    exact (hbalanced.quiet quiet).filled (hop _ fillOf_eq) filled

/-! ## Equity -/

/-- The entry value of all that is held, as `costBasis` calculates it. -/
def basisFormula (l : Ledger) : Formula :=
  l.positions.values.foldl (fun f p => f + p.valueFormula) (.value 0)

/-- The equity, as it is calculated from the unrealized profit. -/
def equityFormula (l : Ledger) (unrealized : Decimal) : Formula :=
  l.freeBalance + l.basisFormula + unrealized

theorem eval_basisFormula (l : Ledger) : l.basisFormula.eval = l.costBasis := by
  have hfold (ps : List Position) (f : Formula) :
      (ps.foldl (fun f p => f + p.valueFormula) f).eval =
        f.eval >>= fun sum => ps.foldlM (fun sum p => do sum.add (← p.signedCostBasis)) sum := by
    induction ps generalizing f with
    | nil => exact (bind_pure _).symm
    | cons p ps ih =>
      rw [List.foldl_cons, ih]
      simp only [Formula.eval_add, List.foldlM_cons, bind_assoc, Position.valueFormula,
        Position.signedCostBasis, Formula.eval_mul, Formula.eval_value, Calc.ok_bind]
  exact (hfold _ _).trans Calc.ok_bind

theorem toRat_basisFormula (l : Ledger) : l.basisFormula.toRat = l.heldValue := by
  have hfold (ps : List Position) (f : Formula) :
      (ps.foldl (fun f p => f + p.valueFormula) f).toRat =
        f.toRat + (ps.map fun p => p.holding.value).sum := by
    induction ps generalizing f with
    | nil => exact (add_zero _).symm
    | cons p ps ih =>
      rw [List.foldl_cons, ih, Formula.toRat_add, List.map_cons, List.sum_cons, add_assoc]
      rfl
  rw [basisFormula, hfold, Formula.toRat_value, Decimal.toRat_zero, zero_add]
  rfl

theorem eval_equityFormula {unrealized equity : Decimal}
    (hunrealized : l.unrealizedPnl = .ok unrealized) (h : l.equity = .ok equity) :
    (l.equityFormula unrealized).eval = .ok equity := by
  simp only [Ledger.equity, hunrealized, Calc.ok_bind] at h
  simp only [equityFormula, Formula.eval_add, Formula.eval_value, Calc.ok_bind, eval_basisFormula,
    bind_assoc]
  exact h

/-- After every run in which the operations of the fills are exact, the balance and the entry value
of what is held are the initial balance with the profit and less the commission, and the balance is
the initial balance and what the trades brought.  So equity, if it is calculated exactly, is the
initial balance with all profit and less the commission. -/
theorem run_balances (account : AccountSettings) (firstId : Uuid) (listened : Bool)
    (ops : List Operation) (hexact : (new account firstId listened).Along ExactStep ops)
    (h : (new account firstId listened).run ops = .ok l) :
    l.freeBalance.toRat + l.heldValue =
      account.initialBalance.toRat + l.realizedPnl.toRat - l.totalCommission.toRat ∧
    l.freeBalance.toRat =
      account.initialBalance.toRat + ((l.tradeList none).map Trade.flow).sum ∧
    ∀ basis unrealized equity, l.costBasis = .ok basis → l.unrealizedPnl = .ok unrealized →
      l.equity = .ok equity → (l.equityFormula unrealized).Exact →
        basis.toRat = l.heldValue ∧
        equity.toRat = account.initialBalance.toRat + l.realizedPnl.toRat + unrealized.toRat -
          l.totalCommission.toRat := by
  have hl := balanced_run hexact h
  refine ⟨hl.held_eq, hl.flow_eq, ?_⟩
  intro basis unrealized equity hbasis hunrealized hequity hexact
  have hvalue := hexact.toRat_eq (eval_equityFormula hunrealized hequity)
  -- equity adds the basis of all positions to the balance, so that sum is exact too
  obtain ⟨⟨-, hbasisExact, -⟩, -, -⟩ := hexact
  constructor
  · rw [hbasisExact.toRat_eq ((eval_basisFormula l).trans hbasis), toRat_basisFormula]
  · have hheld := hl.held_eq
    simp only [equityFormula, Formula.toRat_add, Formula.toRat_value, toRat_basisFormula] at hvalue
    linarith

/-- The sample is calculated exactly, and ends with a short position. -/
theorem run_balances_sample : (new {} default true).Along ExactStep sampleRun ∧
    ∃ l, ∃ unrealized equity : Decimal, (new {} default true).run sampleRun = .ok l ∧
      l.freeBalance.toRat + l.heldValue = ({} : AccountSettings).initialBalance.toRat +
        l.realizedPnl.toRat - l.totalCommission.toRat ∧
      l.equity = .ok equity ∧
      equity.toRat = ({} : AccountSettings).initialBalance.toRat + l.realizedPnl.toRat +
        unrealized.toRat - l.totalCommission.toRat := by
  have hexact : (new {} default true).Along ExactStep sampleRun := by decide +kernel
  have hequity : ((new {} default true).run sampleRun).toOption.bind (fun l =>
      l.costBasis.toOption.bind fun basis => l.unrealizedPnl.toOption.bind fun unrealized =>
        l.equity.toOption.bind fun equity =>
          if (l.equityFormula unrealized).Exact then some equity else none) =
      some (.lit 1000032951275 7) := by decide +kernel
  obtain ⟨l, hrun, hequity⟩ := Calc.exists_eq_ok hequity
  obtain ⟨basis, hbasis, hequity⟩ := Calc.exists_eq_ok hequity
  obtain ⟨unrealized, hunrealized, hequity⟩ := Calc.exists_eq_ok hequity
  obtain ⟨equity, heq, hequity⟩ := Calc.exists_eq_ok hequity
  obtain ⟨hformula, -⟩ := Option.ite_none_right_eq_some.mp hequity
  obtain ⟨hheld, -, hall⟩ := run_balances {} default true sampleRun hexact hrun
  exact ⟨hexact, l, unrealized, equity, hrun, hheld, heq,
    (hall basis unrealized equity hbasis hunrealized heq hformula).2⟩

end Ledger

end SimBroker
