import SimBroker.Position
import SimBroker.Proofs.Calc
import SimBroker.Proofs.Decimal.Rounding

/-!
# What trades and marks do to a position

Marking a position changes its marks and nothing else, a trade changes what it must and then marks.
The main statements give the position after an operation field by field, with the calculations that
have led to it.  What only trades change is the `holding` of a position.

## Main definitions

* `Holding`: what is held, apart from marks and exits

## Main results

* `mark_eq_ok`: a marked position
* `reduced_eq_ok`, `increased_eq_ok`: a position after a trade
* `holding_mark`, `holding_withExit`: marks and exits leave the holding
* `holding_increased`, `holding_reduced`: a holding after a trade
* `id_side_increased`, `id_side_reduced`: a trade leaves the id and the side
-/

namespace SimBroker

open Calc (bind_eq_ok pure_eq_ok)

theorem PositionSide.entrySide_ofOrderSide (side : OrderSide) :
    (PositionSide.ofOrderSide side).entrySide = side := by
  cases side <;> rfl

/-- What is held in a symbol, apart from marks and exits. -/
structure Holding where
  id : Option Nat
  symbol : String
  side : PositionSide
  quantity : Decimal
  entryPrice : Decimal
  realizedPnl : Decimal
  /-- The orders that traded in the position. -/
  orderIds : List Uuid
  deriving DecidableEq

namespace Position

variable {p p' : Position} {price quantity realized : Decimal} {now : Instant} {orderId : Uuid}
  {request : OrderRequest}

/-- What a position holds. -/
def holding (p : Position) : Holding :=
  ⟨some p.id, p.symbol, p.side, p.quantity, p.entryPrice, p.realizedPnl, p.orderIds⟩

/-- A position with these marks. -/
def withMarks (p : Position) (price pnl pct : Decimal) (now : Instant) : Position :=
  { p with currentPrice := price, unrealizedPnl := pnl, unrealizedPnlPct := pct, updatedAt := now }

theorem mark_eq_ok (h : p.mark price now = .ok p') :
    ∃ pnl basis pct, p.pnlAt price = .ok pnl ∧ p.entryPrice.mul p.quantity = .ok basis ∧
      percentOf pnl basis = .ok pct ∧ p' = p.withMarks price pnl pct now := by
  simp only [mark, bind_eq_ok, pure_eq_ok] at h
  obtain ⟨pnl, hpnl, basis, hbasis, pct, hpct, rfl⟩ := h
  exact ⟨pnl, basis, pct, hpnl, hbasis, hpct, rfl⟩

theorem holding_eq_iff : p'.holding = p.holding ↔ p'.id = p.id ∧ p'.symbol = p.symbol ∧
    p'.side = p.side ∧ p'.quantity = p.quantity ∧ p'.entryPrice = p.entryPrice ∧
    p'.realizedPnl = p.realizedPnl ∧ p'.orderIds = p.orderIds := by
  simp only [holding, Holding.mk.injEq, Option.some.injEq]

theorem holding_mark (h : p.mark price now = .ok p') : p'.holding = p.holding := by
  obtain ⟨_, _, _, -, -, -, rfl⟩ := mark_eq_ok h
  rfl

/-- The profit at a price depends only on what is held. -/
theorem pnlAt_eq_of_holding (h : p'.holding = p.holding) (at' : Decimal) :
    p'.pnlAt at' = p.pnlAt at' := by
  obtain ⟨-, -, hside, hquantity, hentry, -⟩ := holding_eq_iff.mp h
  rw [pnlAt, gain, hside, hquantity, hentry]
  rfl

theorem holding_withExit (p : Position) (kind : TriggerKind) (price : Decimal) (now : Instant) :
    (p.withExit kind price now).holding = p.holding := by
  cases kind <;> rfl

/-- Exits do not depend on marks. -/
theorem triggerAt_mark (h : p.mark price now = .ok p') (reached : Decimal) :
    p'.triggerAt reached = p.triggerAt reached := by
  obtain ⟨_, _, _, -, -, -, rfl⟩ := mark_eq_ok h
  rfl

theorem reduced_eq_ok (h : p.reduced orderId quantity price now = .ok (p', realized)) :
    p.gain price quantity = .ok realized ∧
      ∃ rest total, p.quantity.sub quantity = .ok rest ∧ p.realizedPnl.add realized = .ok total ∧
        { p with
          quantity := rest, realizedPnl := total, orderIds := p.orderIds ++ [orderId] }.mark
            price now = .ok p' := by
  simp only [reduced, bind_eq_ok, pure_eq_ok, Prod.mk.injEq] at h
  obtain ⟨gain, hgain, rest, hrest, total, htotal, marked, hmark, rfl, rfl⟩ := h
  exact ⟨hgain, rest, total, hrest, htotal, hmark⟩

/-- The quantity-weighted average of two entries. -/
def averageEntry (entry quantity price more total : Decimal) : Calc Decimal := do
  (← (← entry.mul quantity).add (← price.mul more)).div total

theorem increased_eq_ok (h : p.increased orderId request quantity price now = .ok p') :
    ∃ total entry, p.quantity.add quantity = .ok total ∧
      averageEntry p.entryPrice p.quantity price quantity total = .ok entry ∧
      { p with
        entryPrice := entry, quantity := total,
        stopLoss := request.stopLoss <|> p.stopLoss,
        takeProfit := request.takeProfit <|> p.takeProfit,
        orderIds := p.orderIds ++ [orderId] }.mark price now = .ok p' := by
  simp only [increased, bind_eq_ok] at h
  obtain ⟨total, htotal, old, hold, new, hnew, value, hvalue, entry, hentry, hmark⟩ := h
  refine ⟨total, entry, htotal, ?_, hmark⟩
  simp only [averageEntry, bind_eq_ok]
  exact ⟨old, hold, new, hnew, value, hvalue, hentry⟩

/-! ## Holdings after a trade -/

/-- More of a position has its entry averaged. -/
theorem holding_increased (h : p.increased orderId request quantity price now = .ok p') :
    ∃ total entry, p.quantity.add quantity = .ok total ∧
      averageEntry p.entryPrice p.quantity price quantity total = .ok entry ∧
      p'.holding = { p.holding with
        quantity := total, entryPrice := entry, orderIds := p.orderIds ++ [orderId] } := by
  obtain ⟨total, entry, htotal, hentry, hmark⟩ := increased_eq_ok h
  exact ⟨total, entry, htotal, hentry, holding_mark hmark⟩

/-- Less of a position keeps its entry and realizes the gain of what is given back. -/
theorem holding_reduced (h : p.reduced orderId quantity price now = .ok (p', realized)) :
    p.gain price quantity = .ok realized ∧
      ∃ rest total, p.quantity.sub quantity = .ok rest ∧ p.realizedPnl.add realized = .ok total ∧
        p'.holding = { p.holding with
          quantity := rest, realizedPnl := total, orderIds := p.orderIds ++ [orderId] } := by
  obtain ⟨hgain, rest, total, hrest, htotal, hmark⟩ := reduced_eq_ok h
  exact ⟨hgain, rest, total, hrest, htotal, holding_mark hmark⟩

theorem id_side_increased (h : p.increased orderId request quantity price now = .ok p') :
    p'.id = p.id ∧ p'.side = p.side := by
  obtain ⟨_, _, -, -, hholding⟩ := holding_increased h
  exact ⟨Option.some.inj (congrArg Holding.id hholding), congrArg Holding.side hholding⟩

theorem id_side_reduced (h : p.reduced orderId quantity price now = .ok (p', realized)) :
    p'.id = p.id ∧ p'.side = p.side := by
  obtain ⟨-, _, _, -, -, hholding⟩ := holding_reduced h
  exact ⟨Option.some.inj (congrArg Holding.id hholding), congrArg Holding.side hholding⟩

/-- Nothing is left of a position only if all of it is given back. -/
theorem isZero_reduced (h : p.reduced orderId quantity price now = .ok (p', realized)) :
    p'.quantity.isZero = true ↔ p.quantity.SameValue quantity := by
  obtain ⟨-, rest, _, hrest, -, hholding⟩ := holding_reduced h
  have hquantity : p'.quantity = rest := congrArg Holding.quantity hholding
  rw [hquantity]
  exact Decimal.isZero_sub hrest

end Position

end SimBroker
