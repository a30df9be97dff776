import SimBroker.Proofs.Decimal.Divisors
import SimBroker.Proofs.Ledger.Consistent

/-!
# The divisors of a fill

A fill divides in three places: a share of the commission by the quantity of the order, an average
entry by the whole quantity of a position, and a profit by the entry value.  The quantity of an
order is positive where it is filled, the positions of a consistent book have positive quantities,
and an entry value of zero is asked for.  So orders on a consistent book may overflow, but they do
not divide by zero.

## Main results

* `Position.dividesSafely_mark`, `Position.dividesSafely_reduced`,
  `Position.dividesSafely_increased`: trades and marks
* `Ledger.Consistent.dividesSafely_fill`: the fill of an order
* `Ledger.Consistent.dividesSafely_close`: the closing of a position
-/

namespace SimBroker

open Calc (DividesSafely)
open Decimal

namespace Position

variable {p : Position} {quantity : Decimal}

theorem dividesSafely_gain (p : Position) (price quantity : Decimal) :
    (p.gain price quantity).DividesSafely := by
  unfold gain
  refine .bind (dividesSafely_sub ..) fun difference => ?_
  exact .bind (dividesSafely_mul ..) fun gain => dividesSafely_mul ..

theorem dividesSafely_percentOf (pnl basis : Decimal) : (percentOf pnl basis).DividesSafely := by
  unfold percentOf
  split
  · exact .pure 0
  · next hbasis => exact .bind (dividesSafely_div hbasis) fun ratio => dividesSafely_mul ..

theorem dividesSafely_mark (p : Position) (price : Decimal) (now : Instant) :
    (p.mark price now).DividesSafely := by
  refine .bind (dividesSafely_gain ..) fun pnl => .bind (dividesSafely_mul ..) fun basis => ?_
  exact .bind (dividesSafely_percentOf ..) fun pct => .pure _

theorem dividesSafely_reduced (p : Position) (orderId : Uuid) (quantity price : Decimal)
    (now : Instant) : (p.reduced orderId quantity price now).DividesSafely := by
  refine .bind (dividesSafely_gain ..) fun realized => .bind (dividesSafely_sub ..) fun rest => ?_
  refine .bind (dividesSafely_add ..) fun total => .bind (dividesSafely_mark ..) fun p' => ?_
  exact .pure _

/-- The whole quantity of a position that is added to is positive. -/
theorem dividesSafely_increased (hp : 0 < p.quantity) (hq : 0 < quantity) (orderId : Uuid)
    (request : OrderRequest) (price : Decimal) (now : Instant) :
    (p.increased orderId request quantity price now).DividesSafely := by
  refine .bind_of_eq_ok (dividesSafely_add ..) fun total htotal => ?_
  refine .bind (dividesSafely_mul ..) fun old => .bind (dividesSafely_mul ..) fun new => ?_
  refine .bind (dividesSafely_add ..) fun value => ?_
  exact .bind (dividesSafely_div_of_pos (pos_add htotal hp hq)) fun entry =>
    dividesSafely_mark ..

end Position

namespace Ledger

variable {l l₁ : Ledger} {order : Order} {request : OrderRequest} {now : Instant}

theorem dividesSafely_reduce (l : Ledger) (p : Position) (order : Order)
    (quantity price commission : Decimal) (now : Instant) :
    (l.reduce p order quantity price commission now).DividesSafely := by
  refine .bind (Position.dividesSafely_reduced ..) fun reduced => ?_
  exact .bind (dividesSafely_add ..) fun total => .pure _

/-- The share of the commission is by the quantity of the order. -/
theorem dividesSafely_offset (hq : 0 < order.quantity) (l : Ledger) (price commission : Decimal)
    (now : Instant) : (l.offset order price commission now).DividesSafely := by
  unfold offset
  split
  · exact .pure _
  · next p hp =>
    split
    · exact .pure _
    · have hreduce (share : Decimal) :
          (l.reduce p order (order.quantity.min p.quantity) price share now >>= fun reduced => do
            let restQuantity ← order.quantity.sub (order.quantity.min p.quantity)
            let restCommission ← commission.sub share
            return (reduced.1, Remainder.mk [reduced.2] restQuantity restCommission)
              ).DividesSafely := by
        refine .bind (dividesSafely_reduce ..) fun reduced => ?_
        refine .bind (dividesSafely_sub ..) fun rest => .bind (dividesSafely_sub ..) fun _ => ?_
        exact .pure _
      dsimp only
      split
      · exact hreduce commission
      · refine .bind (dividesSafely_mul ..) fun product => ?_
        exact .bind (dividesSafely_div_of_pos hq) hreduce

/-- An order is added to a position with a positive quantity, if there is one. -/
theorem dividesSafely_extend {quantity : Decimal}
    (hl : ∀ p, l.positions.get? order.symbol = some p → 0 < p.quantity) (hq : 0 < quantity)
    (request : OrderRequest) (price commission : Decimal) (now : Instant) :
    (l.extend order request quantity price commission now).DividesSafely := by
  unfold extend
  dsimp only
  split
  · next p hp =>
    exact .bind (Position.dividesSafely_increased (hl p hp) hq ..) fun p' => .pure _
  · exact .pure _

theorem dividesSafely_settle (l : Ledger) (side : OrderSide) (notional commission : Decimal) :
    (l.settle side notional commission).DividesSafely := by
  have hpay (delta : Decimal) : (do
      let freeBalance ← l.freeBalance.add delta
      let totalCommission ← l.totalCommission.add commission
      return { l with freeBalance, totalCommission } : Calc Ledger).DividesSafely := by
    refine .bind (dividesSafely_add ..) fun freeBalance => ?_
    exact .bind (dividesSafely_add ..) fun totalCommission => .pure _
  cases side with
  | buy => exact .bind (dividesSafely_add ..) fun cost => hpay _
  | sell => exact .bind (dividesSafely_sub ..) hpay

/-- Giving back leaves positions with positive quantities. -/
theorem quantity_pos_offset {price commission : Decimal} {rest : Remainder} {p : Position}
    (hl : ∀ p, l.positions.get? order.symbol = some p → 0 < p.quantity)
    (h : l.offset order price commission now = .ok (l₁, rest)) (hrest : 0 < rest.quantity)
    (hp : l₁.positions.get? order.symbol = some p) : 0 < p.quantity := by
  cases offset_eq_ok h with
  | none => exact hl p hp
  | part _ _ _ _ _ not_pos => exact absurd hrest not_pos
  | all _ _ _ _ _ reduce =>
    obtain ⟨p', realized, hreduced, -, hget, -⟩ := reduce_eq_ok reduce
    -- a position that is given back whole is not there any more
    rw [if_pos ((Position.isZero_reduced hreduced).mpr (.refl _)), hp] at hget
    exact nomatch hget

/-- An order that is filled in a consistent book does not divide by zero. -/
theorem Consistent.dividesSafely_execute (hl : l.Consistent) (hq : 0 < request.quantity)
    (price notional commission : Decimal) (now : Instant) :
    (l.execute request price notional commission now).DividesSafely := by
  rw [execute_eq]
  refine .bind_of_eq_ok (dividesSafely_offset hq ..) fun ⟨l₁, rest⟩ hoffset => ?_
  refine .bind ?_ fun added => .bind (dividesSafely_settle ..) fun _ => .pure _
  show (l₁.addRest (l.orderOf request now) request rest price now).DividesSafely
  unfold addRest
  split
  · next hrest =>
    have hpos (p : Position) (hp : l.positions.get? (l.orderOf request now).symbol = some p) :
        0 < p.quantity := (hl.sound hp).quantity_pos
    refine .bind (dividesSafely_extend (fun p hp => ?_) hrest ..) fun extended => .pure _
    exact quantity_pos_offset (l := l.mint.2) hpos hoffset hrest hp
  · exact .pure _

theorem Consistent.dividesSafely_fill (hl : l.Consistent) (hq : 0 < request.quantity)
    (price : Decimal) (now : Instant) : (l.fill request price now).DividesSafely := by
  unfold fill
  refine .bind (dividesSafely_mul ..) fun notional => .bind (dividesSafely_mul ..) fun _ => ?_
  split
  · refine .bind (dividesSafely_add ..) fun cost => ?_
    split
    · exact .pure _
    · exact hl.dividesSafely_execute hq ..
  · exact hl.dividesSafely_execute hq ..

theorem dividesSafely_executionPrice (l : Ledger) (request : OrderRequest) :
    (l.executionPrice request).DividesSafely := by
  unfold executionPrice
  split
  · exact .ok _
  · split
    · exact .ok _
    · exact .ok _
    · cases request.side with
      | buy =>
        refine .bind (dividesSafely_add ..) fun factor => ?_
        exact .bind (dividesSafely_mul ..) fun price => .pure _
      | sell =>
        refine .bind (dividesSafely_sub ..) fun factor => ?_
        exact .bind (dividesSafely_mul ..) fun price => .pure _

theorem Consistent.dividesSafely_accept (hl : l.Consistent) (request : OrderRequest)
    (now : Instant) : (l.accept request now).DividesSafely := by
  unfold accept
  split
  · exact .pure _
  · next hfault =>
    refine .bind (dividesSafely_executionPrice ..) fun found => ?_
    split
    · exact .pure _
    · exact hl.dividesSafely_fill (quantity_pos_of_fault?_eq_none hfault) ..

theorem Consistent.dividesSafely_close (hl : l.Consistent) (id : ℕ) (now : Instant) :
    (l.close id now).DividesSafely := by
  unfold close
  split
  · exact .ok _
  · exact .bind (hl.dividesSafely_accept ..) fun _ => .pure _

end Ledger

end SimBroker
