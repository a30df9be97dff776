import SimBroker.Proofs.Decimal.Shares
import SimBroker.Proofs.Ledger.Changes

/-!
# The commission of an order and of its trades

An order that makes one trade gives it all of its commission.  An order that closes a position and
opens another one gives the first trade the share that it has in the quantity, and the second what
is left.  The trades of a book are those of its orders, order by order, so this says of every order
of a run by how much its trades miss its commission: by half a unit of the last place at most, and
then their decimal sum is still the commission, but for a tie.

## Main definitions

* `Order.Charges`: how the trades of an order have its commission
* `Order.Apportioned`: what this comes to, bounds and sum

## Main results

* `commission_split`: the trades of all orders of a run
* `commission_split_fails`: shares that do not make up a commission, and shares out of bounds
-/

namespace SimBroker

open Calc (pure_eq_ok)
open Decimal (Shares TiesAway)

/-- One trade has the commission of the order, or two trades have a share of it each. -/
inductive Order.Charges (order : Order) : List Trade → Prop
  | whole {t : Trade} (orderId_eq : t.orderId = order.id)
      (commission_eq : t.commission = order.commission) : Charges order [t]
  | shared {closing opening : Trade} (closing_eq : closing.orderId = order.id)
      (opening_eq : opening.orderId = order.id)
      (shares : Shares order.commission closing.quantity order.quantity closing.commission
        opening.commission) : Charges order [closing, opening]

/-- How near the trades of an order come to its commission. -/
structure Order.Apportioned (order : Order) (trades : List Trade) : Prop where
  orderId_eq : ∀ t ∈ trades, t.orderId = order.id
  one_or_two : (∃ t, trades = [t] ∧ t.commission = order.commission) ∨ trades.length = 2
  /-- Of a commission that is not negative no share is negative or more than all of it, unless the
  first one is more.  For that the commission on what is left of the order has to be less than the
  error that rounding may make. -/
  bounds : 0 ≤ order.commission → ∀ first ∈ trades.head?,
    0 ≤ first.commission ∧ (∀ t ∈ trades.tail, t.commission ≤ order.commission) ∧
    ((∀ t ∈ trades, 0 ≤ t.commission ∧ t.commission ≤ order.commission) ↔
      first.commission ≤ order.commission) ∧
    ((1 + order.commission.toRat * first.quantity.toRat) / 10 ^ 28 ≤
        order.commission.toRat * (order.quantity.toRat - first.quantity.toRat) →
      first.commission ≤ order.commission)
  /-- The shares miss the commission by half a unit of its last place at most. -/
  near : |(trades.map fun t => t.commission.toRat).sum - order.commission.toRat| *
    10 ^ order.commission.scale ≤ 1 / 2
  /-- Their decimal sum is the commission, unless that is a tie that goes to the other neighbour. -/
  sum_iff : (∃ sum, Decimal.total (trades.map Trade.commission) = .ok sum ∧
      sum.SameValue order.commission) ↔
    ¬ TiesAway order.commission (trades.map fun t => t.commission.toRat).sum
  /-- Only a commission that has all its digits is missed by a tie. -/
  digits : TiesAway order.commission (trades.map fun t => t.commission.toRat).sum →
    coefficientBound ≤ 10 * order.commission.mantissa

namespace Order

variable {order : Order} {trades : List Trade}

theorem Apportioned.of_whole {t : Trade} (hid : t.orderId = order.id)
    (hcommission : t.commission = order.commission) : order.Apportioned [t] := by
  have hsum : (([t].map fun t => t.commission.toRat).sum) = order.commission.toRat := by
    rw [List.map_singleton, List.sum_singleton, hcommission]
  have hnot : ¬ TiesAway order.commission (([t].map fun t => t.commission.toRat).sum) := by
    intro htie
    have hhalf := htie.half
    rw [hsum, sub_self, abs_zero, zero_mul] at hhalf
    norm_num at hhalf
  constructor
  case orderId_eq => exact List.forall_mem_singleton.mpr hid
  case one_or_two => exact .inl ⟨t, rfl, hcommission⟩
  case bounds =>
    rintro hpos first ⟨⟩
    rw [List.forall_mem_singleton, hcommission]
    have hle := Decimal.le_iff.mpr (le_refl order.commission.toRat)
    exact ⟨hpos, List.forall_mem_nil _, iff_of_true ⟨hpos, hle⟩ hle, fun _ => hle⟩
  case near =>
    rw [hsum, sub_self, abs_zero, zero_mul]
    norm_num
  case sum_iff =>
    exact iff_of_true ⟨t.commission, rfl, hcommission ▸ .refl _⟩ hnot
  case digits => exact fun htie => absurd htie hnot

theorem Charges.apportioned (h : order.Charges trades) : order.Apportioned trades := by
  cases h with
  | whole orderId_eq commission_eq => exact .of_whole orderId_eq commission_eq
  | @shared closing opening closing_eq opening_eq shares =>
    have hsum : (([closing, opening].map fun t => t.commission.toRat).sum) =
        closing.commission.toRat + opening.commission.toRat := by
      rw [List.map_cons, List.map_singleton, List.sum_pair]
    have htotal : Decimal.total ([closing, opening].map Trade.commission) =
        closing.commission.add opening.commission := by
      show closing.commission.add opening.commission >>= pure = _
      exact bind_pure _
    obtain ⟨hnear, -, hdigits⟩ := shares.add_cases
    rw [← hsum] at hnear hdigits
    constructor
    case orderId_eq =>
      exact List.forall_mem_cons.mpr ⟨closing_eq, List.forall_mem_singleton.mpr opening_eq⟩
    case one_or_two => exact .inr rfl
    case bounds =>
      rintro hpos first ⟨⟩
      have hc := Decimal.nonneg_iff.mp hpos
      have hclosing := Decimal.nonneg_iff.mpr (shares.share_nonneg hc)
      have hopening := Decimal.le_iff.mpr (shares.rest_le hc)
      have hiff : closing.commission ≤ order.commission ↔ 0 ≤ opening.commission := by
        rw [Decimal.le_iff, shares.share_le_iff, Decimal.nonneg_iff]
      refine ⟨hclosing, List.forall_mem_singleton.mpr hopening,
        ⟨fun hall => (hall closing List.mem_cons_self).2, fun hle => ?_⟩,
        fun hother => Decimal.le_iff.mpr (shares.share_le hc hother)⟩
      exact List.forall_mem_cons.mpr
        ⟨⟨hclosing, hle⟩, List.forall_mem_singleton.mpr ⟨hiff.mp hle, hopening⟩⟩
    case near => exact hnear
    case sum_iff =>
      rw [htotal, hsum]
      exact shares.add_eq_iff
    case digits => exact hdigits

end Order

/-- The trades that an order makes have its commission. -/
theorem Meets.charges {order : Order} {request : OrderRequest} {price commission : Decimal}
    {now : Instant} {newId : ℕ} {before after : Option Position} {legs : List Leg}
    (h : Meets order request price commission now newId before legs after)
    (hbefore : ∀ p ∈ before, 0 < p.quantity) :
    (order.filled price commission now).Charges (legs.map Leg.trade) := by
  cases h with
  | opens | increases | reduces | closes => exact .whole rfl rfl
  | @flips p _ _ product share rest restCommission side more reduced product_eq share_eq rest_eq
      restCommission_eq =>
    refine .shared rfl rfl ⟨?_, ?_, ⟨product, ?_, ?_⟩, ?_⟩
    · exact Decimal.pos_iff.mp (hbefore p rfl)
    · exact Decimal.lt_iff.mp more
    · exact Decimal.rounded_mul product_eq
    · exact Decimal.nearest_div share_eq
    · exact Decimal.rounded_sub restCommission_eq

namespace Ledger

variable {l l' : Ledger} {ts : List Turn}

/-- The trades of a book are those of its orders, order by order. -/
def OrdersCharge (l : Ledger) : Prop :=
  ∃ parts : List (List Trade), l.trades = parts.flatten ∧ List.Forall₂ Order.Charges l.orders parts

theorem OrdersCharge.of_quiet (h : l.OrdersCharge) (hquiet : l.Quiet l') : l'.OrdersCharge := by
  rw [OrdersCharge, hquiet.trades_eq, hquiet.orders_eq]
  exact h

theorem OrdersCharge.change (h : l.OrdersCharge) (hl : l.Consistent) (hchange : l.Change l') :
    l'.OrdersCharge := by
  rcases hchange.quiet_or_fills with hquiet | ⟨_, _, _, _, _, legs, -, -, hfilled⟩
  · exact h.of_quiet hquiet
  · obtain ⟨parts, htrades, hparts⟩ := h
    refine ⟨parts ++ [legs.map Leg.trade], ?_, ?_⟩
    · rw [hfilled.trades_eq, htrades, List.flatten_append, List.flatten_singleton]
    · rw [hfilled.orders_eq]
      have hcharges := hfilled.meets.charges fun p hp => (hl.sound hp).quantity_pos
      exact List.rel_append hparts (.cons hcharges .nil)

/-- The trades of every book of a run are those of its orders, order by order, and have their
commissions: exactly, where an order has made one trade; and where it has closed a position and
opened another one, so that no share is negative or more than the commission unless the first one
is, and that their decimal sum is the commission unless that is a tie. -/
theorem commission_split (account : AccountSettings) (firstId : Uuid) (listened : Bool)
    (h : (new account firstId listened).turns ts = .ok l) :
    ∃ parts : List (List Trade), l.trades = parts.flatten ∧
      List.Forall₂ Order.Apportioned l.orders parts := by
  have hnew : (new account firstId listened).OrdersCharge := ⟨[], rfl, .nil⟩
  obtain ⟨parts, htrades, hparts⟩ := (consistent_new account firstId listened).changes_induction
    hnew (fun hl hcharge hchange => hcharge.change hl hchange) h
  exact ⟨parts, htrades, hparts.imp fun _ _ => Order.Charges.apportioned⟩

/-- A long position is bought at one price, and sold at another one with more than there is. -/
def turnAround (entry held exit sold : Decimal) : List Turn :=
  [.whole (.updatePrice "A" entry default),
    .whole (.place (.market "A" .buy held) default),
    .whole (.updatePrice "A" exit default),
    .whole (.place (.market "A" .sell sold) default)]

/-- An account with a balance of 100000 and no slippage. -/
def feeAccount (commissionRate : Decimal) : AccountSettings := { commissionRate, slippage := 0 }

/-- The commission of the last order of a run, and those of its trades. -/
def lastCommission? (account : AccountSettings) (ts : List Turn) :
    Option (Decimal × List Decimal) :=
  ((new account default true).turns ts).toOption.bind fun l => l.orders.getLast?.map fun order =>
    (order.commission, (l.trades.filter fun t => t.orderId = order.id).map Trade.commission)

theorem lastCommission?_eq_some {account : AccountSettings} {ts : List Turn}
    {commission : Decimal} {shares : List Decimal}
    (h : lastCommission? account ts = some (commission, shares)) :
    ∃ l order, (new account default true).turns ts = .ok l ∧ order ∈ l.orders ∧
      order.commission = commission ∧
      (l.trades.filter fun t => t.orderId = order.id).map Trade.commission = shares := by
  obtain ⟨l, hrun, h⟩ := Calc.exists_eq_ok h
  obtain ⟨order, horder, h⟩ := Option.map_eq_some_iff.mp h
  obtain ⟨hcommission, hshares⟩ := Prod.mk.inj h
  exact ⟨l, order, hrun, List.mem_of_getLast? horder, hcommission, hshares⟩

/-- A commission of four is split in one and three. -/
theorem commission_split_quarter : ∃ l parts,
    (new (feeAccount (.lit 1 3)) default true).turns
      (turnAround (.lit 1000 0) 1 (.lit 1000 0) (.lit 4 0)) = .ok l ∧
    l.trades.length = 3 ∧ l.trades = parts.flatten ∧
    List.Forall₂ Order.Apportioned l.orders parts := by
  have hlength : ((new (feeAccount (.lit 1 3)) default true).turns
      (turnAround (.lit 1000 0) 1 (.lit 1000 0) (.lit 4 0))).toOption.bind
        (fun l => some l.trades.length) = some 3 := by decide +kernel
  obtain ⟨l, hrun, hlength⟩ := Calc.exists_eq_ok hlength
  obtain ⟨parts, htrades, hparts⟩ := commission_split (feeAccount (.lit 1 3)) default true hrun
  exact ⟨l, parts, hrun, Option.some.inj hlength, htrades, hparts⟩

/-- The shares of a commission with all its digits make up a tie, which the decimal sum takes away
from the commission.  And where an order is for little more than the position and the commission is
one unit, the product for the share is rounded up to one unit, so the share is two units and the
other one negative. -/
theorem commission_split_fails :
    ({ account := feeAccount (.lit 1 3) } : Settings).fault? = none ∧
    (∃ l order, (new (feeAccount (.lit 1 3)) default true).turns (turnAround (.lit 1000 0)
        (.lit 3 0) (.lit 12345678901234567890123456785 25) (.lit 10 0)) = .ok l ∧ order ∈ l.orders ∧
      order.commission = .lit 12345678901234567890123456785 27 ∧
      (l.trades.filter fun t => t.orderId = order.id).map Trade.commission =
        [.lit 37037036703703703670370370355 28, .lit 8641975230864197523086419750 27] ∧
      ¬ ∃ sum, Decimal.total
          [.lit 37037036703703703670370370355 28, .lit 8641975230864197523086419750 27] = .ok sum ∧
        sum.SameValue order.commission) ∧
    ({ account := feeAccount (.lit 1 28) } : Settings).fault? = none ∧
    ∃ l order, (new (feeAccount (.lit 1 28)) default true).turns (turnAround (.lit 2 0) (.lit 55 2)
        (.lit 2 0) (.lit 6 1)) = .ok l ∧ order ∈ l.orders ∧ order.commission = .lit 1 28 ∧
      (l.trades.filter fun t => t.orderId = order.id).map Trade.commission =
        [.lit 2 28, -.lit 1 28] ∧
      order.commission < .lit 2 28 ∧ -.lit 1 28 < (0 : Decimal) := by
  refine ⟨by decide +kernel, ?_, by decide +kernel, ?_⟩
  · have htie : lastCommission? (feeAccount (.lit 1 3)) (turnAround (.lit 1000 0) (.lit 3 0)
        (.lit 12345678901234567890123456785 25) (.lit 10 0)) =
        some (.lit 12345678901234567890123456785 27,
          [.lit 37037036703703703670370370355 28, .lit 8641975230864197523086419750 27]) := by
      decide +kernel
    obtain ⟨l, order, hrun, horder, hcommission, hshares⟩ := lastCommission?_eq_some htie
    have hsum : Decimal.total [.lit 37037036703703703670370370355 28,
        .lit 8641975230864197523086419750 27] = .ok (.lit 12345678901234567890123456786 27) := by
      decide +kernel
    refine ⟨l, order, hrun, horder, hcommission, hshares, ?_⟩
    rintro ⟨sum, htotal, hsame⟩
    obtain rfl := Except.ok.inj (hsum.symm.trans htotal)
    rw [hcommission] at hsame
    exact absurd hsame (by decide +kernel)
  · have hunit : lastCommission? (feeAccount (.lit 1 28)) (turnAround (.lit 2 0) (.lit 55 2)
        (.lit 2 0) (.lit 6 1)) = some (.lit 1 28, [.lit 2 28, -.lit 1 28]) := by decide +kernel
    obtain ⟨l, order, hrun, horder, hcommission, hshares⟩ := lastCommission?_eq_some hunit
    refine ⟨l, order, hrun, horder, hcommission, hshares, ?_, by decide +kernel⟩
    rw [hcommission]
    decide +kernel

end Ledger

end SimBroker
