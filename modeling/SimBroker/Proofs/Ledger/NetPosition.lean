import SimBroker.Proofs.Decimal.Monotone
import SimBroker.Proofs.Ledger.ExitTrades

/-!
# Net positions

The net position of a symbol is the quantity that is held, negative if it is held short.  Every
order that is filled adds its own quantity to it, negative for a sale, whichever of the five ways it
meets the position: a difference of quantities is the sum of the signed ones, and rounding knows no
sign.  So the comparisons that choose the way and the calculations that follow agree.

## Main definitions

* `OrderSide.signed`, `Ledger.net`: signed quantities and net positions
* `Order.Makes`: a trade of an order
* `Ledger.Fresh`: a position that an order has opened
* `Ledger.Shift`: what an order does to the position of its symbol, in five cases
* `Ledger.Executed`: an order that was filled, with its trades

## Main results

* `Meets.rounded_net`: the net position after an order is the rounded sum of the one before and the
  order
* `respond_net`: every turn of a run leaves the net positions, or moves one of them by its order
-/

namespace SimBroker

open Calc (bind_eq_ok pure_eq_ok)
open Decimal (Rounded)

/-! ## Signed quantities -/

namespace OrderSide

/-- A quantity with a sign, positive for a purchase. -/
def signed (side : OrderSide) (quantity : Decimal) : Decimal :=
  match side with
  | buy => quantity
  | sell => -quantity

/-- `1` for a purchase, `-1` for a sale. -/
def factor : OrderSide → ℚ
  | buy => 1
  | sell => -1

theorem toRat_signed (side : OrderSide) (quantity : Decimal) :
    (side.signed quantity).toRat = side.factor * quantity.toRat := by
  cases side <;> simp [signed, factor]

theorem factor_of_ne {side side' : OrderSide} (h : side ≠ side') : side.factor = -side'.factor := by
  cases side <;> cases side' <;> simp_all [factor]

/-- Rounding keeps its value under a sign. -/
theorem rounded_signed {x : ℚ} {c : Decimal} (side : OrderSide) (h : Rounded x c) :
    Rounded (side.factor * x) (side.signed c) := by
  cases side with
  | buy => rwa [factor, one_mul]
  | sell =>
    rw [factor, neg_one_mul]
    exact h.neg

end OrderSide

/-- The quantity that is held, negative if it is held short. -/
def netQuantity : Option Position → Decimal
  | some p => p.side.entrySide.signed p.quantity
  | none => 0

theorem netQuantity_congr {before after : Option Position}
    (h : after.map Position.holding = before.map Position.holding) :
    netQuantity after = netQuantity before := by
  cases before with
  | none =>
    rw [Option.map_none, Option.map_eq_none_iff] at h
    rw [h]
  | some p =>
    obtain ⟨p', rfl, hholding⟩ := Option.map_eq_some_iff.mp h
    obtain ⟨-, -, hside, hquantity, -⟩ := Position.holding_eq_iff.mp hholding
    rw [netQuantity, netQuantity, hside, hquantity]

namespace Position

variable {p p' : Position} {price quantity realized : Decimal} {now : Instant} {orderId : Uuid}
  {request : OrderRequest}

/-- The stop loss and the take profit of a position. -/
def exits (p : Position) : Option Decimal × Option Decimal := (p.stopLoss, p.takeProfit)

theorem exits_mark (h : p.mark price now = .ok p') : p'.exits = p.exits := by
  obtain ⟨_, _, _, -, -, -, rfl⟩ := mark_eq_ok h
  rfl

/-- Giving back keeps the exits. -/
theorem exits_reduced (h : p.reduced orderId quantity price now = .ok (p', realized)) :
    p'.exits = p.exits := by
  obtain ⟨-, _, _, -, -, hmark⟩ := reduced_eq_ok h
  exact (exits_mark hmark :)

/-- Adding replaces the exits that the request names. -/
theorem exits_increased (h : p.increased orderId request quantity price now = .ok p') :
    p'.exits = (request.stopLoss <|> p.stopLoss, request.takeProfit <|> p.takeProfit) := by
  obtain ⟨_, _, -, -, hmark⟩ := increased_eq_ok h
  exact exits_mark hmark

end Position

namespace Meets

variable {order : Order} {request : OrderRequest} {price commission : Decimal} {now : Instant}
  {newId : ℕ} {before after : Option Position} {legs : List Leg}

/-- The net position after an order is the rounded sum of the one before and the order. -/
theorem rounded_net (h : Meets order request price commission now newId before legs after) :
    Rounded ((netQuantity before).toRat + (order.side.signed order.quantity).toRat)
      (netQuantity after) := by
  cases h with
  | opens =>
    refine .of_eq ?_
    show ((PositionSide.ofOrderSide order.side).entrySide.signed order.quantity).toRat = _
    rw [PositionSide.entrySide_ofOrderSide, netQuantity, Decimal.toRat_zero, zero_add]
  | @increases p p' side increased =>
    obtain ⟨total, _, htotal, -, hholding⟩ := Position.holding_increased increased
    have hside : p'.side = p.side := congrArg Holding.side hholding
    have hquantity : p'.quantity = total := congrArg Holding.quantity hholding
    -- both quantities have the sign of the side
    rw [netQuantity, netQuantity, hside, hquantity, side, OrderSide.toRat_signed,
      OrderSide.toRat_signed, ← mul_add]
    exact order.side.rounded_signed (Decimal.rounded_add htotal)
  | @reduces p p' _ side less reduced =>
    obtain ⟨-, rest, _, hrest, -, hholding⟩ := Position.holding_reduced reduced
    have hside : p'.side = p.side := congrArg Holding.side hholding
    have hquantity : p'.quantity = rest := congrArg Holding.quantity hholding
    -- the order has the other sign, so the sum is a difference with the sign of the position
    rw [netQuantity, netQuantity, hside, hquantity, OrderSide.toRat_signed,
      OrderSide.toRat_signed, OrderSide.factor_of_ne side.symm, neg_mul, ← sub_eq_add_neg,
      ← mul_sub]
    exact p.side.entrySide.rounded_signed (Decimal.rounded_sub hrest)
  | @closes p _ _ side same =>
    refine .of_eq ?_
    rw [netQuantity, netQuantity, OrderSide.toRat_signed, OrderSide.toRat_signed,
      OrderSide.factor_of_ne side, Decimal.sameValue_iff.mp same, Decimal.toRat_zero]
    ring
  | @flips p _ _ _ _ rest _ side more reduced product_eq share_eq rest_eq =>
    -- here the difference has the sign of the order
    show Rounded _ ((PositionSide.ofOrderSide order.side).entrySide.signed rest)
    rw [PositionSide.entrySide_ofOrderSide, netQuantity, OrderSide.toRat_signed,
      OrderSide.toRat_signed, OrderSide.factor_of_ne side, neg_mul, neg_add_eq_sub, ← mul_sub]
    exact order.side.rounded_signed (Decimal.rounded_sub rest_eq)

end Meets

/-! ## What an order does to a position -/

/-- A trade of an order at its price, in the position with this id and of this quantity. -/
structure Order.Makes (order : Order) (t : Trade) (id : ℕ) (quantity : Decimal) : Prop where
  orderId_eq : t.orderId = order.id
  positionId_eq : t.positionId = some id
  symbol_eq : t.symbol = order.symbol
  side_eq : t.side = order.side
  quantity_eq : t.quantity = quantity
  price_eq : t.price = order.avgFillPrice

namespace Ledger

variable {l l' l₁ : Ledger} {order : Order} {request : OrderRequest}
  {price commission quantity : Decimal} {now : Instant} {legs : List Leg} {t : Turn}
  {before before' after : Option Position}
  {trades : List Trade} {execution : Option Execution}

/-- The net position of a symbol. -/
def net (l : Ledger) (symbol : String) : Decimal := netQuantity (l.positions.get? symbol)

/-- A position of this quantity that an order has opened, with the exits of the request.  No
position and no trade of the book before has its id. -/
structure Fresh (l : Ledger) (order : Order) (request : OrderRequest) (quantity : Decimal)
    (p : Position) : Prop where
  id_eq : p.id = l.nextPositionId
  not_holds : ¬ l.Holds p.id
  tradesOf_eq : l.tradesOf p.id = []
  symbol_eq : p.symbol = order.symbol
  side_eq : p.side.entrySide = order.side
  quantity_eq : p.quantity = quantity
  entryPrice_eq : p.entryPrice = order.avgFillPrice
  exits_eq : p.exits = request.exits

theorem Consistent.fresh_opened (hl : l.Consistent) (hgiven : l.TradesGiven) :
    l.Fresh (order.filled price commission now) request quantity
      (.opened l.nextPositionId order request quantity price now) where
  id_eq := rfl
  not_holds hholds := Nat.lt_irrefl _ (hl.lt_of_holds hholds)
  tradesOf_eq := hgiven.tradesOf_eq_nil le_rfl
  symbol_eq := rfl
  side_eq := PositionSide.entrySide_ofOrderSide order.side
  quantity_eq := rfl
  entryPrice_eq := rfl
  exits_eq := rfl

/-- What an order does to the position of its symbol: the position before it, its trades, and the
position after it. -/
inductive Shift (l : Ledger) (order : Order) (request : OrderRequest) :
    Option Position → List Trade → Option Position → Prop
  /-- Nothing is held, and a position is opened. -/
  | opens {p' : Position} {t : Trade} (fresh : l.Fresh order request order.quantity p')
      (trade : order.Makes t p'.id order.quantity) : Shift l order request none [t] (some p')
  /-- The order is on the side of the position, whose entry is averaged.  Exits that the request
  names replace those of the position. -/
  | increases {p p' : Position} {t : Trade} (side : p.side.entrySide = order.side)
      (id_eq : p'.id = p.id) (side_eq : p'.side = p.side)
      (quantity_eq : p.quantity.add order.quantity = .ok p'.quantity)
      (entryPrice_eq : Position.averageEntry p.entryPrice p.quantity order.avgFillPrice
        order.quantity p'.quantity = .ok p'.entryPrice)
      (exits_eq : p'.exits =
        (request.stopLoss <|> p.stopLoss, request.takeProfit <|> p.takeProfit))
      (trade : order.Makes t p.id order.quantity) : Shift l order request (some p) [t] (some p')
  /-- The order is against the position and for less. -/
  | reduces {p p' : Position} {t : Trade} (side : p.side.entrySide ≠ order.side)
      (less : order.quantity < p.quantity) (id_eq : p'.id = p.id) (side_eq : p'.side = p.side)
      (quantity_eq : p.quantity.sub order.quantity = .ok p'.quantity)
      (entryPrice_eq : p'.entryPrice = p.entryPrice) (exits_eq : p'.exits = p.exits)
      (trade : order.Makes t p.id order.quantity) : Shift l order request (some p) [t] (some p')
  /-- The order is against the position and for all of it. -/
  | closes {p : Position} {t : Trade} (side : p.side.entrySide ≠ order.side)
      (same : order.quantity.SameValue p.quantity) (trade : order.Makes t p.id order.quantity) :
    Shift l order request (some p) [t] none
  /-- The order is against the position and for more: the first trade closes it, and the second
  opens another with the rest. -/
  | flips {p p' : Position} {rest : Decimal} {t t' : Trade}
      (side : p.side.entrySide ≠ order.side) (more : p.quantity < order.quantity)
      (rest_eq : order.quantity.sub p.quantity = .ok rest)
      (closing : order.Makes t p.id p.quantity) (fresh : l.Fresh order request rest p')
      (opening : order.Makes t' p'.id rest) : Shift l order request (some p) [t, t'] (some p')

/-- The way in which an order meets a position is what it does to it. -/
theorem Consistent.shift (hl : l.Consistent) (hgiven : l.TradesGiven)
    (h : Meets order request price commission now l.nextPositionId before legs after) :
    l.Shift (order.filled price commission now) request before (legs.map Leg.trade) after := by
  cases h with
  | opens => exact .opens (hl.fresh_opened hgiven) ⟨rfl, rfl, rfl, rfl, rfl, rfl⟩
  | @increases p p' side increased =>
    obtain ⟨hid, hside⟩ := Position.id_side_increased increased
    obtain ⟨total, entry, htotal, hentry, hholding⟩ := Position.holding_increased increased
    obtain rfl : p'.quantity = total := congrArg Holding.quantity hholding
    obtain rfl : p'.entryPrice = entry := congrArg Holding.entryPrice hholding
    exact .increases side hid hside htotal hentry (Position.exits_increased increased)
      ⟨rfl, congrArg some hid, rfl, rfl, rfl, rfl⟩
  | @reduces p p' realized side less reduced =>
    obtain ⟨hid, hside⟩ := Position.id_side_reduced reduced
    obtain ⟨-, rest, _, hrest, -, hholding⟩ := Position.holding_reduced reduced
    obtain rfl : p'.quantity = rest := congrArg Holding.quantity hholding
    exact .reduces side less hid hside hrest (congrArg Holding.entryPrice hholding)
      (Position.exits_reduced reduced) ⟨rfl, congrArg some hid, rfl, rfl, rfl, rfl⟩
  | closes side same reduced =>
    obtain ⟨hid, -⟩ := Position.id_side_reduced reduced
    exact .closes side same ⟨rfl, congrArg some hid, rfl, rfl, rfl, rfl⟩
  | flips side more reduced product_eq share_eq rest_eq =>
    obtain ⟨hid, -⟩ := Position.id_side_reduced reduced
    exact .flips side more rest_eq ⟨rfl, congrArg some hid, rfl, rfl, rfl, rfl⟩
      (hl.fresh_opened hgiven) ⟨rfl, rfl, rfl, rfl, rfl, rfl⟩

/-- Marks are not looked at. -/
theorem Shift.congr (h : l.Shift order request before trades after)
    (heq : before.map Position.unmarked = before'.map Position.unmarked) :
    l.Shift order request before' trades after := by
  cases before' with
  | none =>
    rw [Option.map_none, Option.map_eq_none_iff] at heq
    rwa [heq] at h
  | some p =>
    obtain ⟨p₁, rfl, hunmarked⟩ := Option.map_eq_some_iff.mp heq
    obtain ⟨_, _, _, _, rfl⟩ := Position.unmarked_eq_iff.mp hunmarked
    -- the marks of the position are in none of the conditions
    cases h with
    | increases side id_eq side_eq quantity_eq entryPrice_eq exits_eq trade =>
      exact .increases side id_eq side_eq quantity_eq entryPrice_eq exits_eq trade
    | reduces side less id_eq side_eq quantity_eq entryPrice_eq exits_eq trade =>
      exact .reduces side less id_eq side_eq quantity_eq entryPrice_eq exits_eq trade
    | closes side same trade => exact .closes side same trade
    | flips side more rest_eq closing fresh opening =>
      exact .flips side more rest_eq closing fresh opening

/-! ## What a turn does -/

/-- The order of a request was filled: it is added to the history with its trades, and has moved the
net position of its symbol by its signed quantity.  Positions of other symbols are as they were,
apart from their marks. -/
structure Executed (l : Ledger) (request : OrderRequest) (order : Order) (trades : List Trade)
    (l' : Ledger) : Prop where
  symbol_eq : order.symbol = request.symbol
  side_eq : order.side = request.side
  quantity_eq : order.quantity = request.quantity
  orders_eq : l'.orders = l.orders ++ [order]
  trades_eq : l'.trades = l.trades ++ trades
  net_eq : ∃ net, (l.net order.symbol).add (order.side.signed order.quantity) = .ok net ∧
    (l'.net order.symbol).SameValue net
  shift : l.Shift order request (l.positions.get? order.symbol) trades
    (l'.positions.get? order.symbol)
  unmarked_other : ∀ s, s ≠ order.symbol →
    (l'.positions.get? s).map Position.unmarked = (l.positions.get? s).map Position.unmarked

/-- What a fill after a change of marks does. -/
theorem Consistent.executed (hl : l.Consistent) (hgiven : l.TradesGiven)
    {exit : Option LedgerEvent} {notional : Decimal} (hremarked : l.Remarked exit l₁)
    (h : l₁.Filled request price notional commission now legs l') :
    l.Executed request ((l₁.orderOf request now).filled price commission now)
      (legs.map Leg.trade) l' where
  symbol_eq := rfl
  side_eq := rfl
  quantity_eq := rfl
  orders_eq := hremarked.quiet.orders_eq ▸ h.orders_eq
  trades_eq := hremarked.quiet.trades_eq ▸ h.trades_eq
  net_eq := by
    obtain ⟨net, hnet, hvalue⟩ := Decimal.exists_add_of_rounded h.meets.rounded_net
    rw [netQuantity_congr (hremarked.quiet.holding_eq _)] at hnet
    exact ⟨net, hnet, Decimal.sameValue_iff.mpr hvalue.symm⟩
  shift := by
    have hmeets := h.meets
    rw [hremarked.quiet.nextPositionId_eq] at hmeets
    exact (hl.shift hgiven hmeets).congr (hremarked.unmarked_eq _)
  unmarked_other s hs := by
    rw [h.get?_other s hs]
    exact hremarked.unmarked_eq s

/-- Every turn of a run, whatever was done before, fills no order and leaves all net positions, or
fills one order.  That has moved the net position of its symbol by its signed quantity, in the way
in which it met the position there.  The turn answers with the order, exactly the trades that were
added to the history, and the position that there is now; only if the balance is negative it does
not answer so. -/
theorem respond_net (account : AccountSettings) (firstId : Uuid) (listened : Bool) (ts : List Turn)
    (hrun : (new account firstId listened).turns ts = .ok l)
    (h : l.respond t = .ok (l', execution)) :
    (l'.orders = l.orders ∧ l'.trades = l.trades ∧ (∀ s, l'.net s = l.net s) ∧ execution = none) ∨
    ∃ request order trades, t.Asks request ∧ l.Executed request order trades l' ∧
      execution = if l'.freeBalance < 0 then none
        else some ⟨order, trades, l'.positions.get? order.symbol⟩ := by
  obtain ⟨hl, he, -⟩ := (consistent_new account firstId listened).tells_turns
    (entered_new account firstId listened) hrun
  have hturn : l.turn t = .ok l' := by rw [turn_eq, h, Calc.ok_bind, pure_eq_ok]
  have hl' := (hl.moved_turn hturn).consistent hl
  cases hl.answered_respond h with
  | remarked remarked =>
    have hquiet := remarked.quiet
    exact .inl ⟨hquiet.orders_eq, hquiet.trades_eq,
      fun s => netQuantity_congr (hquiet.holding_eq s), rfl⟩
  | exitSet kind price now get? =>
    have hquiet := Quiet.insert get? (Position.holding_withExit _ kind price now)
    exact .inl ⟨rfl, rfl, fun s => netQuantity_congr (hquiet.holding_eq s), rfl⟩
  | filled _ asks remarked filled =>
    refine .inr ⟨_, _, _, asks, hl.executed he.given remarked filled, ?_⟩
    rw [hl'.verdict_eq]
    split <;> rfl

/-- The number of trades that a turn answers with, and the net position of their symbol then. -/
def answeredNet? (account : AccountSettings) (earlier : List Turn) (t : Turn) :
    Option (ℕ × Decimal) :=
  ((new account default true).turns earlier).toOption.bind fun l =>
    (l.respond t).toOption.bind fun answered =>
      answered.2.map fun execution =>
        (execution.trades.length, answered.1.net execution.order.symbol)

/-- A sale of five, with exits for what it leaves. -/
def fiveSold : OrderRequest :=
  { OrderRequest.market "A" .sell (.lit 5 0) with
    stopLoss := some (.lit 50 0), takeProfit := some (.lit 10 0) }

/-- Five of the three that are held are sold: one trade closes the position, another opens a short
one, and two are held short. -/
theorem respond_net_flip : ∃ l l' order trades,
    (new (smallAccount 0) default true).turns stoppedLong = .ok l ∧
    l.respond (.whole (.place fiveSold default)) =
      .ok (l', some ⟨order, trades, l'.positions.get? order.symbol⟩) ∧
    l.Executed fiveSold order trades l' ∧ trades.length = 2 ∧ l'.net "A" = -.lit 2 0 := by
  have hnet : answeredNet? (smallAccount 0) stoppedLong (.whole (.place fiveSold default)) =
      some (2, -.lit 2 0) := by decide +kernel
  obtain ⟨l, hrun, hnet⟩ := Calc.exists_eq_ok hnet
  obtain ⟨⟨l', answered⟩, hrespond, hnet⟩ := Calc.exists_eq_ok hnet
  obtain ⟨execution, rfl, hnet⟩ := Option.map_eq_some_iff.mp hnet
  obtain ⟨hlength, hnet⟩ := Prod.mk.inj hnet
  rcases respond_net (smallAccount 0) default true stoppedLong hrun hrespond with
    ⟨-, -, -, hnone⟩ | ⟨request, order, trades, rfl, hexecuted, hexecution⟩
  · exact nomatch hnone
  · split at hexecution
    · exact nomatch hexecution
    · obtain rfl := Option.some.inj hexecution
      have hsymbol : order.symbol = "A" := hexecuted.symbol_eq
      exact ⟨l, l', order, trades, hrun, hrespond, hexecuted, hlength, hsymbol ▸ hnet⟩

end Ledger

end SimBroker
