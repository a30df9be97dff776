import SimBroker.Ledger.Operations
import SimBroker.Proofs.Position

/-!
# What a fill does

An order that is filled makes one trade, or two if it closes a position and opens another; each
trade is a *leg*.  `Meets` says which legs an order has with the position of its symbol, in five
cases, and `Filled` says what the fill does to every part of the book.  Little else about a fill is
needed later: `fill_cases` is the only place where the steps of a fill are opened, and
`fillCounted_cases` says the same of a fill that is counted.

## Main definitions

* `Leg`: a trade, with the change of position that it makes
* `Meets`: the legs of an order and the position that it leaves, from the position that it meets
* `Offset`: the part of an order that gives back
* `OrderSide.cashFlow`: what an order brings to the balance
* `Filled`: the book after a fill, field by field
* `fillCounted`: a fill, and what the operations do with its answer

## Main results

* `fill_cases`, `fillCounted_cases`: a fill is refused for lack of balance, or `Filled`
-/

namespace SimBroker

open Calc (bind_eq_ok pure_eq_ok)

section Events

variable (events : Option (List LedgerEvent)) (told told' : List LedgerEvent)

/-- Events are kept in the order in which they are told, if they are kept. -/
theorem map_append_append :
    (events.map (· ++ told)).map (· ++ told') = events.map (· ++ (told ++ told')) := by
  cases events with
  | none => rfl
  | some es => exact congrArg some (List.append_assoc es told told')

theorem map_append_nil : events.map (· ++ []) = events := by
  cases events with
  | none => rfl
  | some es => exact congrArg some (List.append_nil es)

end Events

/-- One trade of an order, with the change of position that it makes and the position after it. -/
structure Leg where
  change : PositionChange
  position : Position
  trade : Trade

namespace Leg

/-- The event that tells of a leg. -/
def event (leg : Leg) : LedgerEvent := .position leg.change leg.position (some leg.trade)

/-- The profit that an account has realized after a leg. -/
def realize (sum : Decimal) (leg : Leg) : Calc Decimal :=
  if leg.change.realizesPnl then sum.add leg.trade.realizedPnl else .ok sum

theorem foldlM_realize_of_not {legs : List Leg}
    (h : ∀ leg ∈ legs, ¬ leg.change.realizesPnl = true) (sum : Decimal) :
    legs.foldlM realize sum = .ok sum := by
  induction legs with
  | nil => rfl
  | cons leg legs ih =>
    obtain ⟨hleg, hlegs⟩ := List.forall_mem_cons.mp h
    rw [List.foldlM_cons, realize, if_neg hleg]
    exact ih hlegs

/-- Where only the first leg gives back, the profit of an order is that of this leg. -/
theorem add_eq_ok {leg : Leg} {legs : List Leg} {sum total : Decimal}
    (h : (leg :: legs).foldlM realize sum = .ok total) (hleg : leg.change.realizesPnl = true)
    (hlegs : ∀ leg ∈ legs, ¬ leg.change.realizesPnl = true) :
    sum.add leg.trade.realizedPnl = .ok total := by
  rw [List.foldlM_cons, bind_eq_ok] at h
  obtain ⟨total', hadd, hrest⟩ := h
  -- the legs after the first leave the sum as it is
  rw [foldlM_realize_of_not hlegs, Except.ok.injEq] at hrest
  subst hrest
  rwa [realize, if_pos hleg] at hadd

end Leg

/-- What an order brings to the balance: a purchase costs its value and the commission, a sale
brings its value less the commission. -/
def OrderSide.cashFlow (side : OrderSide) (notional commission : Decimal) : Calc Decimal :=
  match side with
  | .buy => do return -(← notional.add commission)
  | .sell => notional.sub commission

/-- The leg that an order makes in a position. -/
def Order.leg (order : Order) (change : PositionChange) (p : Position) (id : Uuid)
    (quantity price commission realized : Decimal) (now : Instant) : Leg :=
  ⟨change, p, order.trade id p.id quantity price commission realized now⟩

/-- How an order meets the position of its symbol: the position before it, its legs, and the
position after it.  `newId` is the id of a position that it opens. -/
inductive Meets (order : Order) (request : OrderRequest) (price commission : Decimal)
    (now : Instant) (newId : ℕ) : Option Position → List Leg → Option Position → Prop
  | opens :
    Meets order request price commission now newId none
      [order.leg .opened (.opened newId order request order.quantity price now) order.id.next
        order.quantity price commission 0 now]
      (some (.opened newId order request order.quantity price now))
  | increases {p p' : Position} (side : p.side.entrySide = order.side)
      (increased : p.increased order.id request order.quantity price now = .ok p') :
    Meets order request price commission now newId (some p)
      [order.leg .increased p' order.id.next order.quantity price commission 0 now] (some p')
  | reduces {p p' : Position} {realized : Decimal} (side : p.side.entrySide ≠ order.side)
      (less : order.quantity < p.quantity)
      (reduced : p.reduced order.id order.quantity price now = .ok (p', realized)) :
    Meets order request price commission now newId (some p)
      [order.leg .reduced p' order.id.next order.quantity price commission realized now] (some p')
  | closes {p p' : Position} {realized : Decimal} (side : p.side.entrySide ≠ order.side)
      (same : order.quantity.SameValue p.quantity)
      (reduced : p.reduced order.id order.quantity price now = .ok (p', realized)) :
    Meets order request price commission now newId (some p)
      [order.leg .closed p' order.id.next order.quantity price commission realized now] none
  | flips {p p' : Position} {realized product share rest restCommission : Decimal}
      (side : p.side.entrySide ≠ order.side) (more : p.quantity < order.quantity)
      (reduced : p.reduced order.id p.quantity price now = .ok (p', realized))
      (product_eq : commission.mul p.quantity = .ok product)
      (share_eq : product.div order.quantity = .ok share)
      (rest_eq : order.quantity.sub p.quantity = .ok rest)
      (restCommission_eq : commission.sub share = .ok restCommission) :
    Meets order request price commission now newId (some p)
      [order.leg .closed p' order.id.next p.quantity price share realized now,
        order.leg .opened (.opened newId order request rest price now) order.id.next.next
          rest price restCommission 0 now]
      (some (.opened newId order request rest price now))

namespace Ledger

variable {l l' : Ledger} {order : Order} {request : OrderRequest} {p : Position} {symbol : String}
  {quantity price notional commission : Decimal} {now : Instant} {trade : Trade} {legs : List Leg}

/-! ## The legs -/

/-- The legs of an order have been traded; its price is not paid yet. -/
structure Traded (l : Ledger) (symbol : String) (legs : List Leg) (l' : Ledger) : Prop where
  account_eq : l'.account = l.account
  freeBalance_eq : l'.freeBalance = l.freeBalance
  prices_eq : l'.prices = l.prices
  get?_other : ∀ s, s ≠ symbol → l'.positions.get? s = l.positions.get? s
  orders_eq : l'.orders = l.orders
  trades_eq : l'.trades = l.trades ++ legs.map Leg.trade
  nextPositionId_eq : l'.nextPositionId = l.nextPositionId + legs.countP (·.change = .opened)
  realizedPnl_eq : legs.foldlM Leg.realize l.realizedPnl = .ok l'.realizedPnl
  totalCommission_eq : l'.totalCommission = l.totalCommission
  events_eq : l'.events = l.events.map (· ++ legs.map Leg.event)
  fills_eq : l'.fills = l.fills

namespace Traded

theorem trans {l₁ l₂ l₃ : Ledger} {legs₁ legs₂ : List Leg} (h₁ : l₁.Traded symbol legs₁ l₂)
    (h₂ : l₂.Traded symbol legs₂ l₃) : l₁.Traded symbol (legs₁ ++ legs₂) l₃ where
  account_eq := h₂.account_eq.trans h₁.account_eq
  freeBalance_eq := h₂.freeBalance_eq.trans h₁.freeBalance_eq
  prices_eq := h₂.prices_eq.trans h₁.prices_eq
  get?_other := fun s hs => (h₂.get?_other s hs).trans (h₁.get?_other s hs)
  orders_eq := h₂.orders_eq.trans h₁.orders_eq
  trades_eq := by rw [h₂.trades_eq, h₁.trades_eq, List.map_append, List.append_assoc]
  nextPositionId_eq := by
    rw [h₂.nextPositionId_eq, h₁.nextPositionId_eq, List.countP_append, Nat.add_assoc]
  realizedPnl_eq := by
    rw [List.foldlM_append, bind_eq_ok]
    exact ⟨_, h₁.realizedPnl_eq, h₂.realizedPnl_eq⟩
  totalCommission_eq := h₂.totalCommission_eq.trans h₁.totalCommission_eq
  events_eq := by
    rw [h₂.events_eq, h₁.events_eq, map_append_append, List.map_append]
  fills_eq := h₂.fills_eq.trans h₁.fills_eq

end Traded

/-- Recording one leg, after it has changed the position of its symbol. -/
theorem traded_record (leg : Leg) {positions : Table String Position} {realizedPnl : Decimal}
    {nextPositionId : ℕ} {nextId : Uuid}
    (hother : ∀ s, s ≠ symbol → positions.get? s = l.positions.get? s)
    (hid : nextPositionId = l.nextPositionId + [leg].countP (·.change = .opened))
    (hrealized : leg.realize l.realizedPnl = .ok realizedPnl) :
    l.Traded symbol [leg]
      ({ l with positions, realizedPnl, nextPositionId, nextId }.record leg.change leg.position
        leg.trade) where
  account_eq := rfl
  freeBalance_eq := rfl
  prices_eq := rfl
  get?_other := hother
  orders_eq := rfl
  trades_eq := rfl
  nextPositionId_eq := hid
  realizedPnl_eq := by
    rw [List.foldlM_cons, bind_eq_ok]
    exact ⟨_, hrealized, rfl⟩
  totalCommission_eq := rfl
  events_eq := rfl
  fills_eq := rfl

/-- Giving back closes the position if nothing is left of it. -/
theorem reduce_eq_ok (h : l.reduce p order quantity price commission now = .ok (l', trade)) :
    ∃ p' realized, p.reduced order.id quantity price now = .ok (p', realized) ∧
      (∃ leg : Leg, leg = order.leg (if p'.quantity.isZero then .closed else .reduced) p' l.nextId
        quantity price commission realized now ∧ trade = leg.trade ∧
          l.Traded order.symbol [leg] l') ∧
      l'.positions.get? order.symbol = (if p'.quantity.isZero then none else some p') ∧
      l'.nextId = l.nextId.next := by
  simp only [reduce, bind_eq_ok, pure_eq_ok, Prod.mk.injEq] at h
  obtain ⟨⟨p', realized⟩, hred, total, htotal, rfl, rfl⟩ := h
  refine ⟨p', realized, hred, ⟨_, rfl, rfl, ?_⟩, ?_, rfl⟩
  · refine traded_record (order.leg (if p'.quantity.isZero then .closed else .reduced) p' l.nextId
      quantity price commission realized now) (fun s hs => ?_) ?_ ?_
    -- other symbols keep what they hold, whether this one is closed or not
    · split
      · exact (Table.get?_erase ..).trans (if_neg (Ne.symm hs))
      · exact (Table.get?_insert ..).trans (if_neg (Ne.symm hs))
    · cases hz : p'.quantity.isZero <;> simp [Order.leg] <;> rfl
    · cases hz : p'.quantity.isZero <;> exact htotal
  · -- what is left of the position is in its place, unless nothing is
    show Table.get? (if p'.quantity.isZero then _ else _) order.symbol = _
    split
    · exact (Table.get?_erase ..).trans (if_pos rfl)
    · exact (Table.get?_insert ..).trans (if_pos rfl)

/-- What an order adds to the position of its symbol, or opens as a new one. -/
theorem extend_eq_ok (h : l.extend order request quantity price commission now = .ok (l', trade)) :
    ∃ leg : Leg, trade = leg.trade ∧ l.Traded order.symbol [leg] l' ∧
      l'.positions.get? order.symbol = some leg.position ∧
      match l.positions.get? order.symbol with
      | none => leg = order.leg .opened
          (.opened l.nextPositionId order request quantity price now) l.nextId
          quantity price commission 0 now
      | some p => ∃ p', p.increased order.id request quantity price now = .ok p' ∧
          leg = order.leg .increased p' l.nextId quantity price commission 0 now := by
  have hother (p : Position) (s : String) (hs : s ≠ order.symbol) :
      (l.positions.insert order.symbol p).get? s = l.positions.get? s :=
    (Table.get?_insert ..).trans (if_neg (Ne.symm hs))
  unfold extend at h
  split at h
  · next p hp =>
    -- the order adds to the position of its symbol
    simp only [bind_eq_ok, pure_eq_ok, exists_eq_left', Prod.mk.injEq] at h
    obtain ⟨p', hp', rfl, rfl⟩ := h
    rw [hp]
    exact ⟨_, rfl,
      traded_record (order.leg .increased p' l.nextId quantity price commission 0 now) (hother p')
        rfl rfl,
      (Table.get?_insert ..).trans (if_pos rfl), p', hp', rfl⟩
  · next hp =>
    -- the symbol is flat, and the order opens a position
    simp only [bind_eq_ok, pure_eq_ok, exists_eq_left', Prod.mk.injEq] at h
    obtain ⟨rfl, rfl⟩ := h
    rw [hp]
    exact ⟨_, rfl,
      traded_record (order.leg .opened (.opened l.nextPositionId order request quantity price now)
        l.nextId quantity price commission 0 now) (hother _) rfl rfl,
      (Table.get?_insert ..).trans (if_pos rfl), rfl⟩

/-- What `offset` comes to. -/
inductive Offset (l : Ledger) (order : Order) (price commission : Decimal) (now : Instant) :
    Ledger → Remainder → Prop
  /-- Nothing opposes the order. -/
  | none (side : ∀ p, l.positions.get? order.symbol = some p → p.side.entrySide = order.side) :
    Offset l order price commission now l ⟨[], order.quantity, commission⟩
  /-- The order is for no more than the opposing position, and nothing is left of it. -/
  | part {l' : Ledger} {p : Position} {trade : Trade} {rest : Remainder}
      (get? : l.positions.get? order.symbol = some p) (side : p.side.entrySide ≠ order.side)
      (not_more : ¬ p.quantity < order.quantity)
      (reduce : l.reduce p order order.quantity price commission now = .ok (l', trade))
      (trades_eq : rest.trades = [trade]) (not_pos : ¬ 0 < rest.quantity) :
    Offset l order price commission now l' rest
  /-- The order is for more: the position is given back with its share of the commission. -/
  | all {l' : Ledger} {p : Position} {product share : Decimal} {trade : Trade} {rest : Remainder}
      (get? : l.positions.get? order.symbol = some p) (side : p.side.entrySide ≠ order.side)
      (more : p.quantity < order.quantity) (product_eq : commission.mul p.quantity = .ok product)
      (share_eq : product.div order.quantity = .ok share)
      (reduce : l.reduce p order p.quantity price share now = .ok (l', trade))
      (trades_eq : rest.trades = [trade])
      (quantity_eq : order.quantity.sub p.quantity = .ok rest.quantity)
      (commission_eq : commission.sub share = .ok rest.commission) :
    Offset l order price commission now l' rest

theorem offset_eq_ok {rest : Remainder}
    (h : l.offset order price commission now = .ok (l', rest)) :
    Offset l order price commission now l' rest := by
  unfold offset at h
  split at h
  · next hp =>
    simp only [pure_eq_ok, Prod.mk.injEq] at h
    obtain ⟨rfl, rfl⟩ := h
    exact .none fun p hp' => by simp [hp] at hp'
  · next p hp =>
    split at h
    · next hside =>
      simp only [pure_eq_ok, Prod.mk.injEq] at h
      obtain ⟨rfl, rfl⟩ := h
      exact .none fun p' hp' => by rwa [← Option.some.inj (hp.symm.trans hp')]
    · next hside =>
      dsimp only at h
      rw [Decimal.min_eq] at h
      by_cases hmore : p.quantity < order.quantity
      · have hne := Decimal.not_sameValue_of_lt hmore
        simp only [if_pos hmore, if_neg hne, bind_eq_ok, pure_eq_ok, Prod.mk.injEq] at h
        obtain ⟨product, hproduct, share, hshare, ⟨l₁, trade⟩, hreduce, restQuantity, hquantity,
          restCommission, hcommission, rfl, rfl⟩ := h
        exact .all hp hside hmore hproduct hshare hreduce rfl hquantity hcommission
      · simp only [if_neg hmore, if_pos (Decimal.SameValue.refl _), bind_eq_ok, pure_eq_ok,
          exists_eq_left', Prod.mk.injEq] at h
        obtain ⟨⟨l₁, trade⟩, hreduce, restQuantity, hquantity, restCommission, -, rfl, rfl⟩ := h
        -- the order less its own quantity leaves nothing to add
        refine .part hp hside hmore hreduce rfl ?_
        rw [Decimal.pos_sub_iff hquantity]
        exact (Decimal.SameValue.refl _).not_lt

/-- What is left of an order after `offset` is added to the symbol's position, if anything is. -/
def addRest (l : Ledger) (order : Order) (request : OrderRequest) (rest : Remainder)
    (price : Decimal) (now : Instant) : Calc (Ledger × List Trade) :=
  if 0 < rest.quantity then do
    let (l, trade) ← l.extend order request rest.quantity price rest.commission now
    return (l, [trade])
  else return (l, [])

/-- The legs of an order: what it gives back, and then what it adds with the rest. -/
theorem legs_eq_ok {l₁ l₂ : Ledger} {rest : Remainder} {opening : List Trade}
    (hq : 0 < order.quantity) (hid : l.nextId = order.id.next)
    (hoffset : l.offset order price commission now = .ok (l₁, rest))
    (hextend : l₁.addRest order request rest price now = .ok (l₂, opening)) :
    ∃ legs, l.Traded order.symbol legs l₂ ∧ rest.trades ++ opening = legs.map Leg.trade ∧
      Meets order request price commission now l.nextPositionId (l.positions.get? order.symbol) legs
        (l₂.positions.get? order.symbol) := by
  unfold addRest at hextend
  cases offset_eq_ok hoffset with
  | none side =>
    -- nothing is given back, so the whole order is added
    rw [if_pos hq] at hextend
    simp only [bind_eq_ok, pure_eq_ok, Prod.mk.injEq] at hextend
    obtain ⟨⟨l₂, trade⟩, hext, rfl, rfl⟩ := hextend
    obtain ⟨leg, rfl, htraded, hget, hleg⟩ := extend_eq_ok hext
    refine ⟨[leg], htraded, rfl, ?_⟩
    rw [hget]
    cases hp : l.positions.get? order.symbol with
    | none =>
      rw [hp, hid] at hleg
      subst hleg
      exact .opens
    | some p =>
      rw [hp, hid] at hleg
      obtain ⟨p', hincreased, rfl⟩ := hleg
      exact .increases (side p hp) hincreased
  | @part _ p _ _ hp side not_more reduce trades_eq not_pos =>
    obtain ⟨p', realized, hreduced, ⟨leg, hleg, rfl, htraded⟩, hget, -⟩ := reduce_eq_ok reduce
    -- the whole order is given back; whether it closes is a matter of the quantities
    rw [if_neg not_pos] at hextend
    simp only [pure_eq_ok, Prod.mk.injEq] at hextend
    obtain ⟨rfl, rfl⟩ := hextend
    refine ⟨[leg], htraded, by rw [trades_eq]; rfl, ?_⟩
    rw [hp, hget, hleg, hid]
    by_cases hsame : p.quantity.SameValue order.quantity
    · have hzero := (Position.isZero_reduced hreduced).mpr hsame
      rw [if_pos hzero, if_pos hzero]
      exact .closes side (Eq.symm hsame) hreduced
    · have hzero := mt (Position.isZero_reduced hreduced).mp hsame
      rw [if_neg hzero, if_neg hzero]
      refine .reduces side ?_ hreduced
      rw [Decimal.lt_iff] at not_more ⊢
      rw [Decimal.sameValue_iff] at hsame
      exact lt_of_le_of_ne (not_lt.mp not_more) (Ne.symm hsame)
  | @all _ p product share _ _ hp side more product_eq share_eq reduce trades_eq quantity_eq
      commission_eq =>
    obtain ⟨p', realized, hreduced, ⟨leg, hleg, rfl, htraded⟩, hget, hnext⟩ := reduce_eq_ok reduce
    -- a position less its own quantity is nothing, so the rest opens a new one
    have hzero := (Position.isZero_reduced hreduced).mpr (.refl _)
    have hpos : 0 < rest.quantity := (Decimal.pos_sub_iff quantity_eq).mpr more
    rw [if_pos hzero] at hget hleg
    rw [if_pos hpos] at hextend
    simp only [bind_eq_ok, pure_eq_ok, Prod.mk.injEq] at hextend
    obtain ⟨⟨l₂, trade⟩, hext, rfl, rfl⟩ := hextend
    obtain ⟨leg', rfl, htraded', hget', hleg'⟩ := extend_eq_ok hext
    rw [hid] at hleg
    rw [hget, hnext, hid] at hleg'
    subst hleg hleg'
    refine ⟨_, htraded.trans htraded', by rw [trades_eq]; rfl, ?_⟩
    have hcount : l₁.nextPositionId = l.nextPositionId := htraded.nextPositionId_eq
    rw [hp, hget', hcount]
    exact .flips side more hreduced product_eq share_eq quantity_eq commission_eq

/-! ## The payment -/

theorem settle_eq_ok {side : OrderSide} (h : l.settle side notional commission = .ok l') :
    ∃ flow freeBalance totalCommission, side.cashFlow notional commission = .ok flow ∧
      l.freeBalance.add flow = .ok freeBalance ∧
      l.totalCommission.add commission = .ok totalCommission ∧
      l' = { l with freeBalance, totalCommission } := by
  cases side with
  | buy =>
    simp only [settle, bind_eq_ok, pure_eq_ok, exists_eq_left'] at h
    obtain ⟨cost, hcost, freeBalance, hfree, totalCommission, htotal, rfl⟩ := h
    refine ⟨-cost, freeBalance, totalCommission, ?_, hfree, htotal, rfl⟩
    simp only [OrderSide.cashFlow, bind_eq_ok, pure_eq_ok]
    exact ⟨cost, hcost, rfl⟩
  | sell =>
    simp only [settle, bind_eq_ok, pure_eq_ok] at h
    obtain ⟨flow, hflow, freeBalance, hfree, totalCommission, htotal, rfl⟩ := h
    exact ⟨flow, freeBalance, totalCommission, hflow, hfree, htotal, rfl⟩

/-! ## Fills -/

/-- Whether a balance can pay for an order; a sale it always can. -/
def Affordable (balance : Decimal) (side : OrderSide) (notional commission : Decimal) : Prop :=
  side = .buy → (notional.add commission).All (· ≤ balance)

/-- What an order has paid: its value at the price of the fill, and its commission. -/
structure Paid (l : Ledger) (request : OrderRequest) (price notional commission : Decimal)
    (l' : Ledger) : Prop where
  notional_eq : request.quantity.mul price = .ok notional
  commission_eq : notional.mul l.account.commissionRate = .ok commission
  freeBalance_eq : ∃ flow, request.side.cashFlow notional commission = .ok flow ∧
    l.freeBalance.add flow = .ok l'.freeBalance
  totalCommission_eq : l.totalCommission.add commission = .ok l'.totalCommission
  affordable : Affordable l.freeBalance request.side notional commission

/-- The order that a request becomes in a book. -/
def orderOf (l : Ledger) (request : OrderRequest) (now : Instant) : Order :=
  .ofRequest l.nextId request now

/-- A request has been filled at a price, with these legs. -/
structure Filled (l : Ledger) (request : OrderRequest) (price notional commission : Decimal)
    (now : Instant) (legs : List Leg) (l' : Ledger) : Prop
    extends l.Paid request price notional commission l' where
  meets : Meets (l.orderOf request now) request price commission now l.nextPositionId
    (l.positions.get? request.symbol) legs (l'.positions.get? request.symbol)
  account_eq : l'.account = l.account
  prices_eq : l'.prices = l.prices
  get?_other : ∀ s, s ≠ request.symbol → l'.positions.get? s = l.positions.get? s
  orders_eq : l'.orders = l.orders ++ [(l.orderOf request now).filled price commission now]
  trades_eq : l'.trades = l.trades ++ legs.map Leg.trade
  nextPositionId_eq : l'.nextPositionId = l.nextPositionId + legs.countP (·.change = .opened)
  realizedPnl_eq : legs.foldlM Leg.realize l.realizedPnl = .ok l'.realizedPnl
  events_eq : l'.events = l.events.map (· ++ (legs.map Leg.event ++
    [.orderFilled ((l.orderOf request now).filled price commission now)]))

/-- What a book answers to an order that it has filled: that something is wrong with it now, or the
result. -/
def verdict (l : Ledger) (execution : Execution) : Outcome Execution :=
  match l.violation? with
  | some message => .error (.invariantViolation message)
  | none => .ok execution

/-- The steps of a fill, with the addition of what is left as one step. -/
theorem execute_eq : l.execute request price notional commission now = do
    let order := l.orderOf request now
    let (l, rest) ← l.mint.2.offset order price commission now
    let (l, opening) ← l.addRest order request rest price now
    let l ← l.settle request.side notional commission
    let order := order.filled price commission now
    let l := { l with orders := l.orders ++ [order] }.emit (.orderFilled order)
    return (l, l.verdict ⟨order, rest.trades ++ opening, l.positions.get? request.symbol⟩) := by
  have htail (l : Ledger) (execution : Execution) :
      (match l.violation? with
        | some message => pure (l, .error (.invariantViolation message))
        | none => pure (l, .ok execution)) = (pure (l, l.verdict execution) : Calc _) := by
    unfold verdict
    cases l.violation? <;> rfl
  unfold execute addRest
  refine bind_congr fun ⟨l₁, rest⟩ => ?_
  simp only [← htail]
  split
  · exact (bind_assoc ..).symm
  · rfl

theorem execute_eq_ok {outcome : Outcome Execution} (hq : 0 < request.quantity)
    (hnotional : request.quantity.mul price = .ok notional)
    (hcommission : notional.mul l.account.commissionRate = .ok commission)
    (haffordable : Affordable l.freeBalance request.side notional commission)
    (h : l.execute request price notional commission now = .ok (l', outcome)) :
    ∃ legs, l.Filled request price notional commission now legs l' ∧
      outcome = l'.verdict ⟨(l.orderOf request now).filled price commission now,
        legs.map Leg.trade, l'.positions.get? request.symbol⟩ := by
  rw [execute_eq] at h
  simp only [bind_eq_ok, pure_eq_ok, Prod.mk.injEq] at h
  obtain ⟨⟨l₁, rest⟩, hoffset, ⟨l₂, opening⟩, hextend, l₃, hsettle, rfl, rfl⟩ := h
  -- the legs are traded, then the order is paid for and recorded
  have hquantity : 0 < (l.orderOf request now).quantity := hq
  obtain ⟨legs, htraded, htrades, hmeets⟩ := legs_eq_ok hquantity rfl hoffset hextend
  obtain ⟨flow, freeBalance, totalCommission, hflow, hfree, htotal, rfl⟩ := settle_eq_ok hsettle
  rw [htrades]
  refine ⟨legs, ?_, rfl⟩
  exact {
    notional_eq := hnotional
    commission_eq := hcommission
    freeBalance_eq := ⟨flow, hflow, htraded.freeBalance_eq ▸ hfree⟩
    totalCommission_eq := htraded.totalCommission_eq ▸ htotal
    affordable := haffordable
    meets := hmeets
    account_eq := htraded.account_eq
    prices_eq := htraded.prices_eq
    get?_other := htraded.get?_other
    orders_eq := congrArg (· ++ _) htraded.orders_eq
    trades_eq := htraded.trades_eq
    nextPositionId_eq := htraded.nextPositionId_eq
    realizedPnl_eq := htraded.realizedPnl_eq
    events_eq := by
      show l₂.events.map _ = _
      rw [htraded.events_eq]
      exact map_append_append .. }

/-- What a book answers to an order that it cannot pay for. -/
structure Refused (l : Ledger) (request : OrderRequest) (price : Decimal) (l' : Ledger)
    (outcome : Outcome Execution) : Prop where
  side_eq : request.side = .buy
  ledger_eq : l' = l
  required : ∃ notional commission cost, request.quantity.mul price = .ok notional ∧
    notional.mul l.account.commissionRate = .ok commission ∧ notional.add commission = .ok cost ∧
    l.freeBalance < cost ∧ outcome = .error (.insufficientBalance cost l.freeBalance)

/-- A fill is a purchase that the balance cannot pay, and nothing happens, or the order is
filled. -/
theorem fill_cases {outcome : Outcome Execution} (hq : 0 < request.quantity)
    (h : l.fill request price now = .ok (l', outcome)) :
    l.Refused request price l' outcome ∨
    ∃ notional commission legs, l.Filled request price notional commission now legs l' ∧
      outcome = l'.verdict ⟨(l.orderOf request now).filled price commission now,
        legs.map Leg.trade, l'.positions.get? request.symbol⟩ := by
  unfold fill at h
  simp only [bind_eq_ok] at h
  obtain ⟨notional, hnotional, commission, hcommission, h⟩ := h
  cases hside : request.side with
  | buy =>
    simp only [hside, bind_eq_ok] at h
    obtain ⟨cost, hcost, h⟩ := h
    -- only a purchase is held against the balance
    split at h
    · next hlt =>
      simp only [pure_eq_ok, Prod.mk.injEq] at h
      obtain ⟨rfl, rfl⟩ := h
      exact .inl ⟨hside, rfl, notional, commission, cost, hnotional, hcommission, hcost, hlt, rfl⟩
    · next hle =>
      have haffordable : Affordable l.freeBalance request.side notional commission := by
        intro _ cost' hcost'
        rw [hcost, Except.ok.injEq] at hcost'
        exact hcost' ▸ Decimal.not_lt_iff.mp hle
      obtain ⟨legs, hfilled, houtcome⟩ := execute_eq_ok hq hnotional hcommission haffordable h
      exact .inr ⟨notional, commission, legs, hfilled, houtcome⟩
  | sell =>
    simp only [hside] at h
    have haffordable : Affordable l.freeBalance request.side notional commission := by
      intro hbuy
      exact nomatch hside.symm.trans hbuy
    obtain ⟨legs, hfilled, houtcome⟩ := execute_eq_ok hq hnotional hcommission haffordable h
    exact .inr ⟨notional, commission, legs, hfilled, houtcome⟩

/-! ## Counted fills -/

/-- Fills a request, and counts the fill. -/
def fillCounted (l : Ledger) (request : OrderRequest) (price : Decimal) (now : Instant) :
    Calc (Ledger × Outcome Execution) := do
  let (l, outcome) ← l.fill request price now
  return (l.count outcome.toOption, outcome)

theorem fillCounted_eq_ok {outcome : Outcome Execution} :
    l.fillCounted request price now = .ok (l', outcome) ↔
      ∃ l₁, l.fill request price now = .ok (l₁, outcome) ∧ l₁.count outcome.toOption = l' := by
  simp only [fillCounted, bind_eq_ok, pure_eq_ok, Prod.mk.injEq, Prod.exists]
  constructor
  · rintro ⟨l₁, _, hfill, hcount, rfl⟩
    exact ⟨l₁, hfill, hcount⟩
  · rintro ⟨l₁, hfill, hcount⟩
    exact ⟨l₁, outcome, hfill, hcount, rfl⟩

theorem toOption_map_some {α : Type} (outcome : Outcome α) :
    (outcome.map some).toOption.join = outcome.toOption := by
  cases outcome <;> rfl

/-- The counts are no part of what a fill does. -/
theorem Filled.count (h : l.Filled request price notional commission now legs l')
    (execution? : Option Execution) :
    l.Filled request price notional commission now legs (l'.count execution?) := by
  cases execution? with
  | none => exact h
  | some execution => exact { h with }

theorem violation?_count (l : Ledger) (execution? : Option Execution) :
    (l.count execution?).violation? = l.violation? := by
  cases execution? <;> rfl

theorem verdict_count (l : Ledger) (execution? : Option Execution) (execution : Execution) :
    (l.count execution?).verdict execution = l.verdict execution := by
  rw [verdict, violation?_count]
  rfl

theorem positions_count (l : Ledger) (execution? : Option Execution) :
    (l.count execution?).positions = l.positions := by
  cases execution? <;> rfl

/-- A fill that is counted is one that is refused, or an order that is filled. -/
theorem fillCounted_cases {outcome : Outcome Execution} (hq : 0 < request.quantity)
    (h : l.fillCounted request price now = .ok (l', outcome)) :
    l.Refused request price l' outcome ∨
    ∃ notional commission legs, l.Filled request price notional commission now legs l' ∧
      outcome = l'.verdict ⟨(l.orderOf request now).filled price commission now,
        legs.map Leg.trade, l'.positions.get? request.symbol⟩ := by
  obtain ⟨l₁, hfill, rfl⟩ := fillCounted_eq_ok.mp h
  rcases fill_cases hq hfill with hrefused | ⟨notional, commission, legs, hfilled, houtcome⟩
  · -- an error is not counted
    obtain ⟨_, _, _, -, -, -, -, rfl⟩ := hrefused.required
    exact .inl hrefused
  · refine .inr ⟨notional, commission, legs, hfilled.count _, ?_⟩
    rw [verdict_count, positions_count]
    exact houtcome

end Ledger

end SimBroker
