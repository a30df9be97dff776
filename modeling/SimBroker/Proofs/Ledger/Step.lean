import SimBroker.Proofs.Ledger.Fill

/-!
# What an operation does to a book

An operation fills at most one order.  Apart from that it moves prices, marks and exits, which is a
*quiet* change: nothing that is held, owed or recorded is other than before.  So whatever quiet
changes and fills preserve is preserved by every operation, and by every run.

## Main definitions

* `Sound`, `Consistent`: what holds of every position and every book of a run
* `Quiet`: a change of prices, marks and exits only
* `fillOf`: the fill that an operation comes to
* `Stepped`: the two kinds of operation

## Main results

* `place_cases`, `close_cases`, `setExit_cases`, `updatePrice_cases`: the operations one by one
* `Consistent.step_cases`: an operation is quiet, or the fill of `fillOf` after a quiet change
-/

namespace SimBroker

open Calc (bind_eq_ok pure_eq_ok)

/-- The error that an operation answers with, if it does. -/
def Ledger.Answer.error? : Ledger.Answer → Option TradingError
  | .execution (.error e) | .order (.error e) | .position (.error e) | .update (.error e) => some e
  | _ => none

namespace Ledger

variable {l l' : Ledger} {request : OrderRequest} {price : Decimal} {now : Instant}
  {symbol message : String}

/-! ## The invariant -/

/-- What holds of a position in a book: it is under its symbol, which has a price, has a positive
quantity and an id given before, and was made by orders of the book. -/
structure Sound (l : Ledger) (symbol : String) (p : Position) : Prop where
  quantity_pos : 0 < p.quantity
  symbol_eq : p.symbol = symbol
  priced : (l.prices.get? symbol).isSome
  id_lt : p.id < l.nextPositionId
  orderIds_mem : ∀ id ∈ p.orderIds, id ∈ l.orders.map Order.id

/-- What holds of every book of a run: its positions are sound and differ in their ids, its trades
are of its orders, and every order is filled. -/
structure Consistent (l : Ledger) : Prop where
  sound : ∀ {s p}, l.positions.get? s = some p → l.Sound s p
  id_inj : ∀ {s p s' p'}, l.positions.get? s = some p → l.positions.get? s' = some p' →
    p.id = p'.id → s = s'
  orderId_mem : ∀ t ∈ l.trades, t.orderId ∈ l.orders.map Order.id
  filled : ∀ o ∈ l.orders, o.status = .filled ∧ o.filledQuantity = o.quantity

/-! ## Quiet changes -/

/-- Only prices, marks, exits and events have changed. -/
structure Quiet (l l' : Ledger) : Prop where
  account_eq : l'.account = l.account
  freeBalance_eq : l'.freeBalance = l.freeBalance
  orders_eq : l'.orders = l.orders
  trades_eq : l'.trades = l.trades
  nextPositionId_eq : l'.nextPositionId = l.nextPositionId
  realizedPnl_eq : l'.realizedPnl = l.realizedPnl
  totalCommission_eq : l'.totalCommission = l.totalCommission
  holding_eq : ∀ s,
    (l'.positions.get? s).map Position.holding = (l.positions.get? s).map Position.holding
  priced : ∀ s, (l.prices.get? s).isSome → (l'.prices.get? s).isSome

namespace Quiet

theorem refl (l : Ledger) : l.Quiet l :=
  ⟨rfl, rfl, rfl, rfl, rfl, rfl, rfl, fun _ => rfl, fun _ => id⟩

theorem trans {l₁ l₂ l₃ : Ledger} (h₁ : l₁.Quiet l₂) (h₂ : l₂.Quiet l₃) : l₁.Quiet l₃ where
  account_eq := h₂.account_eq.trans h₁.account_eq
  freeBalance_eq := h₂.freeBalance_eq.trans h₁.freeBalance_eq
  orders_eq := h₂.orders_eq.trans h₁.orders_eq
  trades_eq := h₂.trades_eq.trans h₁.trades_eq
  nextPositionId_eq := h₂.nextPositionId_eq.trans h₁.nextPositionId_eq
  realizedPnl_eq := h₂.realizedPnl_eq.trans h₁.realizedPnl_eq
  totalCommission_eq := h₂.totalCommission_eq.trans h₁.totalCommission_eq
  holding_eq := fun s => (h₂.holding_eq s).trans (h₁.holding_eq s)
  priced := fun s hs => h₂.priced s (h₁.priced s hs)

theorem emit (l : Ledger) (event : LedgerEvent) : l.Quiet (l.emit event) :=
  ⟨rfl, rfl, rfl, rfl, rfl, rfl, rfl, fun _ => rfl, fun _ => id⟩

theorem takeEvents (l : Ledger) : l.Quiet l.takeEvents.2 :=
  ⟨rfl, rfl, rfl, rfl, rfl, rfl, rfl, fun _ => rfl, fun _ => id⟩

/-- Setting a position that holds the same. -/
theorem insert {p p' : Position} (hp : l.positions.get? symbol = some p)
    (hholding : p'.holding = p.holding) :
    l.Quiet { l with positions := l.positions.insert symbol p' } where
  account_eq := rfl
  freeBalance_eq := rfl
  orders_eq := rfl
  trades_eq := rfl
  nextPositionId_eq := rfl
  realizedPnl_eq := rfl
  totalCommission_eq := rfl
  holding_eq := fun s => by
    rw [Table.get?_insert]
    split
    · next hs => rw [← hs, hp, Option.map_some, Option.map_some, hholding]
    · rfl
  priced := fun _ => id

theorem setPrice (l : Ledger) (symbol : String) (price : Decimal) :
    l.Quiet { l with prices := l.prices.insert symbol price } where
  account_eq := rfl
  freeBalance_eq := rfl
  orders_eq := rfl
  trades_eq := rfl
  nextPositionId_eq := rfl
  realizedPnl_eq := rfl
  totalCommission_eq := rfl
  holding_eq := fun _ => rfl
  priced := fun s hs => by
    rw [Table.get?_insert]
    split
    · rfl
    · exact hs

/-- A position after a quiet change holds what one before it held. -/
theorem get?_eq_some {p' : Position} (h : l.Quiet l') (hp : l'.positions.get? symbol = some p') :
    ∃ p, l.positions.get? symbol = some p ∧ p'.holding = p.holding := by
  have := h.holding_eq symbol
  rw [hp, Option.map_some, eq_comm, Option.map_eq_some_iff] at this
  obtain ⟨p, hp, hholding⟩ := this
  exact ⟨p, hp, hholding.symm⟩

theorem get?_eq_none (h : l.Quiet l') :
    l'.positions.get? symbol = none ↔ l.positions.get? symbol = none := by
  have := h.holding_eq symbol
  rw [← Option.map_eq_none_iff (f := Position.holding), this, Option.map_eq_none_iff]

end Quiet

/-! ## The operations -/

/-- Placing an order is checking the request, finding its price and filling it with a count. -/
theorem place_eq : l.place request now = (do
    match request.fault? with
    | some e => return (l, .error e)
    | none =>
      match ← l.executionPrice request with
      | .error e => return (l, .error e)
      | .ok price => l.fillCounted request price now) := by
  unfold place accept
  cases request.fault? with
  | some e => rfl
  | none =>
    cases l.executionPrice request with
    | error e => rfl
    | ok found => cases found <;> rfl

/-- A request is refused as it stands, or filled at the price found for it. -/
theorem place_cases {outcome : Outcome Execution} (h : l.place request now = .ok (l', outcome)) :
    (l' = l ∧ ∃ e, outcome = .error e ∧ (request.fault? = some e ∨
      request.fault? = none ∧ l.executionPrice request = .ok (.error e))) ∨
    ∃ price, request.fault? = none ∧ l.executionPrice request = .ok (.ok price) ∧
      l.fillCounted request price now = .ok (l', outcome) := by
  rw [place_eq] at h
  split at h
  · next e he =>
    simp only [pure_eq_ok, Prod.mk.injEq] at h
    obtain ⟨rfl, rfl⟩ := h
    exact .inl ⟨rfl, e, rfl, .inl he⟩
  · next hfault =>
    -- the request is sound in itself, so a price is looked for
    simp only [bind_eq_ok] at h
    obtain ⟨found, hfound, h⟩ := h
    cases found with
    | error e =>
      simp only [pure_eq_ok, Prod.mk.injEq] at h
      obtain ⟨rfl, rfl⟩ := h
      exact .inl ⟨rfl, e, rfl, .inr ⟨hfault, hfound⟩⟩
    | ok price => exact .inr ⟨price, hfault, hfound, h⟩

/-- A position that is not there is refused, and one that is there is closed by a request. -/
theorem close_cases {id : ℕ} {outcome : Outcome Execution}
    (h : l.close id now = .ok (l', outcome)) :
    (l.position? id = none ∧ l' = l ∧ outcome = .error (unknownPosition id)) ∨
    ∃ p, l.position? id = some p ∧ l.place p.closing now = .ok (l', outcome) := by
  unfold close at h
  split at h
  · next hnone =>
    obtain ⟨rfl, rfl⟩ := Prod.mk.inj (Except.ok.inj h)
    exact .inl ⟨hnone, rfl, rfl⟩
  · next p hp => exact .inr ⟨p, hp, h⟩

/-- An exit is refused as it stands, or set on the position with the id. -/
theorem setExit_cases {id : ℕ} {kind : TriggerKind} {outcome : Outcome Position}
    (h : l.setExit id kind price now = (l', outcome)) :
    (l' = l ∧ (price ≤ 0 ∧ (∃ what, outcome = .error (.invalidInput what)) ∨
      outcome = .error (unknownPosition id))) ∨
    ∃ symbol p, 0 < price ∧ l.positions.get? symbol = some p ∧ p.id = id ∧
      l' = { l with positions := l.positions.insert symbol (p.withExit kind price now) }.emit
        (.position .modified (p.withExit kind price now) none) ∧
      outcome = .ok (p.withExit kind price now) := by
  unfold setExit at h
  split at h
  · next hle =>
    obtain ⟨rfl, rfl⟩ := Prod.mk.inj h
    exact .inl ⟨rfl, .inl ⟨hle, _, rfl⟩⟩
  · next hpos =>
    split at h
    · obtain ⟨rfl, rfl⟩ := Prod.mk.inj h
      exact .inl ⟨rfl, .inr rfl⟩
    · next symbol p hp =>
      obtain ⟨rfl, rfl⟩ := Prod.mk.inj h
      have hget : l.positions.get? symbol = some p :=
        Table.get?_eq_some_iff.mpr (List.mem_of_find?_eq_some hp)
      have hid : p.id = id := by simpa using List.find?_some hp
      exact .inr ⟨symbol, p, Decimal.not_le_iff.mp hpos, hget, hid, rfl, rfl⟩

theorem quantity_pos_of_fault?_eq_none (h : request.fault? = none) : 0 < request.quantity := by
  unfold OrderRequest.fault? at h
  split at h
  · exact nomatch h
  · split at h
    · exact nomatch h
    · next hq => exact Decimal.not_le_iff.mp hq

/-- A price is found only for a symbol that has one. -/
theorem priced_of_executionPrice (h : l.executionPrice request = .ok (.ok price)) :
    (l.prices.get? request.symbol).isSome := by
  unfold executionPrice lastPrice? at h
  split at h
  · cases h
  · next hprice => rw [hprice]; rfl

/-- The book with a price recorded. -/
def withPrice (l : Ledger) (symbol : String) (price : Decimal) : Ledger :=
  { l with prices := l.prices.insert symbol price }

/-- The book with a price recorded and the position of its symbol marked. -/
def marked (l : Ledger) (symbol : String) (price : Decimal) (p : Position) : Ledger :=
  { l.withPrice symbol price with positions := l.positions.insert symbol p }

theorem quiet_marked {p p' : Position} (hp : l.positions.get? symbol = some p)
    (hmark : p.mark price now = .ok p') : l.Quiet (l.marked symbol price p') :=
  (Quiet.setPrice l symbol price).trans (.insert hp (Position.holding_mark hmark))

/-- A price is refused, recorded for a symbol without a position, or marks the position there. -/
theorem recordPrice_cases {outcome : Outcome (Option Trigger)}
    (h : l.recordPrice symbol price now = .ok (l', outcome)) :
    (price ≤ 0 ∧ l' = l ∧ ∃ what, outcome = .error (.invalidInput what)) ∨
    (0 < price ∧ l.positions.get? symbol = none ∧ l' = l.withPrice symbol price ∧
      outcome = .ok none) ∨
    ∃ p p', 0 < price ∧ l.positions.get? symbol = some p ∧ p.mark price now = .ok p' ∧
      l' = l.marked symbol price p' ∧
      outcome = .ok ((p.triggerAt price).map fun kind => ⟨p.id, symbol, kind, price⟩) := by
  unfold recordPrice at h
  split at h
  · next hle =>
    simp only [pure_eq_ok, Prod.mk.injEq] at h
    obtain ⟨rfl, rfl⟩ := h
    exact .inl ⟨hle, rfl, _, rfl⟩
  · next hpos =>
    replace hpos : 0 < price := Decimal.not_le_iff.mp hpos
    dsimp only at h
    split at h
    · next hnone =>
      simp only [pure_eq_ok, Prod.mk.injEq] at h
      obtain ⟨rfl, rfl⟩ := h
      exact .inr (.inl ⟨hpos, hnone, rfl, rfl⟩)
    · next p hp =>
      simp only [bind_eq_ok, pure_eq_ok, Prod.mk.injEq] at h
      obtain ⟨p', hmark, rfl, rfl⟩ := h
      -- the exit is looked for in the marked position, which has the same one
      have hid : p'.id = p.id := (Position.holding_eq_iff.mp (Position.holding_mark hmark)).1
      rw [Position.triggerAt_mark hmark, hid]
      exact .inr (.inr ⟨p, p', hpos, hp, hmark, rfl, rfl⟩)

theorem recordPrice_of_mark {p p' : Position} (hpos : 0 < price)
    (hp : l.positions.get? symbol = some p) (hmark : p.mark price now = .ok p') :
    l.recordPrice symbol price now = .ok (l.marked symbol price p',
      .ok ((p'.triggerAt price).map fun kind => ⟨p'.id, symbol, kind, price⟩)) := by
  have hle : ¬ price ≤ 0 := Decimal.not_le_iff.mpr hpos
  simp only [recordPrice, if_neg hle, hp, hmark]
  rfl

/-- The position of a symbol after a mark. -/
theorem get?_marked (l : Ledger) (symbol : String) (price : Decimal) (p : Position) :
    (l.marked symbol price p).positions.get? symbol = some p :=
  (Table.get?_insert ..).trans (if_pos rfl)

theorem lastPrice?_marked (l : Ledger) (symbol : String) (price : Decimal) (p : Position) :
    (l.marked symbol price p).lastPrice? symbol = some price :=
  (Table.get?_insert ..).trans (if_pos rfl)

/-- A price update is refused, records the price, marks the position, or marks and then fills the
order that closes it at the price. -/
theorem updatePrice_cases {outcome : Outcome (Option Execution)}
    (h : l.updatePrice symbol price now = .ok (l', outcome)) :
    (price ≤ 0 ∧ l' = l ∧ ∃ what, outcome = .error (.invalidInput what)) ∨
    (0 < price ∧ l.positions.get? symbol = none ∧ l' = l.withPrice symbol price ∧
      outcome = .ok none) ∨
    ∃ p p', 0 < price ∧ l.positions.get? symbol = some p ∧ p.mark price now = .ok p' ∧
      ((p.triggerAt price = none ∧ l' = l.marked symbol price p' ∧ outcome = .ok none) ∨
      ∃ kind result, p.triggerAt price = some kind ∧
        ((l.marked symbol price p').emit (.exitTriggered p.id symbol kind price)).fillCounted
          (exitRequest p' kind) price now = .ok (l', result) ∧ outcome = result.map some) := by
  simp only [updatePrice, bind_eq_ok] at h
  obtain ⟨⟨l₁, reported⟩, hrecord, h⟩ := h
  rcases recordPrice_cases hrecord with ⟨hle, rfl, what, rfl⟩ | ⟨hpos, hnone, rfl, rfl⟩ |
    ⟨p, p', hpos, hp, hmark, rfl, rfl⟩
  · simp only [pure_eq_ok, Prod.mk.injEq] at h
    obtain ⟨rfl, rfl⟩ := h
    exact .inl ⟨hle, rfl, what, rfl⟩
  · simp only [pure_eq_ok, Prod.mk.injEq] at h
    obtain ⟨rfl, rfl⟩ := h
    exact .inr (.inl ⟨hpos, hnone, rfl, rfl⟩)
  · refine .inr (.inr ⟨p, p', hpos, hp, hmark, ?_⟩)
    cases hkind : p.triggerAt price with
    | none =>
      simp only [hkind, Option.map_none, pure_eq_ok, Prod.mk.injEq] at h
      obtain ⟨rfl, rfl⟩ := h
      exact .inl ⟨rfl, rfl, rfl⟩
    | some kind =>
      -- nothing happens between the two steps, so the second finds the position and the price
      -- that the first has left
      have hid : p'.id = p.id := (Position.holding_eq_iff.mp (Position.holding_mark hmark)).1
      simp only [hkind, Option.map_some, executeTrigger, closeCrossed, get?_marked, hid, ne_eq,
        not_true_eq_false, ↓reduceIte, lastPrice?_marked, Option.getD_some,
        Position.triggerAt_mark hmark, bind_eq_ok, pure_eq_ok, Prod.mk.injEq] at h
      obtain ⟨_, ⟨⟨l₂, result⟩, hfill, rfl⟩, rfl, rfl⟩ := h
      rw [toOption_map_some]
      exact .inr ⟨kind, result, rfl, fillCounted_eq_ok.mpr ⟨l₂, hfill, rfl⟩, rfl⟩

/-! ## One step -/

/-- The fill that a request comes to, if it is accepted. -/
def fillOfRequest (l : Ledger) (request : OrderRequest) :
    Option (Ledger × OrderRequest × Decimal) :=
  match request.fault?, l.executionPrice request with
  | none, .ok (.ok price) => some (l, request, price)
  | _, _ => none

/-- The fill that an operation comes to, if any: the book that it is made in, the request and the
price. -/
def fillOf (l : Ledger) : Operation → Option (Ledger × OrderRequest × Decimal)
  | .place request _ => l.fillOfRequest request
  | .close id _ => (l.position? id).bind fun p => l.fillOfRequest p.closing
  | .cancel _ | .setExit .. => none
  | .updatePrice symbol price now =>
    match l.recordPrice symbol price now with
    | .ok (l, .ok (some trigger)) => (l.positions.get? symbol).map fun p =>
      (l.emit (.exitTriggered p.id symbol trigger.kind price), exitRequest p trigger.kind, price)
    | _ => none

/-- An operation has made a quiet change, or filled an order after one. -/
inductive Stepped (l : Ledger) (op : Operation) (l' : Ledger) (answer : Answer) : Prop
  | quiet (quiet : l.Quiet l')
      (not_violation : ∀ message, answer.error? ≠ some (.invariantViolation message))
  | filled {l₁ : Ledger} {request : OrderRequest} {price notional commission : Decimal}
      {now : Instant} {legs : List Leg} (quiet : l.Quiet l₁)
      (fillOf_eq : l.fillOf op = some (l₁, request, price)) (quantity_pos : 0 < request.quantity)
      (priced : (l₁.prices.get? request.symbol).isSome)
      (filled : l₁.Filled request price notional commission now legs l')
      (error_eq : answer.error? = l'.violation?.map .invariantViolation)

/-- A request that is refused as it stands is an invalid input. -/
theorem eq_invalidInput_of_fault? {e : TradingError} (h : request.fault? = some e) :
    ∃ what, e = .invalidInput what := by
  unfold OrderRequest.fault? at h
  grind

/-- No price is found without a reference, or without the limit that the request needs. -/
theorem executionPrice_error {e : TradingError} (h : l.executionPrice request = .ok (.error e)) :
    e = .noPriceAvailable request.symbol ∨ ∃ what, e = .invalidInput what := by
  unfold executionPrice at h
  split at h
  · cases h
    exact .inl rfl
  · split at h
    · simp at h
    · cases h
      exact .inr ⟨_, rfl⟩
    · cases hside : request.side <;> simp only [hside, bind_eq_ok, pure_eq_ok] at h <;>
        obtain ⟨_, -, _, -, h⟩ := h <;> exact nomatch h

/-- What a fill makes of a book, seen from the book before a quiet change. -/
theorem stepped_of_fill {l₁ : Ledger} {op : Operation} {answer : Answer}
    {outcome : Outcome Execution} (hquiet : l.Quiet l₁)
    (hop : l.fillOf op = some (l₁, request, price)) (hq : 0 < request.quantity)
    (hpriced : (l₁.prices.get? request.symbol).isSome)
    (hfill : l₁.fillCounted request price now = .ok (l', outcome))
    (hanswer : answer.error? = (Answer.execution outcome).error?) : l.Stepped op l' answer := by
  rcases fillCounted_cases hq hfill with ⟨-, rfl, _, _, _, -, -, -, -, rfl⟩ |
    ⟨notional, commission, legs, hfilled, rfl⟩
  · -- the fill is refused, and only the quiet change remains
    refine .quiet hquiet fun message => ?_
    rw [hanswer]
    exact fun h => nomatch h
  · refine .filled hquiet hop hq hpriced hfilled ?_
    rw [hanswer, verdict]
    cases l'.violation? <;> rfl

theorem stepped_of_place {op : Operation} {outcome : Outcome Execution}
    (h : l.place request now = .ok (l', outcome)) (hop : l.fillOf op = l.fillOfRequest request) :
    l.Stepped op l' (.execution outcome) := by
  rcases place_cases h with ⟨rfl, e, rfl, herror⟩ | ⟨price, hfault, hprice, hfill⟩
  · refine .quiet (.refl _) fun message he => ?_
    obtain rfl := Option.some.inj he
    rcases herror with hfault | ⟨-, hprice⟩
    · obtain ⟨what, h⟩ := eq_invalidInput_of_fault? hfault
      exact nomatch h
    · rcases executionPrice_error hprice with h | ⟨what, h⟩ <;> exact nomatch h
  · refine stepped_of_fill (.refl l) ?_ (quantity_pos_of_fault?_eq_none hfault)
      (priced_of_executionPrice hprice) hfill rfl
    rw [hop, fillOfRequest, hfault, hprice]

/-- No order of a consistent book can be canceled. -/
theorem Consistent.cancel_eq (hl : l.Consistent) (id : Uuid) :
    ∃ e, l.cancel id = (l, .error e) ∧ ∀ message, e ≠ .invariantViolation message := by
  unfold cancel
  split
  · exact ⟨_, rfl, nofun⟩
  · next order ho =>
    have hstatus := (hl.filled order (List.mem_of_find?_eq_some ho)).1
    rw [hstatus]
    exact ⟨_, rfl, nofun⟩

/-- An operation on a consistent book makes a quiet change, or a fill after one. -/
theorem Consistent.step_cases (hl : l.Consistent) {op : Operation} {answer : Answer}
    (h : l.step op = .ok (l', answer)) : l.Stepped op l' answer := by
  cases op with
  | place request now =>
    simp only [step, bind_eq_ok, pure_eq_ok, Prod.mk.injEq] at h
    obtain ⟨⟨l₁, outcome⟩, hplace, rfl, rfl⟩ := h
    refine stepped_of_place hplace ?_
    rw [fillOf]
  | close id now =>
    simp only [step, bind_eq_ok, pure_eq_ok, Prod.mk.injEq] at h
    obtain ⟨⟨l₁, outcome⟩, hclose, rfl, rfl⟩ := h
    rcases close_cases hclose with ⟨-, rfl, rfl⟩ | ⟨p, hp, hplace⟩
    · exact .quiet (.refl _) fun _ he => by cases he
    · refine stepped_of_place hplace ?_
      rw [fillOf, hp, Option.bind_some]
  | cancel id =>
    -- every order of the book is filled, so none can be canceled
    obtain ⟨e, he, hne⟩ := hl.cancel_eq id
    simp only [step, he] at h
    obtain ⟨rfl, rfl⟩ := Prod.mk.inj (Except.ok.inj h)
    exact .quiet (.refl _) fun message he => hne message (Option.some.inj he)
  | setExit id kind price now =>
    rcases hset : l.setExit id kind price now with ⟨l₁, outcome⟩
    simp only [step, hset] at h
    obtain ⟨rfl, rfl⟩ := Prod.mk.inj (Except.ok.inj h)
    rcases setExit_cases hset with ⟨rfl, hrefused⟩ | ⟨symbol, p, -, hp, -, rfl, rfl⟩
    · refine .quiet (.refl _) fun message he => ?_
      rcases hrefused with ⟨-, what, rfl⟩ | rfl <;> cases he
    · -- an exit is no part of what is held
      have hquiet := Quiet.insert hp (Position.holding_withExit p kind price now)
      exact .quiet (hquiet.trans (.emit _ _)) fun _ he => by cases he
  | updatePrice symbol price now =>
    simp only [step, bind_eq_ok, pure_eq_ok, Prod.mk.injEq] at h
    obtain ⟨⟨l₁, outcome⟩, hupdate, rfl, rfl⟩ := h
    rcases updatePrice_cases hupdate with ⟨-, rfl, what, rfl⟩ | ⟨-, -, rfl, rfl⟩ |
      ⟨p, p', hpos, hp, hmark, ⟨-, rfl, rfl⟩ | ⟨kind, result, hkind, hfill, rfl⟩⟩
    · exact .quiet (.refl _) fun _ he => by cases he
    · exact .quiet (.setPrice ..) fun _ he => by cases he
    · exact .quiet (quiet_marked hp hmark) fun _ he => by cases he
    · -- an exit is crossed: the order for it is of the marked position, which is as sound as before
      obtain ⟨hid, hsymbol, -, hq, -⟩ := Position.holding_eq_iff.mp (Position.holding_mark hmark)
      refine stepped_of_fill ((quiet_marked hp hmark).trans (.emit _ _)) ?_ ?_ ?_ hfill ?_
      · simp only [fillOf, recordPrice_of_mark hpos hp hmark, Position.triggerAt_mark hmark, hkind,
          Option.map_some, get?_marked, hid]
      · show 0 < p'.quantity
        rw [hq]
        exact (hl.sound hp).quantity_pos
      · show ((l.prices.insert symbol price).get? p'.symbol).isSome
        rw [hsymbol, (hl.sound hp).symbol_eq, Table.get?_insert, if_pos rfl]
        rfl
      · cases result <;> rfl

end Ledger

end SimBroker
