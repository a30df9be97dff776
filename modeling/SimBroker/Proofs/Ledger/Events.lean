import SimBroker.Proofs.Ledger.Interleaving

/-!
# What the events of a ledger tell

A listener sees only the events, and they tell all of it: the trades and the orders of the book in
their order, and of every symbol its position, up to the marks.  The events of one fill stand
together, first that of the part that gives back, then that of the part that enters, then the
order.

## Main definitions

* `Position.unmarked`: a position apart from its marks
* `LedgerEvent.trade?`, `LedgerEvent.filled?`, `lastChange?`: what events tell
* `FillBlock`: the events of a turn that fills an order
* `respond`: a turn with the execution that it answers
* `hear`: what a listener hears of some turns, and the book after them
* `Remarked`: only prices and marks have changed
* `Answered`: the kinds of turn, each with what it answers
* `Told`: the kinds of turn, each with its events
* `Mirror`: events that tell all of a book

## Main results

* `Consistent.answered_respond`, `Consistent.told_respond`: every turn is of a kind that `Answered`
  and `Told` list
* `Mirror.respond`: a turn keeps the mirror, with its events added to those of before
* `events_mirror`: what a listener hears of any turns
-/

namespace SimBroker

open Calc (bind_eq_ok pure_eq_ok)

namespace Position

variable {p p' : Position} {price : Decimal} {now : Instant}

/-- A position with blank marks. -/
def unmarked (p : Position) : Position := p.withMarks 0 0 0 default

/-- Positions are the same apart from the marks. -/
theorem unmarked_eq_iff :
    p'.unmarked = p.unmarked ↔ ∃ price pnl pct now, p' = p.withMarks price pnl pct now := by
  constructor
  · intro h
    refine ⟨p'.currentPrice, p'.unrealizedPnl, p'.unrealizedPnlPct, p'.updatedAt, ?_⟩
    obtain ⟨⟩ := p
    obtain ⟨⟩ := p'
    simpa [unmarked, withMarks] using h
  · rintro ⟨price, pnl, pct, now, rfl⟩
    rfl

theorem unmarked_mark (h : p.mark price now = .ok p') : p'.unmarked = p.unmarked := by
  obtain ⟨pnl, _, pct, -, -, -, rfl⟩ := mark_eq_ok h
  rfl

end Position

namespace LedgerEvent

/-- The trade that an event tells of. -/
def trade? : LedgerEvent → Option Trade
  | .position _ _ trade => trade
  | _ => none

/-- The order that an event tells of as filled. -/
def filled? : LedgerEvent → Option Order
  | .orderFilled order => some order
  | _ => none

/-- The change of a symbol's position that an event tells of. -/
def change? (symbol : String) : LedgerEvent → Option (PositionChange × Position)
  | .position change p _ => if p.symbol = symbol then some (change, p) else none
  | _ => none

/-- An event tells of a crossed exit. -/
def IsExit : LedgerEvent → Prop
  | .exitTriggered .. => True
  | _ => False

theorem IsExit.exitTriggered (id : ℕ) (symbol : String) (kind : TriggerKind) (price : Decimal) :
    IsExit (.exitTriggered id symbol kind price) := trivial

theorem IsExit.tells_nothing {event : LedgerEvent} (h : event.IsExit) :
    event.trade? = none ∧ event.filled? = none ∧ ∀ symbol, event.change? symbol = none := by
  cases event with
  | exitTriggered => exact ⟨rfl, rfl, fun _ => rfl⟩
  | _ => exact nomatch h

end LedgerEvent

/-- The last change of a symbol's position that events tell of. -/
def lastChange? (symbol : String) (events : List LedgerEvent) :
    Option (PositionChange × Position) :=
  (events.filterMap (·.change? symbol)).getLast?

theorem lastChange?_append (symbol : String) (events more : List LedgerEvent) :
    lastChange? symbol (events ++ more) =
      (lastChange? symbol more).or (lastChange? symbol events) := by
  rw [lastChange?, List.filterMap_append, List.getLast?_append]
  rfl

/-- The last change of a symbol tells of its position, apart from the marks.  Where there is no
position there was no change, or the last one has closed it and left nothing. -/
def Mirrors : Option (PositionChange × Position) → Option Position → Prop
  | none, resident => resident = none
  | some (.closed, p), resident => resident = none ∧ p.quantity.isZero
  | some (_, p), resident => ∃ q, resident = some q ∧ q.unmarked = p.unmarked

theorem Mirrors.remark {last : Option (PositionChange × Position)}
    {resident resident' : Option Position} (h : Mirrors last resident)
    (hunmarked : resident'.map Position.unmarked = resident.map Position.unmarked) :
    Mirrors last resident' := by
  have hnone (hresident : resident = none) : resident' = none := by
    rw [hresident] at hunmarked
    exact Option.map_eq_none_iff.mp hunmarked
  have hsome {p : Position} (hresident : ∃ q, resident = some q ∧ q.unmarked = p.unmarked) :
      ∃ q, resident' = some q ∧ q.unmarked = p.unmarked := by
    obtain ⟨q, rfl, hq⟩ := hresident
    obtain ⟨q', hq', heq⟩ := Option.map_eq_some_iff.mp hunmarked
    exact ⟨q', hq', heq.trans hq⟩
  match last, h with
  | none, h => exact hnone h
  | some (.closed, p), h => exact ⟨hnone h.1, h.2⟩
  | some (.opened, p), h | some (.increased, p), h | some (.reduced, p), h
  | some (.modified, p), h => exact hsome h

/-- A position that was changed and not closed is there. -/
theorem Mirrors.of_change {change : PositionChange} {p : Position} (h : change ≠ .closed) :
    Mirrors (some (change, p)) (some p) := by
  cases change with
  | closed => exact absurd rfl h
  | _ => exact ⟨p, rfl, rfl⟩

/-- The last change of a symbol is that it was closed exactly if there is no position. -/
theorem Mirrors.of_some {change : PositionChange} {p : Position} {resident : Option Position}
    (h : Mirrors (some (change, p)) resident) :
    (change = .closed ↔ resident = none) ∧ (change = .closed → p.quantity.isZero) ∧
      ∀ q, resident = some q → q.unmarked = p.unmarked := by
  cases change with
  | closed =>
    obtain ⟨rfl, hzero⟩ := h
    refine ⟨iff_of_true rfl rfl, fun _ => hzero, ?_⟩
    exact fun _ heq => absurd heq (Option.some_ne_none _).symm
  | opened | increased | reduced | modified =>
    obtain ⟨q, rfl, hq⟩ := h
    exact ⟨iff_of_false nofun nofun, nofun, fun _ heq => Option.some.inj heq ▸ hq⟩

/-! ## The events of a fill -/

/-- The events of a turn that fills an order: a crossed exit if there is one, the part that gives
back if there is one, the part that enters if there is one, and the order. -/
structure FillBlock (told : List LedgerEvent) (trades : List Trade) (order : Order) : Prop where
  parts : ∃ (exit : Option LedgerEvent) (giving entering : Option Leg),
    (∀ event ∈ exit, event.IsExit) ∧
    (∀ leg ∈ giving, leg.change = .reduced ∨ leg.change = .closed) ∧
    (∀ leg ∈ entering, leg.change = .opened ∨ leg.change = .increased) ∧
    trades = (giving.toList ++ entering.toList).map Leg.trade ∧
    told = exit.toList ++ (giving.toList ++ entering.toList).map Leg.event ++ [.orderFilled order]
  trades_ne_nil : trades ≠ []
  orderId_eq : ∀ t ∈ trades, t.orderId = order.id

namespace Meets

variable {order : Order} {request : OrderRequest} {price commission : Decimal} {now : Instant}
  {newId : ℕ} {before after : Option Position} {legs : List Leg}

/-- An order gives back before it enters, each at most once. -/
theorem giving_entering (h : Meets order request price commission now newId before legs after) :
    ∃ giving entering : Option Leg, legs = giving.toList ++ entering.toList ∧
      (∀ leg ∈ giving, leg.change = .reduced ∨ leg.change = .closed) ∧
      (∀ leg ∈ entering, leg.change = .opened ∨ leg.change = .increased) := by
  cases h with
  | opens => exact ⟨none, some _, rfl, by simp, by simp [Order.leg]⟩
  | increases => exact ⟨none, some _, rfl, by simp, by simp [Order.leg]⟩
  | reduces => exact ⟨some _, none, rfl, by simp [Order.leg], by simp⟩
  | closes => exact ⟨some _, none, rfl, by simp [Order.leg], by simp⟩
  | flips => exact ⟨some _, some _, rfl, by simp [Order.leg], by simp [Order.leg]⟩

/-- All legs of an order are in positions of its symbol. -/
theorem leg_symbol_eq (h : Meets order request price commission now newId before legs after)
    (hbefore : ∀ p ∈ before, p.symbol = order.symbol) {leg : Leg} (hleg : leg ∈ legs) :
    leg.position.symbol = order.symbol := by
  cases h with
  | opens =>
    rw [List.mem_singleton.mp hleg]
    rfl
  | increases _ increased =>
    obtain ⟨_, _, -, -, hholding⟩ := Position.holding_increased increased
    rw [List.mem_singleton.mp hleg]
    exact (congrArg Holding.symbol hholding).trans (hbefore _ rfl)
  | reduces _ _ reduced | closes _ _ reduced =>
    obtain ⟨-, _, _, -, -, hholding⟩ := Position.holding_reduced reduced
    rw [List.mem_singleton.mp hleg]
    exact (congrArg Holding.symbol hholding).trans (hbefore _ rfl)
  | flips _ _ reduced =>
    obtain ⟨-, _, _, -, -, hholding⟩ := Position.holding_reduced reduced
    rcases List.mem_pair.mp hleg with rfl | rfl
    · exact (congrArg Holding.symbol hholding).trans (hbefore _ rfl)
    · rfl

/-- The last leg of an order tells of the position that the order leaves. -/
theorem mirrors (h : Meets order request price commission now newId before legs after) :
    ∃ leg, legs.getLast? = some leg ∧ Mirrors (some (leg.change, leg.position)) after := by
  cases h with
  | opens | increases | reduces | flips => exact ⟨_, rfl, .of_change nofun⟩
  | closes _ same reduced =>
    -- what is left of a position less its own quantity is nothing
    exact ⟨_, rfl, rfl, (Position.isZero_reduced reduced).mpr (Eq.symm same)⟩

end Meets

theorem filterMap_trade?_legs (legs : List Leg) :
    (legs.map Leg.event).filterMap LedgerEvent.trade? = legs.map Leg.trade := by
  rw [List.filterMap_map, ← List.filterMap_eq_map]
  rfl

theorem filterMap_filled?_legs (legs : List Leg) :
    (legs.map Leg.event).filterMap LedgerEvent.filled? = [] := by
  rw [List.filterMap_map]
  exact List.filterMap_eq_nil_iff.mpr fun _ _ => rfl

/-- The events of legs tell of the last leg. -/
theorem lastChange?_legs {legs : List Leg} {symbol : String}
    (h : ∀ leg ∈ legs, leg.position.symbol = symbol) :
    lastChange? symbol (legs.map Leg.event) =
      legs.getLast?.map fun leg => (leg.change, leg.position) := by
  have hchange : ∀ leg ∈ legs,
      leg.event.change? symbol = some (leg.change, leg.position) :=
    fun leg hleg => if_pos (h leg hleg)
  rw [lastChange?, List.filterMap_map, ← List.getLast?_map, ← List.filterMap_eq_map]
  exact congrArg _ (List.filterMap_congr hchange)

/-- The events of legs tell nothing of other symbols. -/
theorem lastChange?_legs_of_ne {legs : List Leg} {symbol : String}
    (h : ∀ leg ∈ legs, leg.position.symbol ≠ symbol) :
    lastChange? symbol (legs.map Leg.event) = none := by
  have hchange : ∀ leg ∈ legs, leg.event.change? symbol = none :=
    fun leg hleg => if_neg (h leg hleg)
  rw [lastChange?, List.filterMap_map]
  exact List.getLast?_eq_none_iff.mpr (List.filterMap_eq_nil_iff.mpr hchange)

/-- The stop loss and the take profit that a request names. -/
def OrderRequest.exits (r : OrderRequest) : Option Decimal × Option Decimal :=
  (r.stopLoss, r.takeProfit)

namespace Ledger

variable {l l' l₁ : Ledger} {request : OrderRequest} {price notional commission : Decimal}
  {now : Instant} {legs : List Leg} {symbol : String} {p p' : Position} {trigger : Trigger}
  {exit : Option LedgerEvent} {time : Option Instant} {asked : OrderRequest → Prop}
  {execution : Option Execution} {told es : List LedgerEvent}

/-! ## Turns and what they answer -/

/-- The execution that an operation answers with, if it does. -/
def Answer.execution? : Answer → Option Execution
  | .execution outcome => outcome.toOption
  | .update outcome => outcome.toOption.join
  | .order _ | .position _ => none

/-- The time at which an operation fills its orders, if it can fill any. -/
def Operation.time? : Operation → Option Instant
  | .place _ now | .close _ now | .updatePrice _ _ now => some now
  | .cancel _ | .setExit .. => none

/-- The time at which a turn fills its orders, if it can fill any. -/
def Turn.time? : Turn → Option Instant
  | .whole op => op.time?
  | .mark .. => none
  | .finish _ now => some now

/-- A request that an operation may fill: the one that it places, or one without exits. -/
def Operation.Asks : Operation → OrderRequest → Prop
  | .place request _, r => r = request
  | .close .., r | .cancel _, r | .setExit .., r | .updatePrice .., r => r.exits = (none, none)

/-- A request that a turn may fill: the one that it places, or one without exits. -/
def Turn.Asks : Turn → OrderRequest → Prop
  | .whole op, r => op.Asks r
  | .mark .., r | .finish .., r => r.exits = (none, none)

/-- The book after one turn, and the execution that the turn answers with, if it does. -/
def respond (l : Ledger) : Turn → Calc (Ledger × Option Execution)
  | .whole op => do
    let (l, answer) ← l.step op
    return (l, answer.execution?)
  | .mark symbol price now => do
    let (l, _) ← l.recordPrice symbol price now
    return (l, none)
  | .finish trigger now => do
    let (l, outcome) ← l.executeTrigger trigger now
    return (l, outcome.toOption.join)

theorem turn_eq (l : Ledger) (t : Turn) : l.turn t = do return (← l.respond t).1 := by
  cases t <;> simp only [turn, respond, bind_assoc, pure_bind]

/-- What a listener hears who takes the events after each of these groups of turns, and the book
after them. -/
def hear (l : Ledger) : List (List Turn) → Calc (List LedgerEvent × Ledger)
  | [] => return ([], l)
  | ts :: groups => do
    let l ← l.turns ts
    let (events, l) := l.takeEvents
    let (more, l) ← l.hear groups
    return (events ++ more, l)

/-! ## The kinds of turn -/

/-- Only prices and marks have changed, and at most a crossed exit is told. -/
structure Remarked (l : Ledger) (exit : Option LedgerEvent) (l' : Ledger) : Prop where
  quiet : l.Quiet l'
  events_eq : l'.events = l.events.map (· ++ exit.toList)
  isExit : ∀ event ∈ exit, event.IsExit
  unmarked_eq : ∀ s,
    (l'.positions.get? s).map Position.unmarked = (l.positions.get? s).map Position.unmarked

namespace Remarked

theorem of_events_eq (hquiet : l.Quiet l') (hevents : l'.events = l.events)
    (hunmarked : ∀ s,
      (l'.positions.get? s).map Position.unmarked = (l.positions.get? s).map Position.unmarked) :
    l.Remarked none l' where
  quiet := hquiet
  events_eq := by
    rw [hevents, Option.toList_none, map_append_nil]
  isExit _ hmem := absurd hmem (Option.not_mem_none _)
  unmarked_eq := hunmarked

theorem refl (l : Ledger) : l.Remarked none l := of_events_eq (.refl l) rfl fun _ => rfl

theorem setPrice (l : Ledger) (symbol : String) (price : Decimal) :
    l.Remarked none (l.withPrice symbol price) :=
  of_events_eq (.setPrice l symbol price) rfl fun _ => rfl

theorem marked (hp : l.positions.get? symbol = some p) (hmark : p.mark price now = .ok p') :
    l.Remarked none (l.marked symbol price p') := by
  refine of_events_eq (quiet_marked hp hmark) rfl fun s => ?_
  show ((l.positions.insert symbol p').get? s).map _ = _
  rw [Table.get?_insert]
  split
  · next hs => rw [← hs, hp, Option.map_some, Option.map_some, Position.unmarked_mark hmark]
  · rfl

/-- A crossed exit is told after a mark. -/
theorem triggered (h : l.Remarked none l₁) {event : LedgerEvent} (hevent : event.IsExit) :
    l.Remarked (some event) (l₁.emit event) where
  quiet := h.quiet.trans (.emit _ _)
  events_eq := by
    show l₁.events.map _ = _
    rw [h.events_eq, map_append_append]
    rfl
  isExit _ hmem := Option.some.inj hmem ▸ hevent
  unmarked_eq := h.unmarked_eq

theorem tells_nothing (h : l.Remarked exit l') :
    exit.toList.filterMap LedgerEvent.trade? = [] ∧
    exit.toList.filterMap LedgerEvent.filled? = [] ∧
    ∀ symbol, lastChange? symbol exit.toList = none := by
  cases exit with
  | none => exact ⟨rfl, rfl, fun _ => rfl⟩
  | some event =>
    obtain ⟨htrade, hfilled, hchange⟩ := (h.isExit event rfl).tells_nothing
    simp [htrade, hfilled, hchange, lastChange?]

end Remarked

/-- What a turn does at its time if it is asked for such a request, and the execution that it
answers. -/
inductive Answered (l : Ledger) (time : Option Instant) (asked : OrderRequest → Prop) :
    Option Execution → Ledger → Prop
  /-- Nothing but prices and marks has changed. -/
  | remarked {exit : Option LedgerEvent} {l' : Ledger} (remarked : l.Remarked exit l') :
    Answered l time asked none l'
  /-- An exit of a position was set. -/
  | exitSet {symbol : String} {p : Position} (kind : TriggerKind) (price : Decimal) (now : Instant)
      (get? : l.positions.get? symbol = some p) :
    Answered l time asked none
      ({ l with positions := l.positions.insert symbol (p.withExit kind price now) }.emit
        (.position .modified (p.withExit kind price now) none))
  /-- An order was filled, perhaps that of a crossed exit. -/
  | filled {exit : Option LedgerEvent} {l₁ l' : Ledger} {request : OrderRequest}
      {price notional commission : Decimal} {now : Instant} {legs : List Leg}
      (time_eq : time = some now) (asks : asked request)
      (remarked : l.Remarked exit l₁)
      (filled : l₁.Filled request price notional commission now legs l') :
    Answered l time asked (l'.verdict ⟨(l₁.orderOf request now).filled price commission now,
      legs.map Leg.trade, l'.positions.get? request.symbol⟩).toOption l'

theorem answered_fillCounted {outcome : Outcome Execution} (hremarked : l.Remarked exit l₁)
    (hq : 0 < request.quantity) (h : l₁.fillCounted request price now = .ok (l', outcome))
    (hasks : asked request) :
    l.Answered (some now) asked outcome.toOption l' := by
  rcases fillCounted_cases hq h with ⟨-, rfl, _, _, _, -, -, -, -, rfl⟩ | ⟨_, _, legs, hfilled, rfl⟩
  · exact .remarked hremarked
  · exact .filled rfl hasks hremarked hfilled

theorem answered_place {outcome : Outcome Execution}
    (h : l.place request now = .ok (l', outcome)) (hasks : asked request) :
    l.Answered (some now) asked outcome.toOption l' := by
  rcases place_cases h with ⟨rfl, e, rfl, -⟩ | ⟨price, hfault, -, hfill⟩
  · exact .remarked (.refl _)
  · exact answered_fillCounted (.refl l) (quantity_pos_of_fault?_eq_none hfault) hfill hasks

theorem Consistent.answered_executeTrigger (hl : l.Consistent)
    {outcome : Outcome (Option Execution)}
    (h : l.executeTrigger trigger now = .ok (l', outcome)) :
    l.Answered (some now) (·.exits = (none, none)) outcome.toOption.join l' := by
  -- a trigger whose position is gone, or is no longer beyond its exit, does nothing
  by_cases hlive : ∃ p latest kind, l.Live trigger p latest kind
  · obtain ⟨p, latest, kind, hlive⟩ := hlive
    rw [hlive.executeTrigger_eq] at h
    simp only [bind_eq_ok, pure_eq_ok, Prod.mk.injEq] at h
    obtain ⟨⟨l₁, result⟩, hfill, rfl, rfl⟩ := h
    have hq : 0 < (exitRequest p kind).quantity := (hl.sound hlive.get?_eq).quantity_pos
    rw [toOption_map_some]
    exact answered_fillCounted ((Remarked.refl l).triggered (.exitTriggered ..)) hq hfill rfl
  · rw [executeTrigger_of_not_live hl hlive] at h
    obtain ⟨rfl, rfl⟩ := Prod.mk.inj (Except.ok.inj h)
    exact .remarked (.refl _)

theorem remarked_recordPrice {outcome : Outcome (Option Trigger)}
    (h : l.recordPrice symbol price now = .ok (l', outcome)) : l.Remarked none l' := by
  rcases recordPrice_cases h with ⟨-, rfl, -⟩ | ⟨-, -, rfl, -⟩ | ⟨p, p', -, hp, hmark, rfl, -⟩
  · exact .refl _
  · exact .setPrice ..
  · exact .marked hp hmark

theorem Consistent.answered_step (hl : l.Consistent) {op : Operation} {answer : Answer}
    (h : l.step op = .ok (l', answer)) :
    l.Answered op.time? op.Asks answer.execution? l' := by
  cases op with
  | place request now =>
    simp only [Ledger.step, bind_eq_ok, pure_eq_ok, Prod.mk.injEq] at h
    obtain ⟨⟨l₁, outcome⟩, hplace, rfl, rfl⟩ := h
    exact answered_place hplace rfl
  | close id now =>
    simp only [Ledger.step, bind_eq_ok, pure_eq_ok, Prod.mk.injEq] at h
    obtain ⟨⟨l₁, outcome⟩, hclose, rfl, rfl⟩ := h
    rcases close_cases hclose with ⟨-, rfl, rfl⟩ | ⟨p, -, hplace⟩
    · exact .remarked (.refl _)
    · exact answered_place hplace rfl
  | cancel id =>
    -- every order of the book is filled, so none can be canceled
    obtain ⟨e, he, -⟩ := hl.cancel_eq id
    simp only [Ledger.step, he] at h
    obtain ⟨rfl, rfl⟩ := Prod.mk.inj (Except.ok.inj h)
    exact .remarked (.refl _)
  | setExit id kind price now =>
    rcases hset : l.setExit id kind price now with ⟨l₁, outcome⟩
    simp only [Ledger.step, hset] at h
    obtain ⟨rfl, rfl⟩ := Prod.mk.inj (Except.ok.inj h)
    rcases setExit_cases hset with ⟨rfl, -⟩ | ⟨symbol, p, -, hp, -, rfl, rfl⟩
    · exact .remarked (.refl _)
    · exact .exitSet kind price now hp
  | updatePrice symbol price now =>
    simp only [Ledger.step, bind_eq_ok, pure_eq_ok, Prod.mk.injEq] at h
    obtain ⟨⟨l₂, outcome⟩, hupdate, rfl, rfl⟩ := h
    rcases updatePrice_cases hupdate with
      ⟨-, rfl, what, rfl⟩ | ⟨-, -, rfl, rfl⟩ |
      ⟨p, p', -, hp, hmark, ⟨-, rfl, rfl⟩ | ⟨kind, result, -, hfill, rfl⟩⟩
    · exact .remarked (.refl _)
    · exact .remarked (.setPrice ..)
    · exact .remarked (.marked hp hmark)
    · have hq : 0 < (exitRequest p' kind).quantity := by
        obtain ⟨-, -, -, hquantity, -⟩ :=
          Position.holding_eq_iff.mp (Position.holding_mark hmark)
        exact hquantity.symm.subst (hl.sound hp).quantity_pos
      show l.Answered (some now) (·.exits = (none, none)) (result.map some).toOption.join l₂
      rw [toOption_map_some]
      have hexit := LedgerEvent.IsExit.exitTriggered p.id symbol kind price
      have hmarked := (Remarked.marked hp hmark).triggered hexit
      exact answered_fillCounted hmarked hq hfill rfl

theorem Consistent.answered_respond (hl : l.Consistent) {t : Turn}
    (h : l.respond t = .ok (l', execution)) :
    l.Answered t.time? t.Asks execution l' := by
  cases t <;> simp only [respond, bind_eq_ok, pure_eq_ok, Prod.mk.injEq] at h <;>
    obtain ⟨⟨l₁, outcome⟩, h, rfl, rfl⟩ := h
  case whole => exact hl.answered_step h
  case mark => exact .remarked (remarked_recordPrice h)
  case finish => exact hl.answered_executeTrigger h

/-- An execution is answered only if nothing is wrong with the book. -/
theorem eq_of_mem_verdict {e e' : Execution} (h : e' ∈ (l.verdict e).toOption) : e' = e := by
  unfold verdict at h
  split at h
  · exact nomatch h
  · exact (Option.some.inj h).symm

/-- What a turn does at its time, with the execution that it answers and the events that it
tells. -/
inductive Told (l : Ledger) (time : Option Instant) :
    Option Execution → List LedgerEvent → Ledger → Prop
  /-- Nothing but prices and marks has changed. -/
  | remarked {exit : Option LedgerEvent} {l' : Ledger} (remarked : l.Remarked exit l') :
    Told l time none exit.toList l'
  /-- An exit of a position was set. -/
  | exitSet {symbol : String} {p : Position} (kind : TriggerKind) (price : Decimal) (now : Instant)
      (get? : l.positions.get? symbol = some p) :
    Told l time none [.position .modified (p.withExit kind price now) none]
      ({ l with positions := l.positions.insert symbol (p.withExit kind price now) }.emit
        (.position .modified (p.withExit kind price now) none))
  /-- An order was filled, perhaps that of a crossed exit. -/
  | filled {exit : Option LedgerEvent} {execution : Option Execution} {l₁ l' : Ledger}
      {request : OrderRequest} {price notional commission : Decimal} {now : Instant}
      {legs : List Leg} (time_eq : time = some now) (remarked : l.Remarked exit l₁)
      (filled : l₁.Filled request price notional commission now legs l')
      (execution_eq : ∀ e ∈ execution, e.trades = legs.map Leg.trade ∧
        e.order = (l₁.orderOf request now).filled price commission now) :
    Told l time execution (exit.toList ++ (legs.map Leg.event ++
      [.orderFilled ((l₁.orderOf request now).filled price commission now)])) l'

theorem Answered.exists_told (h : l.Answered time asked execution l') :
    ∃ told, l.Told time execution told l' := by
  cases h with
  | remarked remarked => exact ⟨_, .remarked remarked⟩
  | exitSet kind price now get? => exact ⟨_, .exitSet kind price now get?⟩
  | filled time_eq _ remarked filled =>
    refine ⟨_, .filled time_eq remarked filled fun e he => ?_⟩
    obtain rfl := eq_of_mem_verdict he
    exact ⟨rfl, rfl⟩

theorem Consistent.told_respond (hl : l.Consistent) {t : Turn}
    (h : l.respond t = .ok (l', execution)) :
    ∃ told, l.Told t.time? execution told l' :=
  (hl.answered_respond h).exists_told

/-! ## What a turn tells -/

/-- What a turn adds to the book is what its events tell. -/
inductive Recounted (l : Ledger) (execution : Option Execution) (told : List LedgerEvent)
    (l' : Ledger) : Prop
  /-- The turn fills no order. -/
  | idle (execution_eq : execution = none) (orders_eq : l'.orders = l.orders)
      (trades_eq : l'.trades = l.trades) (filled?_eq : told.filterMap LedgerEvent.filled? = [])
      (trade?_eq : told.filterMap LedgerEvent.trade? = [])
  /-- The turn fills an order, which is the one that it answers with, if it does. -/
  | filled {order : Order} {trades : List Trade} (orders_eq : l'.orders = l.orders ++ [order])
      (trades_eq : l'.trades = l.trades ++ trades) (block : FillBlock told trades order)
      (execution_eq : ∀ e ∈ execution, e.trades = trades ∧ e.order = order)

namespace Told

theorem events_eq (h : l.Told time execution told l') : l'.events = l.events.map (· ++ told) := by
  cases h with
  | remarked remarked => exact remarked.events_eq
  | exitSet => rfl
  | filled _ remarked filled _ =>
    rw [filled.events_eq, remarked.events_eq, map_append_append]

/-- The trades that a turn tells of are those that it makes. -/
theorem trades_eq (h : l.Told time execution told l') :
    l'.trades = l.trades ++ told.filterMap LedgerEvent.trade? := by
  cases h with
  | remarked remarked =>
    rw [remarked.tells_nothing.1, List.append_nil, remarked.quiet.trades_eq]
  | exitSet => exact (List.append_nil _).symm
  | filled _ remarked filled _ =>
    rw [filled.trades_eq, remarked.quiet.trades_eq, List.filterMap_append, List.filterMap_append,
      remarked.tells_nothing.1, filterMap_trade?_legs]
    exact congrArg _ (List.append_nil _).symm

/-- The orders that a turn tells of as filled are those that it fills. -/
theorem orders_eq (h : l.Told time execution told l') :
    l'.orders = l.orders ++ told.filterMap LedgerEvent.filled? := by
  cases h with
  | remarked remarked =>
    rw [remarked.tells_nothing.2.1, List.append_nil, remarked.quiet.orders_eq]
  | exitSet => exact (List.append_nil _).symm
  | filled _ remarked filled _ =>
    rw [filled.orders_eq, remarked.quiet.orders_eq, List.filterMap_append, List.filterMap_append,
      remarked.tells_nothing.2.1, filterMap_filled?_legs]
    rfl

theorem recounted (h : l.Told time execution told l') : l.Recounted execution told l' := by
  cases h with
  | @remarked exit _ remarked =>
    obtain ⟨htrade, hfilled, -⟩ := remarked.tells_nothing
    exact .idle rfl remarked.quiet.orders_eq remarked.quiet.trades_eq hfilled htrade
  | exitSet => exact .idle rfl rfl rfl rfl rfl
  | @filled exit _ l₁ _ request _ _ _ now legs _ remarked filled execution_eq =>
    refine .filled ?_ ?_ ⟨?_, ?_, ?_⟩ execution_eq
    · rw [filled.orders_eq, remarked.quiet.orders_eq]
    · rw [filled.trades_eq, remarked.quiet.trades_eq]
    · obtain ⟨giving, entering, rfl, hgiving, hentering⟩ := filled.meets.giving_entering
      exact ⟨exit, giving, entering, remarked.isExit, hgiving, hentering, rfl,
        (List.append_assoc _ _ _).symm⟩
    · exact mt List.map_eq_nil_iff.mp filled.meets.legs_ne_nil
    · intro t ht
      obtain ⟨leg, hleg, rfl⟩ := List.mem_map.mp ht
      exact filled.meets.orderId_eq hleg

end Told

/-! ## The mirror -/

/-- Prices and marks leave what the last change tells of a position. -/
theorem Remarked.mirrors (h : l.Remarked exit l')
    (hm : Mirrors (lastChange? symbol es) (l.positions.get? symbol)) :
    Mirrors (lastChange? symbol (es ++ exit.toList)) (l'.positions.get? symbol) := by
  rw [lastChange?_append, h.tells_nothing.2.2, Option.none_or]
  exact hm.remark (h.unmarked_eq symbol)

/-- The position of an exit that was set is told as it is now. -/
theorem Consistent.mirrors_exitSet (hl : l.Consistent) {s : String}
    (hp : l.positions.get? s = some p) (kind : TriggerKind) (now : Instant)
    (hm : Mirrors (lastChange? symbol es) (l.positions.get? symbol)) :
    Mirrors (lastChange? symbol (es ++ [.position .modified (p.withExit kind price now) none]))
      ((l.positions.insert s (p.withExit kind price now)).get? symbol) := by
  have hsymbol : (p.withExit kind price now).symbol = s := by
    rw [(Position.holding_eq_iff.mp (Position.holding_withExit p kind price now)).2.1]
    exact (hl.sound hp).symbol_eq
  rw [lastChange?_append, Table.get?_insert]
  by_cases hs : s = symbol
  · rw [if_pos hs]
    simpa [lastChange?, LedgerEvent.change?, hsymbol, hs] using .of_change nofun
  · rw [if_neg hs]
    simpa [lastChange?, LedgerEvent.change?, hsymbol, hs] using hm

/-- The last leg of an order tells of the position that the order leaves. -/
theorem Filled.mirrors (h : l.Filled request price notional commission now legs l')
    (hl : l.Consistent) (hm : Mirrors (lastChange? symbol es) (l.positions.get? symbol)) :
    Mirrors (lastChange? symbol (es ++ (legs.map Leg.event ++
      [.orderFilled ((l.orderOf request now).filled price commission now)])))
      (l'.positions.get? symbol) := by
  have hlegs : ∀ leg ∈ legs, leg.position.symbol = request.symbol := fun _ hleg =>
    h.meets.leg_symbol_eq (fun _ hp => (hl.sound hp).symbol_eq) hleg
  -- the event of the order tells of no position
  rw [lastChange?_append, lastChange?_append]
  show Mirrors ((lastChange? symbol (legs.map Leg.event)).or _) _
  by_cases hs : symbol = request.symbol
  · subst hs
    obtain ⟨leg, hlast, hmirrors⟩ := h.meets.mirrors
    rw [lastChange?_legs hlegs, hlast]
    exact hmirrors
  · rw [lastChange?_legs_of_ne fun leg hleg heq => hs (heq.symm.trans (hlegs leg hleg)),
      Option.none_or, h.get?_other symbol hs]
    exact hm

theorem Told.mirrors (h : l.Told time execution told l') (hl : l.Consistent)
    (hm : Mirrors (lastChange? symbol es) (l.positions.get? symbol)) :
    Mirrors (lastChange? symbol (es ++ told)) (l'.positions.get? symbol) := by
  cases h with
  | remarked remarked => exact remarked.mirrors hm
  | exitSet kind price now get? => exact hl.mirrors_exitSet get? kind now hm
  | filled _ remarked filled _ =>
    rw [← List.append_assoc]
    exact filled.mirrors (hl.quiet remarked.quiet) (remarked.mirrors hm)

/-- Events tell all of a book: its trades, its orders, and its positions. -/
structure Mirror (l : Ledger) (es : List LedgerEvent) : Prop where
  trades_eq : es.filterMap LedgerEvent.trade? = l.trades
  orders_eq : es.filterMap LedgerEvent.filled? = l.orders
  mirrors : ∀ symbol, Mirrors (lastChange? symbol es) (l.positions.get? symbol)

/-- A turn keeps the mirror. -/
theorem Mirror.respond (hm : l.Mirror es) (hl : l.Consistent) (h : l.Told time execution told l') :
    l'.Mirror (es ++ told) where
  trades_eq := by rw [List.filterMap_append, hm.trades_eq, h.trades_eq]
  orders_eq := by rw [List.filterMap_append, hm.orders_eq, h.orders_eq]
  mirrors symbol := h.mirrors hl (hm.mirrors symbol)

/-! ## Whole runs -/

/-- The events that are kept are taken, and none are left. -/
theorem takeEvents_of_events_eq (h : l.events = some told) :
    l.takeEvents.1 = told ∧ l.takeEvents.2.events = some [] := by
  rw [takeEvents, h]
  exact ⟨rfl, rfl⟩

namespace Mirror

/-- Turns keep the mirror. -/
theorem turns (hm : l.Mirror es) (hl : l.Consistent) {ts : List Turn}
    (h : l.turns ts = .ok l') :
    l'.Consistent ∧ ∃ told, l'.events = l.events.map (· ++ told) ∧ l'.Mirror (es ++ told) := by
  refine hl.turns_induction (P := fun l' => ∃ told, l'.events = l.events.map (· ++ told) ∧
    l'.Mirror (es ++ told)) ⟨[], ?_, ?_⟩ ?_ h
  · rw [map_append_nil]
  · rwa [List.append_nil]
  · rintro t - l₁ l₂ hl₁ ⟨told, hevents, hm₁⟩ hturn
    simp only [turn_eq, bind_eq_ok, pure_eq_ok] at hturn
    obtain ⟨⟨l₂, execution⟩, hrespond, rfl⟩ := hturn
    obtain ⟨more, htold⟩ := hl₁.told_respond hrespond
    refine ⟨told ++ more, ?_, ?_⟩
    · show l₂.events = _
      rw [htold.events_eq, hevents, map_append_append]
    · rw [← List.append_assoc]
      exact hm₁.respond hl₁ htold

/-- What a listener hears of a book that has nothing to tell yet mirrors the book in the end. -/
theorem hear (hm : l.Mirror es) (hl : l.Consistent) (hnone : l.events = some [])
    {groups : List (List Turn)} {heard : List LedgerEvent}
    (h : l.hear groups = .ok (heard, l')) :
    l'.Consistent ∧ l'.events = some [] ∧ l'.Mirror (es ++ heard) := by
  induction groups generalizing l es heard with
  | nil =>
    obtain ⟨rfl, rfl⟩ := Prod.mk.inj (pure_eq_ok.mp h)
    rw [List.append_nil]
    exact ⟨hl, hnone, hm⟩
  | cons ts groups ih =>
    simp only [Ledger.hear, bind_eq_ok, pure_eq_ok, Prod.mk.injEq] at h
    obtain ⟨l₁, hturns, ⟨more, l₂⟩, hmore, rfl, rfl⟩ := h
    obtain ⟨hl₁, told, hevents, hm₁⟩ := hm.turns hl hturns
    rw [hnone] at hevents
    -- taking the events leaves the rest of the book, so it is mirrored as before
    have hm₂ : l₁.takeEvents.2.Mirror (es ++ told) := ⟨hm₁.trades_eq, hm₁.orders_eq, hm₁.mirrors⟩
    obtain ⟨htaken, hleft⟩ := takeEvents_of_events_eq hevents
    rw [htaken, ← List.append_assoc]
    exact ih hm₂ (hl₁.quiet (.takeEvents l₁)) hleft hmore

end Mirror

/-- A listener may take the events of a new account at any time between its turns.  What it has
heard in the end is all of the book:

* the trades that were told are the trades of the book, and the orders that were told as filled are
  the orders of the book, as they are now;
* the next turn tells of the order that it fills in one block, with the trades that it answers;
* the last change of a symbol that was told is that it was closed, with nothing left, if there is no
  position, and else tells the position as it is now, apart from the marks. -/
theorem events_mirror (account : AccountSettings) (firstId : Uuid) (groups : List (List Turn))
    (h : (Ledger.new account firstId true).hear groups = .ok (es, l)) :
    l.events = some [] ∧
    es.filterMap LedgerEvent.trade? = l.tradeList none ∧
    es.filterMap LedgerEvent.filled? = l.orders ∧
    (∀ t l' execution, l.respond t = .ok (l', execution) →
      ∃ told, l'.events = some told ∧ l.Recounted execution told l') ∧
    ∀ symbol,
      (lastChange? symbol es = none → l.positions.get? symbol = none) ∧
      ∀ change p, lastChange? symbol es = some (change, p) →
        (change = .closed ↔ l.positions.get? symbol = none) ∧
        (change = .closed → p.quantity.isZero) ∧
        ∀ q, l.positions.get? symbol = some q → q.unmarked = p.unmarked := by
  have hnew : (Ledger.new account firstId true).Mirror [] := ⟨rfl, rfl, fun _ => rfl⟩
  obtain ⟨hl, hnone, hm⟩ := hnew.hear (consistent_new account firstId true) rfl h
  rw [List.nil_append] at hm
  refine ⟨hnone, hm.trades_eq, hm.orders_eq, fun t l' execution hrespond => ?_, fun symbol => ?_⟩
  · obtain ⟨told, htold⟩ := hl.told_respond hrespond
    refine ⟨told, ?_, htold.recounted⟩
    rw [htold.events_eq, hnone]
    rfl
  · have hmirrors := hm.mirrors symbol
    refine ⟨fun hlast => ?_, fun change p hlast => ?_⟩
    · rwa [hlast] at hmirrors
    · rw [hlast] at hmirrors
      exact hmirrors.of_some

/-- The number of events that a listener hears, and of trades that one more turn answers with. -/
def heardBefore? (account : AccountSettings) (groups : List (List Turn)) (t : Turn) :
    Option (ℕ × ℕ) :=
  ((new account default true).hear groups).toOption.bind fun heard =>
    (heard.2.respond t).toOption.bind fun answered =>
      answered.2.map fun execution => (heard.1.length, execution.trades.length)

/-- Three are bought and a new stop is set, which are three events.  Selling five closes the
position and opens another, which the next block of events tells. -/
theorem events_mirror_flip : ∃ es l l' execution told,
    (new (smallAccount 0) default true).hear
      [stoppedLong, [.whole (.setExit 1 .stopLoss (.lit 25 0) default)]] = .ok (es, l) ∧
    es.length = 3 ∧ es.filterMap LedgerEvent.trade? = l.tradeList none ∧
    l.respond (.whole (.place (OrderRequest.market "A" .sell (.lit 5 0)) default)) =
      .ok (l', some execution) ∧
    execution.trades.length = 2 ∧ l'.events = some told ∧ l.Recounted (some execution) told l' := by
  have hheard : heardBefore? (smallAccount 0)
      [stoppedLong, [.whole (.setExit 1 .stopLoss (.lit 25 0) default)]]
      (.whole (.place (OrderRequest.market "A" .sell (.lit 5 0)) default)) = some (3, 2) := by
    decide +kernel
  obtain ⟨⟨es, l⟩, hhear, h⟩ := Calc.exists_eq_ok hheard
  obtain ⟨⟨l', answered⟩, hrespond, h⟩ := Calc.exists_eq_ok h
  obtain ⟨execution, rfl, h⟩ := Option.map_eq_some_iff.mp h
  obtain ⟨hlength, htrades⟩ := Prod.mk.inj (Option.some.inj h)
  obtain ⟨-, hes, -, hnext, -⟩ := events_mirror (smallAccount 0) default _ hhear
  obtain ⟨told, hevents, hrecounted⟩ := hnext _ _ _ hrespond
  exact ⟨es, l, l', execution, told, hhear, hlength, hes, hrespond, htrades, hevents, hrecounted⟩

end Ledger

end SimBroker
