import SimBroker.Proofs.Ledger.Exit

/-!
# Price updates that are interrupted

A price update takes two turns with the book: the first records the price and reports a crossed
exit, the second closes the position.  Other callers may have the book in between, for as many turns
as they like.  The second step looks again, so it closes the position that the report is about or
nothing: ids are given in turn and never given again, so a position that was opened in between
cannot be taken for the one that the report names.

## Main definitions

* `Turn`: what is done with a book without interruption
* `Live`: a report that is still true
* `Moved`: a turn makes a quiet change, or fills one order after it
* `Holds`, `tradesOf`: the open positions and the trades of an id

## Main results

* `executeTrigger_of_not_live`, `Live.executeTrigger_eq`: the second step of a price update
* `Consistent.turns_induction`: what every turn preserves is preserved by all runs of turns
* `Consistent.closed_turns`: an id that was closed is not held or traded again
* `executeTrigger_after_turns`: what a report comes to after any turns of others
-/

namespace SimBroker

open Calc (bind_eq_ok pure_eq_ok)

/-- A trade of an order is in the position that it meets, or in the one that it opens. -/
theorem Meets.positionId_eq {order : Order} {request : OrderRequest} {price commission : Decimal}
    {now : Instant} {newId : ℕ} {before after : Option Position} {legs : List Leg} {leg : Leg}
    (h : Meets order request price commission now newId before legs after) (hleg : leg ∈ legs) :
    (∃ p ∈ before, leg.trade.positionId = some p.id) ∨
      leg.trade.positionId = some newId ∧ legs.countP (·.change = .opened) = 1 := by
  cases h with
  | opens =>
    obtain rfl := List.mem_singleton.mp hleg
    exact .inr ⟨rfl, rfl⟩
  | @increases p p' _ increased =>
    obtain rfl := List.mem_singleton.mp hleg
    obtain ⟨_, _, -, -, hholding⟩ := Position.holding_increased increased
    exact .inl ⟨p, rfl, congrArg Holding.id hholding⟩
  | @reduces p p' _ _ _ reduced | @closes p p' _ _ _ reduced =>
    obtain rfl := List.mem_singleton.mp hleg
    obtain ⟨-, _, _, -, -, hholding⟩ := Position.holding_reduced reduced
    exact .inl ⟨p, rfl, congrArg Holding.id hholding⟩
  | @flips p p' _ _ _ _ _ _ _ reduced =>
    rcases List.mem_pair.mp hleg with rfl | rfl
    · obtain ⟨-, _, _, -, -, hholding⟩ := Position.holding_reduced reduced
      exact .inl ⟨p, rfl, congrArg Holding.id hholding⟩
    · exact .inr ⟨rfl, rfl⟩

namespace Ledger

variable {l l' l₁ l₂ : Ledger} {request : OrderRequest} {price notional commission : Decimal}
  {now : Instant} {symbol : String} {p : Position} {kind : TriggerKind} {trigger : Trigger}
  {latest : Decimal} {legs : List Leg} {id : ℕ}

/-! ## Turns -/

/-- What is done with a book without interruption: an operation, or one of the two steps of a price
update. -/
inductive Turn where
  | whole (op : Operation)
  | mark (symbol : String) (price : Decimal) (now : Instant)
  | finish (trigger : Trigger) (now : Instant)

/-- The book after one turn. -/
def turn (l : Ledger) : Turn → Calc Ledger
  | .whole op => do return (← l.step op).1
  | .mark symbol price now => do return (← l.recordPrice symbol price now).1
  | .finish trigger now => do return (← l.executeTrigger trigger now).1

/-- The book after some turns. -/
def turns (l : Ledger) (ts : List Turn) : Calc Ledger := ts.foldlM turn l

/-! A turn is the call that it names, without the answer. -/

section Calls

variable {symbol : String} {price : Decimal} {id : ℕ} {kind : TriggerKind} {trigger : Trigger}

theorem turn_place_eq_ok : l.turn (.whole (.place request now)) = .ok l' ↔
    ∃ outcome, l.place request now = .ok (l', outcome) := by
  simp [turn, step, Calc.map_fst_eq_ok]

theorem turn_close_eq_ok : l.turn (.whole (.close id now)) = .ok l' ↔
    ∃ outcome, l.close id now = .ok (l', outcome) := by
  simp [turn, step, Calc.map_fst_eq_ok]

theorem turn_cancel_eq_ok {order : Uuid} : l.turn (.whole (.cancel order)) = .ok l' ↔
    ∃ outcome, l.cancel order = (l', outcome) := by
  simp [turn, step, Prod.ext_iff]

theorem turn_setExit_eq_ok : l.turn (.whole (.setExit id kind price now)) = .ok l' ↔
    ∃ outcome, l.setExit id kind price now = (l', outcome) := by
  simp [turn, step, Prod.ext_iff]

theorem turn_updatePrice_eq_ok : l.turn (.whole (.updatePrice symbol price now)) = .ok l' ↔
    ∃ outcome, l.updatePrice symbol price now = .ok (l', outcome) := by
  simp [turn, step, Calc.map_fst_eq_ok]

theorem turn_mark_eq_ok : l.turn (.mark symbol price now) = .ok l' ↔
    ∃ outcome, l.recordPrice symbol price now = .ok (l', outcome) := by
  simp [turn, Calc.map_fst_eq_ok]

theorem turn_finish_eq_ok : l.turn (.finish trigger now) = .ok l' ↔
    ∃ outcome, l.executeTrigger trigger now = .ok (l', outcome) := by
  simp [turn, Calc.map_fst_eq_ok]

/-- A price update is a mark, and the execution of the exit that it reports, if any. -/
theorem updatePrice_eq_ok {outcome : Outcome (Option Execution)}
    (h : l.updatePrice symbol price now = .ok (l', outcome)) :
    ∃ l₁ reported, l.recordPrice symbol price now = .ok (l₁, reported) ∧
      (l' = l₁ ∨ ∃ trigger, reported = .ok (some trigger) ∧
        l₁.executeTrigger trigger now = .ok (l', outcome)) := by
  simp only [updatePrice, bind_eq_ok] at h
  obtain ⟨⟨l₁, reported⟩, hrecord, h⟩ := h
  refine ⟨l₁, reported, hrecord, ?_⟩
  rcases reported with e | _ | trigger
  · exact .inl (Prod.mk.inj (pure_eq_ok.mp h)).1.symm
  · exact .inl (Prod.mk.inj (pure_eq_ok.mp h)).1.symm
  · exact .inr ⟨trigger, rfl, h⟩

end Calls

/-- Every order of a consistent book is filled, so none can be canceled. -/
theorem Consistent.eq_of_turn_cancel (hl : l.Consistent) {id : Uuid}
    (h : l.turn (.whole (.cancel id)) = .ok l') : l' = l := by
  obtain ⟨outcome, hcancel⟩ := turn_cancel_eq_ok.mp h
  obtain ⟨e, he, -⟩ := hl.cancel_eq id
  exact (Prod.mk.inj (he.symm.trans hcancel)).1.symm

/-! ## The second step of a price update -/

/-- A report is still true: the position is open, and the latest price crosses an exit of it. -/
structure Live (l : Ledger) (trigger : Trigger) (p : Position) (latest : Decimal)
    (kind : TriggerKind) : Prop where
  get?_eq : l.positions.get? trigger.symbol = some p
  id_eq : p.id = trigger.positionId
  lastPrice?_eq : l.lastPrice? trigger.symbol = some latest
  crossed : p.triggerAt latest = some kind

/-- A report that is not true any more changes nothing. -/
theorem executeTrigger_of_not_live (hl : l.Consistent)
    (hstale : ¬ ∃ p latest kind, l.Live trigger p latest kind) :
    l.executeTrigger trigger now = .ok (l, .ok none) := by
  have hnone : l.closeCrossed trigger now = .ok (l, .ok none) := by
    unfold closeCrossed
    split
    · rfl
    · next p hp =>
      split
      · rfl
      · next hid =>
        -- the symbol of an open position has a price
        obtain ⟨latest, hlatest⟩ := Option.isSome_iff_exists.mp (hl.sound hp).priced
        have hprice : l.lastPrice? trigger.symbol = some latest := hlatest
        simp only [hprice, Option.getD_some]
        split
        · rfl
        · next kind hkind =>
          exact absurd ⟨p, latest, kind, hp, not_not.mp hid, hprice, hkind⟩ hstale
  rw [executeTrigger, hnone]
  rfl

/-- A report that is still true fills the order that closes the position. -/
theorem Live.executeTrigger_eq (h : l.Live trigger p latest kind) :
    l.executeTrigger trigger now = do
      let (l, outcome) ← (l.emit (.exitTriggered p.id trigger.symbol kind latest)).fillCounted
        (exitRequest p kind) latest now
      return (l, outcome.map some) := by
  simp only [executeTrigger, closeCrossed, fillCounted, h.get?_eq, h.id_eq, ne_eq,
    not_true_eq_false, if_false, h.lastPrice?_eq, Option.getD_some, h.crossed, bind_assoc,
    pure_bind, toOption_map_some]

/-- Closing the position costs more than the free balance: only the crossed exit is told. -/
structure Unpaid (l : Ledger) (trigger : Trigger) (p : Position) (latest : Decimal)
    (kind : TriggerKind) (l' : Ledger) (outcome : Outcome (Option Execution)) : Prop where
  short : p.side = .short
  ledger_eq : l' = l.emit (.exitTriggered p.id trigger.symbol kind latest)
  outcome_eq : ∃ notional commission cost, p.quantity.mul latest = .ok notional ∧
    notional.mul l.account.commissionRate = .ok commission ∧
    notional.add commission = .ok cost ∧ l.freeBalance < cost ∧
    outcome = .error (.insufficientBalance cost l.freeBalance)

/-- What the fill of a report that is still true comes to. -/
theorem Live.fill_cases {outcome : Outcome (Option Execution)}
    (h : l.Live trigger p latest kind) (hl : l.Consistent)
    (hfinish : l.executeTrigger trigger now = .ok (l', outcome)) :
    l.Unpaid trigger p latest kind l' outcome ∨
    ∃ notional commission legs,
      (l.emit (.exitTriggered p.id trigger.symbol kind latest)).Filled (exitRequest p kind) latest
        notional commission now legs l' ∧
      outcome = (l'.verdict ⟨((l.emit (.exitTriggered p.id trigger.symbol kind latest)).orderOf
        (exitRequest p kind) now).filled latest commission now, legs.map Leg.trade,
        l'.positions.get? (exitRequest p kind).symbol⟩).map some := by
  rw [h.executeTrigger_eq] at hfinish
  simp only [bind_eq_ok, pure_eq_ok, Prod.mk.injEq] at hfinish
  obtain ⟨⟨l₁, result⟩, hfill, rfl, rfl⟩ := hfinish
  have hq : 0 < (exitRequest p kind).quantity := (hl.sound h.get?_eq).quantity_pos
  rcases fillCounted_cases hq hfill with ⟨hbuy, rfl, notional, commission, cost, hnotional,
    hcommission, hcost, hlt, rfl⟩ | ⟨notional, commission, legs, hfilled, rfl⟩
  · exact .inl ⟨PositionSide.opposite_eq_buy.mp hbuy, rfl, notional, commission, cost, hnotional,
      hcommission, hcost, hlt, rfl⟩
  · exact .inr ⟨notional, commission, legs, hfilled, rfl⟩

/-- The second step of a price update leaves the book as it is, or its report is still true and is
refused for the cost or filled. -/
theorem Consistent.executeTrigger_cases (hl : l.Consistent) {outcome : Outcome (Option Execution)}
    (h : l.executeTrigger trigger now = .ok (l', outcome)) :
    l' = l ∨ ∃ p latest kind, l.Live trigger p latest kind ∧
      (l' = l.emit (.exitTriggered p.id trigger.symbol kind latest) ∨
        ∃ notional commission legs,
          (l.emit (.exitTriggered p.id trigger.symbol kind latest)).Filled (exitRequest p kind)
            latest notional commission now legs l') := by
  by_cases hlive : ∃ p latest kind, l.Live trigger p latest kind
  · obtain ⟨p, latest, kind, hlive⟩ := hlive
    refine .inr ⟨p, latest, kind, hlive, ?_⟩
    rcases hlive.fill_cases hl h with hunpaid | ⟨notional, commission, legs, hfilled, -⟩
    · exact .inl hunpaid.ledger_eq
    · exact .inr ⟨notional, commission, legs, hfilled⟩
  · rw [executeTrigger_of_not_live hl hlive] at h
    obtain ⟨rfl, -⟩ := Prod.mk.inj (Except.ok.inj h)
    exact .inl rfl

/-! ## What a turn does -/

/-- A book after a quiet change, or after an order that was filled following one. -/
inductive Moved (l l' : Ledger) : Prop
  | quiet (quiet : l.Quiet l')
  | filled {l₁ : Ledger} {request : OrderRequest} {price notional commission : Decimal}
      {now : Instant} {legs : List Leg} (quiet : l.Quiet l₁) (quantity_pos : 0 < request.quantity)
      (priced : (l₁.prices.get? request.symbol).isSome)
      (filled : l₁.Filled request price notional commission now legs l')

namespace Moved

theorem of_stepped {op : Operation} {answer : Answer} (h : l.Stepped op l' answer) :
    l.Moved l' := by
  cases h with
  | quiet quiet _ => exact .quiet quiet
  | filled quiet _ quantity_pos priced filled _ => exact .filled quiet quantity_pos priced filled

theorem consistent (h : l.Moved l') (hl : l.Consistent) : l'.Consistent := by
  cases h with
  | quiet quiet => exact hl.quiet quiet
  | filled quiet quantity_pos priced filled =>
    exact (hl.quiet quiet).filled_by quantity_pos priced filled

theorem succeeds (h : l.Moved l') : l.Succeeds l' := by
  cases h with
  | quiet quiet => exact .of_quiet quiet
  | filled quiet _ _ filled => exact (Succeeds.of_quiet quiet).trans (.of_filled filled)

end Moved

theorem quiet_recordPrice {outcome : Outcome (Option Trigger)}
    (h : l.recordPrice symbol price now = .ok (l', outcome)) : l.Quiet l' := by
  rcases recordPrice_cases h with ⟨-, rfl, -⟩ | ⟨-, -, rfl, -⟩ | ⟨p, p', -, hp, hmark, rfl, -⟩
  · exact .refl _
  · exact .setPrice ..
  · exact quiet_marked hp hmark

theorem Consistent.moved_executeTrigger (hl : l.Consistent)
    {outcome : Outcome (Option Execution)}
    (h : l.executeTrigger trigger now = .ok (l', outcome)) : l.Moved l' := by
  rcases hl.executeTrigger_cases h with rfl | ⟨p, latest, kind, hlive, rfl | ⟨_, _, _, hfilled⟩⟩
  · exact .quiet (.refl _)
  · exact .quiet (.emit _ _)
  · have hsound := hl.sound hlive.get?_eq
    refine .filled (.emit _ _) hsound.quantity_pos ?_ hfilled
    show (l.prices.get? p.symbol).isSome
    rw [hsound.symbol_eq]
    exact hsound.priced

theorem Consistent.moved_turn (hl : l.Consistent) {t : Turn} (h : l.turn t = .ok l') :
    l.Moved l' := by
  cases t with
  | whole op =>
    simp only [turn, bind_eq_ok, pure_eq_ok] at h
    obtain ⟨⟨l₁, answer⟩, hop, rfl⟩ := h
    exact .of_stepped (hl.step_cases hop)
  | mark symbol price now =>
    obtain ⟨outcome, hrecord⟩ := turn_mark_eq_ok.mp h
    exact .quiet (quiet_recordPrice hrecord)
  | finish trigger now =>
    obtain ⟨outcome, hfinish⟩ := turn_finish_eq_ok.mp h
    exact hl.moved_executeTrigger hfinish

/-- What every turn on a consistent book preserves is preserved by all runs of turns. -/
theorem Consistent.turns_induction {P : Ledger → Prop} {ts : List Turn} (hl : l.Consistent)
    (hP : P l) (hstep : ∀ t ∈ ts, ∀ {l l'}, l.Consistent → P l → l.turn t = .ok l' → P l')
    (h : l.turns ts = .ok l') : l'.Consistent ∧ P l' := by
  induction ts generalizing l with
  | nil =>
    obtain rfl : l = l' := pure_eq_ok.mp h
    exact ⟨hl, hP⟩
  | cons t ts ih =>
    rw [turns, List.foldlM_cons, bind_eq_ok] at h
    obtain ⟨l₁, hturn, hrest⟩ := h
    exact ih ((hl.moved_turn hturn).consistent hl) (hstep t List.mem_cons_self hl hP hturn)
      (fun t ht => hstep t (List.mem_cons_of_mem _ ht)) hrest

theorem Consistent.turns (hl : l.Consistent) {ts : List Turn} (h : l.turns ts = .ok l') :
    l'.Consistent :=
  (hl.turns_induction (P := fun _ => True) trivial (fun _ _ _ _ _ _ _ => trivial) h).1

/-! ## Reference prices are positive -/

/-- Every reference price is positive. -/
def PricesPos (l : Ledger) : Prop := ∀ s x, l.lastPrice? s = some x → 0 < x

theorem PricesPos.of_eq (hl : l.PricesPos) (h : l'.prices = l.prices) : l'.PricesPos := by
  unfold PricesPos lastPrice?
  rw [h]
  exact hl

theorem PricesPos.insert (hl : l.PricesPos) (hprice : 0 < price)
    (h : l'.prices = l.prices.insert symbol price) : l'.PricesPos := by
  intro s x hx
  rw [lastPrice?, h, Table.get?_insert] at hx
  split at hx
  · obtain rfl := Option.some.inj hx
    exact hprice
  · exact hl s x hx

theorem prices_fillCounted {outcome : Outcome Execution} (hq : 0 < request.quantity)
    (h : l.fillCounted request price now = .ok (l', outcome)) : l'.prices = l.prices := by
  rcases fillCounted_cases hq h with ⟨-, rfl, -⟩ | ⟨_, _, _, hfilled, -⟩
  · rfl
  · exact hfilled.prices_eq

theorem prices_place {outcome : Outcome Execution}
    (h : l.place request now = .ok (l', outcome)) : l'.prices = l.prices := by
  rcases place_cases h with ⟨rfl, -⟩ | ⟨price, hfault, -, hfill⟩
  · rfl
  · exact prices_fillCounted (quantity_pos_of_fault?_eq_none hfault) hfill

theorem PricesPos.recordPrice (hl : l.PricesPos) {outcome : Outcome (Option Trigger)}
    (h : l.recordPrice symbol price now = .ok (l', outcome)) : l'.PricesPos := by
  rcases recordPrice_cases h with ⟨-, rfl, -⟩ | ⟨hprice, -, rfl, -⟩ | ⟨_, _, hprice, -, -, rfl, -⟩
  · exact hl
  · exact hl.insert hprice rfl
  · exact hl.insert hprice rfl

theorem PricesPos.executeTrigger (hprices : l.PricesPos) (hl : l.Consistent)
    {outcome : Outcome (Option Execution)}
    (h : l.executeTrigger trigger now = .ok (l', outcome)) : l'.PricesPos := by
  rcases hl.executeTrigger_cases h with rfl | ⟨p, latest, kind, -, rfl | ⟨_, _, _, hfilled⟩⟩
  · exact hprices
  · exact hprices
  · exact hprices.of_eq hfilled.prices_eq

theorem PricesPos.turn (hprices : l.PricesPos) (hl : l.Consistent) {t : Turn}
    (h : l.turn t = .ok l') : l'.PricesPos := by
  cases t with
  | whole op =>
    cases op with
    | place request now =>
      obtain ⟨outcome, hplace⟩ := turn_place_eq_ok.mp h
      exact hprices.of_eq (prices_place hplace)
    | close id now =>
      obtain ⟨outcome, hclose⟩ := turn_close_eq_ok.mp h
      rcases close_cases hclose with ⟨-, rfl, -⟩ | ⟨p, -, hplace⟩
      · exact hprices
      · exact hprices.of_eq (prices_place hplace)
    | cancel id =>
      obtain rfl := hl.eq_of_turn_cancel h
      exact hprices
    | setExit id kind price now =>
      obtain ⟨outcome, hset⟩ := turn_setExit_eq_ok.mp h
      rcases setExit_cases hset with ⟨rfl, -⟩ | ⟨_, _, -, -, -, rfl, -⟩ <;> exact hprices
    | updatePrice symbol price now =>
      obtain ⟨outcome, hupdate⟩ := turn_updatePrice_eq_ok.mp h
      obtain ⟨l₁, reported, hrecord, rfl | ⟨trigger, -, hexecute⟩⟩ := updatePrice_eq_ok hupdate
      · exact hprices.recordPrice hrecord
      · exact (hprices.recordPrice hrecord).executeTrigger (hl.quiet (quiet_recordPrice hrecord))
          hexecute
  | mark symbol price now =>
    obtain ⟨outcome, hrecord⟩ := turn_mark_eq_ok.mp h
    exact hprices.recordPrice hrecord
  | finish trigger now =>
    obtain ⟨outcome, hfinish⟩ := turn_finish_eq_ok.mp h
    exact hprices.executeTrigger hl hfinish

/-! ## Closed positions -/

/-- An open position has the id. -/
def Holds (l : Ledger) (id : ℕ) : Prop := ∃ s p, l.positions.get? s = some p ∧ p.id = id

/-- The trades in the position with an id. -/
def tradesOf (l : Ledger) (id : ℕ) : List Trade :=
  l.trades.filter fun t => t.positionId = some id

theorem Succeeds.not_holds (h : l.Succeeds l') (hid : id < l.nextPositionId)
    (hgone : ¬ l.Holds id) : ¬ l'.Holds id := by
  rintro ⟨s, p', hp', rfl⟩
  rcases h.old_or_later hp' with ⟨p, hp, heq⟩ | hlater
  · exact hgone ⟨s, p, hp, heq.symm⟩
  · omega

theorem Quiet.not_holds (h : l.Quiet l') (hgone : ¬ l.Holds id) : ¬ l'.Holds id := by
  rintro ⟨s, p', hp', rfl⟩
  obtain ⟨p, hp, hholding⟩ := h.get?_eq_some hp'
  exact hgone ⟨s, p, hp, (Position.holding_eq_iff.mp hholding).1.symm⟩

/-- An order makes no trade in a position that it does not meet. -/
theorem Filled.tradesOf_eq (h : l.Filled request price notional commission now legs l')
    (hid : id < l.nextPositionId)
    (hother : ∀ p, l.positions.get? request.symbol = some p → p.id ≠ id) :
    l'.tradesOf id = l.tradesOf id := by
  have hlegs : (legs.map Leg.trade).filter (fun t => t.positionId = some id) = [] := by
    refine List.filter_eq_nil_iff.mpr fun t ht => ?_
    obtain ⟨leg, hleg, rfl⟩ := List.mem_map.mp ht
    -- a trade is in the position that is met, or in a new one
    rcases h.meets.positionId_eq hleg with ⟨p, hp, heq⟩ | ⟨heq, -⟩
    · simp only [heq, Option.some.injEq, decide_eq_true_eq]
      exact hother p hp
    · simp only [heq, Option.some.injEq, decide_eq_true_eq]
      omega
  rw [tradesOf, h.trades_eq, List.filter_append, hlegs, List.append_nil]
  rfl

theorem Moved.tradesOf_eq (h : l.Moved l') (hid : id < l.nextPositionId)
    (hgone : ¬ l.Holds id) : l'.tradesOf id = l.tradesOf id := by
  cases h with
  | quiet quiet => rw [tradesOf, quiet.trades_eq, tradesOf]
  | @filled l₁ request _ _ _ _ _ quiet _ _ filled =>
    have hid₁ : id < l₁.nextPositionId := by rwa [quiet.nextPositionId_eq]
    have hother (p) (hp : l₁.positions.get? request.symbol = some p) : p.id ≠ id :=
      fun hid => quiet.not_holds hgone ⟨_, p, hp, hid⟩
    rw [filled.tradesOf_eq hid₁ hother, tradesOf, quiet.trades_eq, tradesOf]

/-- An id that was given and is not held is not held or traded again. -/
theorem Consistent.gone_turns (hl : l.Consistent) (hid : id < l.nextPositionId)
    (hgone : ¬ l.Holds id) {ts : List Turn} (h : l.turns ts = .ok l') :
    ¬ l'.Holds id ∧ l'.tradesOf id = l.tradesOf id := by
  -- the id stays below the next one, which is why no later position can have it
  have hrun := hl.turns_induction (P := fun l₁ =>
    id < l₁.nextPositionId ∧ ¬ l₁.Holds id ∧ l₁.tradesOf id = l.tradesOf id) ⟨hid, hgone, rfl⟩ ?_ h
  · exact hrun.2.2
  · intro t _ l₁ l₂ hl₁ ⟨hid₁, hgone₁, htrades⟩ hturn
    have hmoved := hl₁.moved_turn hturn
    exact ⟨hid₁.trans_le hmoved.succeeds.le, hmoved.succeeds.not_holds hid₁ hgone₁,
      (hmoved.tradesOf_eq hid₁ hgone₁).trans htrades⟩

theorem Consistent.lt_of_holds (hl : l.Consistent) (h : l.Holds id) : id < l.nextPositionId := by
  obtain ⟨s, p, hp, rfl⟩ := h
  exact (hl.sound hp).id_lt

/-- An id that a turn has closed is not held or traded again, so it is closed once. -/
theorem Consistent.closed_turns (hl : l.Consistent) {t : Turn} (hturn : l.turn t = .ok l₁)
    (hheld : l.Holds id) (hclosed : ¬ l₁.Holds id) {later : List Turn}
    (h : l₁.turns later = .ok l₂) : ¬ l₂.Holds id ∧ l₂.tradesOf id = l₁.tradesOf id := by
  have hmoved := hl.moved_turn hturn
  exact (hmoved.consistent hl).gone_turns ((hl.lt_of_holds hheld).trans_le hmoved.succeeds.le)
    hclosed h

/-! ## Reports after the turns of others -/

/-- A report names a position that the marked book holds under the symbol. -/
theorem holds_of_recordPrice
    (h : l.recordPrice symbol price now = .ok (l', .ok (some trigger))) :
    trigger.symbol = symbol ∧ l'.Holds trigger.positionId := by
  rcases recordPrice_cases h with ⟨-, -, _, herror⟩ | ⟨-, -, -, hnone⟩ |
    ⟨p, p', -, hp, hmark, rfl, houtcome⟩
  · exact nomatch herror
  · exact nomatch hnone
  · obtain ⟨kind, -, rfl⟩ := Option.map_eq_some_iff.mp (Except.ok.inj houtcome).symm
    exact ⟨rfl, symbol, p', l.get?_marked symbol price p',
      (Position.holding_eq_iff.mp (Position.holding_mark hmark)).1⟩

/-- Only the position that a report names is changed by its second step. -/
theorem Consistent.get?_executeTrigger (hl : l.Consistent) {outcome : Outcome (Option Execution)}
    (h : l.executeTrigger trigger now = .ok (l', outcome)) {s : String} {q : Position}
    (hq : l.positions.get? s = some q) (hid : q.id ≠ trigger.positionId) :
    l'.positions.get? s = some q := by
  rcases hl.executeTrigger_cases h with rfl | ⟨p, latest, kind, hlive, rfl | ⟨_, _, _, hfilled⟩⟩
  · exact hq
  · exact hq
  · -- the order is for the symbol of the report's position, which is another one
    have hsymbol : (exitRequest p kind).symbol = trigger.symbol :=
      (hl.sound hlive.get?_eq).symbol_eq
    refine (hfilled.get?_other s fun hs => ?_).trans hq
    rw [hs, hsymbol, hlive.get?_eq, Option.some.injEq] at hq
    exact hid (hq ▸ hlive.id_eq)

/-- Whatever turns came before a mark and came between it and the second step of the price update:

* a report that is not true any more changes nothing;
* one that still is closes its position, all that there is of it now, in one trade at the latest
  price, unless covering a short position costs more than the free balance;
* no other position is touched, and one that was opened since the mark is another one;
* an id that any turn has closed is never held or traded again. -/
theorem executeTrigger_after_turns (account : AccountSettings) (firstId : Uuid) (listened : Bool)
    (earlier between : List Turn) {marked : Ledger}
    (hearlier : (new account firstId listened).turns earlier = .ok l)
    (hmark : l.recordPrice symbol price now = .ok (marked, .ok (some trigger)))
    (hbetween : marked.turns between = .ok l₁) :
    ((¬ ∃ p latest kind, l₁.Live trigger p latest kind) →
      ∀ time, l₁.executeTrigger trigger time = .ok (l₁, .ok none)) ∧
    (∀ p latest kind time l₂ outcome, l₁.Live trigger p latest kind →
      l₁.executeTrigger trigger time = .ok (l₂, outcome) →
        l₁.Unpaid trigger p latest kind l₂ outcome ∨ l₁.ExitDone symbol p latest l₂ outcome) ∧
    (∀ s q, l₁.positions.get? s = some q →
      (¬ marked.Holds q.id → q.id ≠ trigger.positionId) ∧
      ∀ time l₂ outcome, q.id ≠ trigger.positionId →
        l₁.executeTrigger trigger time = .ok (l₂, outcome) → l₂.positions.get? s = some q) ∧
    ∀ t id l₂, l₁.turn t = .ok l₂ → l₁.Holds id → ¬ l₂.Holds id →
      ∀ later l₃, l₂.turns later = .ok l₃ →
        ¬ l₃.Holds id ∧ l₃.tradesOf id = l₂.tradesOf id := by
  -- the books before the mark, after it and after the turns of others are consistent, and the
  -- latest price, at which the second step fills, is positive
  obtain ⟨hl, hprices⟩ := (consistent_new account firstId listened).turns_induction
    (P := PricesPos) (fun _ _ hx => nomatch hx) (fun _ _ _ _ hl hprices => hprices.turn hl) hearlier
  obtain ⟨hsymbol, hnamed⟩ := holds_of_recordPrice hmark
  have hmarked := hl.quiet (quiet_recordPrice hmark)
  obtain ⟨hl₁, hprices₁⟩ := hmarked.turns_induction (hprices.recordPrice hmark)
    (fun _ _ _ _ hl hprices => hprices.turn hl) hbetween
  refine ⟨fun hstale _ => executeTrigger_of_not_live hl₁ hstale, ?_, ?_, ?_⟩
  · intro p latest kind time l₂ outcome hlive hfinish
    rcases hlive.fill_cases hl₁ hfinish with hunpaid | ⟨_, _, _, hfilled, rfl⟩
    · exact .inl hunpaid
    · subst hsymbol
      exact .inr (hl₁.exitDone_of_filled hlive.get?_eq (hprices₁ _ _ hlive.lastPrice?_eq) rfl
        (.emit _ _) hlive.get?_eq hfilled)
  · intro s q hq
    exact ⟨fun hnew hid => hnew (hid ▸ hnamed), fun _ _ _ hid hfinish =>
      hl₁.get?_executeTrigger hfinish hq hid⟩
  · intro t id l₂ hturn hheld hclosed later l₃ hlater
    exact hl₁.closed_turns hturn hheld hclosed hlater

/-- The quantity that a report finds open after some turns of others, with the latest price, the
exit that it crosses and the error that the second step answers, if it does. -/
def interrupted? (account : AccountSettings) (earlier : List Turn) (symbol : String)
    (price : Decimal) (between : List Turn) :
    Option (Decimal × Decimal × TriggerKind × Option TradingError) :=
  ((new account default true).turns earlier).toOption.bind fun l =>
    (l.recordPrice symbol price default).toOption.bind fun reported =>
      reported.2.toOption.join.bind fun trigger =>
        (reported.1.turns between).toOption.bind fun l =>
          (l.positions.get? trigger.symbol).bind fun p =>
            (l.lastPrice? trigger.symbol).bind fun latest =>
              (p.triggerAt latest).bind fun kind =>
                (l.executeTrigger trigger default).toOption.bind fun r =>
                  if p.id = trigger.positionId then
                    some (p.quantity, latest, kind, (Answer.update r.2).error?)
                  else none

/-- An account of 100 buys three at 30, with a stop at 20. -/
def stoppedLong : List Turn :=
  [.mark "A" (.lit 30 0) default,
    .whole (.place { OrderRequest.market "A" .buy (.lit 3 0) with stopLoss := some (.lit 20 0) }
      default)]

/-- One of the three is sold, and the price falls to 18. -/
def partialSale : List Turn :=
  [.whole (.place (OrderRequest.market "A" .sell (.lit 1 0)) default),
    .mark "A" (.lit 18 0) default]

/-- The stop is crossed at 19; after the sale the other two are closed, at 18. -/
theorem executeTrigger_after_partialSale : ∃ l marked trigger l₁ p l₂ outcome,
    (new (smallAccount 0) default true).turns stoppedLong = .ok l ∧
    l.recordPrice "A" (.lit 19 0) default = .ok (marked, .ok (some trigger)) ∧
    marked.turns partialSale = .ok l₁ ∧
    l₁.Live trigger p (.lit 18 0) .stopLoss ∧ p.quantity = .lit 2 0 ∧
    l₁.executeTrigger trigger default = .ok (l₂, outcome) ∧
    l₁.ExitDone "A" p (.lit 18 0) l₂ outcome := by
  have hfinish : interrupted? (smallAccount 0) stoppedLong "A" (.lit 19 0) partialSale =
      some (.lit 2 0, .lit 18 0, .stopLoss, none) := by decide +kernel
  obtain ⟨l, hearlier, h⟩ := Calc.exists_eq_ok hfinish
  obtain ⟨⟨marked, reported⟩, hmark, h⟩ := Calc.exists_eq_ok h
  obtain ⟨trigger, hreported, h⟩ := Option.bind_eq_some_iff.mp h
  obtain ⟨l₁, hbetween, h⟩ := Calc.exists_eq_ok h
  obtain ⟨p, hp, h⟩ := Option.bind_eq_some_iff.mp h
  obtain ⟨latest, hlatest, h⟩ := Option.bind_eq_some_iff.mp h
  obtain ⟨kind, hkind, h⟩ := Option.bind_eq_some_iff.mp h
  obtain ⟨⟨l₂, outcome⟩, htrigger, h⟩ := Calc.exists_eq_ok h
  obtain ⟨hid, h⟩ := Option.ite_none_right_eq_some.mp h
  simp only [Option.some.injEq, Prod.mk.injEq] at h
  obtain ⟨hquantity, rfl, rfl, herror⟩ := h
  obtain rfl : reported = .ok (some trigger) := by
    cases reported with
    | error e => exact nomatch hreported
    | ok trigger? => exact congrArg Except.ok hreported
  have hlive : l₁.Live trigger p (.lit 18 0) .stopLoss := ⟨hp, hid, hlatest, hkind⟩
  refine ⟨l, marked, trigger, l₁, p, l₂, outcome, hearlier, hmark, hbetween, hlive, hquantity,
    htrigger, ?_⟩
  obtain ⟨-, hfills, -⟩ := executeTrigger_after_turns (smallAccount 0) default true stoppedLong
    partialSale hearlier hmark hbetween
  rcases hfills p _ _ default l₂ outcome hlive htrigger with hunpaid | hdone
  · obtain ⟨_, _, _, -, -, -, -, rfl⟩ := hunpaid.outcome_eq
    exact nomatch herror
  · exact hdone

end Ledger

end SimBroker
