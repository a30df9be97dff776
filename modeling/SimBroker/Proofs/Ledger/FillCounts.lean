import SimBroker.Proofs.Ledger.Solvency

/-!
# Orders and the counts of fills

A ledger counts its fills by side, apart from the list of its orders.  An order joins the list when
it is paid for; the book counts nothing, and each operation that may fill an order counts the one
that the book has answered with.  So the count of a side is the number of the orders on it, as long
as no turn answers with a violation; one that does has accepted an order that it has not counted.

## Main definitions

* `ordersOn`: the number of the orders on a side
* `violations`: how many violations an error is
* `Tallied`: new orders were counted as fills, all but at most some

## Main results

* `joins_fill`: the book counts nothing, and answers with the order that it has accepted
* `tallied_place`, `tallied_close`, `Consistent.tallied_executeTrigger`: each operation counts its
  order once, or answers with a violation
* `Consistent.tallied_attempt`: what a turn accepts and what it counts
* `fills_of_fees`: with reasonable fees every run counts all its orders
-/

namespace SimBroker

open Calc (bind_eq_ok pure_eq_ok)

namespace Ledger

variable {l l' l₁ l₂ : Ledger} {order : Order} {request : OrderRequest}
  {price notional commission : Decimal} {now : Instant} {side : OrderSide} {n n' : ℕ}
  {symbol : String} {trigger : Trigger} {error? : Option TradingError} {id : ℕ} {orderId : Uuid}
  {kind : TriggerKind}

/-- The number of the orders on a side. -/
def ordersOn (l : Ledger) (side : OrderSide) : ℕ := l.orders.countP (·.side = side)

/-- How many violations an error is. -/
def violations : Option TradingError → ℕ
  | some (.invariantViolation _) => 1
  | _ => 0

/-- The new orders on each side were counted as fills, all but at most `n`, and nothing else was. -/
structure Tallied (l : Ledger) (n : ℕ) (l' : Ledger) : Prop where
  fills_le : ∀ side, l'.fills.count side + l.ordersOn side ≤ l'.ordersOn side + l.fills.count side
  orders_le : ∀ side,
    l'.ordersOn side + l.fills.count side ≤ l'.fills.count side + l.ordersOn side + n

namespace Tallied

theorem of_eq (horders : l'.orders = l.orders) (hfills : l'.fills = l.fills) : l.Tallied 0 l' where
  fills_le side := by
    rw [ordersOn, ordersOn, horders, hfills, Nat.add_comm]
  orders_le side := by
    rw [ordersOn, ordersOn, horders, hfills, Nat.add_comm]
    exact Nat.le_refl _

theorem refl (l : Ledger) : l.Tallied 0 l := of_eq rfl rfl

theorem trans (h : l.Tallied n l₁) (h' : l₁.Tallied n' l₂) : l.Tallied (n + n') l₂ where
  fills_le side := by
    have := h.fills_le side
    have := h'.fills_le side
    omega
  orders_le side := by
    have := h.orders_le side
    have := h'.orders_le side
    omega

theorem mono (h : l.Tallied n l') (hn : n ≤ n') : l.Tallied n' l' where
  fills_le := h.fills_le
  orders_le side := (h.orders_le side).trans (Nat.add_le_add_left hn _)

end Tallied

/-! ## Filling an order -/

theorem ordersOn_append (horders : l'.orders = l.orders ++ [order]) (side : OrderSide) :
    l'.ordersOn side = l.ordersOn side + if order.side = side then 1 else 0 := by
  rw [ordersOn, horders, List.countP_append, List.countP_singleton]
  simp only [decide_eq_true_eq]
  rfl

/-- What the book does with an order, but for the count: it refuses the order, or lists it and
answers with it unless something is wrong. -/
inductive Joins (l : Ledger) (l' : Ledger) : Outcome Execution → Prop
  | refused (eq : l' = l) (cost balance : Decimal) :
    Joins l l' (.error (.insufficientBalance cost balance))
  | listed (execution : Execution) (orders_eq : l'.orders = l.orders ++ [execution.order])
      (fills_eq : l'.fills = l.fills) : Joins l l' (l'.verdict execution)

/-- An order that the book has listed is counted, unless something is wrong with the book. -/
theorem Joins.tallied_count {outcome : Outcome Execution} (h : l.Joins l₁ outcome) :
    l.Tallied (violations (errorOf outcome)) (l₁.count outcome.toOption) := by
  cases h with
  | refused eq => exact eq ▸ .refl l
  | listed execution orders_eq fills_eq =>
    have hjoined := ordersOn_append orders_eq
    have hone (side : OrderSide) : (if execution.order.side = side then 1 else 0) ≤ 1 := by
      split <;> decide
    cases hviolation : l₁.violation? with
    | some message =>
      -- the order is in the list, and the answer has no order to be counted
      have hverdict : l₁.verdict execution = .error (.invariantViolation message) := by
        rw [verdict, hviolation]
      rw [hverdict]
      constructor <;> intro side
      · show l₁.fills.count side + _ ≤ l₁.ordersOn side + _
        rw [hjoined, fills_eq]
        omega
      · show l₁.ordersOn side + _ ≤ l₁.fills.count side + _ + 1
        have := hone side
        rw [hjoined, fills_eq]
        omega
    | none =>
      have hverdict : l₁.verdict execution = .ok execution := by
        rw [verdict, hviolation]
      have hcounted (side : OrderSide) : (l₁.fills.bump execution.order.side).count side =
          l.fills.count side + if execution.order.side = side then 1 else 0 := by
        rw [fills_eq, Tally.count_bump]
      rw [hverdict]
      constructor <;> intro side
      · show (l₁.fills.bump execution.order.side).count side + _ ≤ l₁.ordersOn side + _
        rw [hjoined, hcounted]
        omega
      · show l₁.ordersOn side + _ ≤ (l₁.fills.bump execution.order.side).count side + _ + 0
        rw [hjoined, hcounted]
        omega

/-- Giving back a position is no order. -/
theorem orders_offset {rest : Remainder}
    (h : l.offset order price commission now = .ok (l', rest)) :
    l'.orders = l.orders ∧ l'.fills = l.fills := by
  cases offset_eq_ok h with
  | none => exact ⟨rfl, rfl⟩
  | part _ _ _ reduce | all _ _ _ _ _ reduce =>
    obtain ⟨_, _, -, ⟨_, -, -, htraded⟩, -⟩ := reduce_eq_ok reduce
    exact ⟨htraded.orders_eq, htraded.fills_eq⟩

/-- Adding to a position is no order. -/
theorem orders_addRest {rest : Remainder} {opening : List Trade}
    (h : l.addRest order request rest price now = .ok (l', opening)) :
    l'.orders = l.orders ∧ l'.fills = l.fills := by
  unfold addRest at h
  split at h
  · simp only [bind_eq_ok, pure_eq_ok, Prod.mk.injEq] at h
    obtain ⟨⟨l₁, trade⟩, hextend, rfl, -⟩ := h
    obtain ⟨_, -, htraded, -⟩ := extend_eq_ok hextend
    exact ⟨htraded.orders_eq, htraded.fills_eq⟩
  · obtain ⟨rfl, -⟩ := Prod.mk.inj (pure_eq_ok.mp h)
    exact ⟨rfl, rfl⟩

/-- An order that is carried out is listed. -/
theorem joins_execute {outcome : Outcome Execution}
    (h : l.execute request price notional commission now = .ok (l', outcome)) :
    l.Joins l' outcome := by
  rw [execute_eq] at h
  simp only [bind_eq_ok, pure_eq_ok, Prod.mk.injEq] at h
  obtain ⟨⟨l₁, rest⟩, hoffset, ⟨l₂, opening⟩, hextend, l₃, hsettle, rfl, rfl⟩ := h
  obtain ⟨horders₁, hfills₁⟩ := orders_offset hoffset
  obtain ⟨horders₂, hfills₂⟩ := orders_addRest hextend
  obtain ⟨flow, freeBalance, totalCommission, -, -, -, rfl⟩ := settle_eq_ok hsettle
  refine .listed _ ?_ (hfills₂.trans hfills₁)
  show l₂.orders ++ _ = _
  rw [horders₂, horders₁]
  rfl

/-- The book counts nothing, and answers with the order that it has listed, if it has. -/
theorem joins_fill {outcome : Outcome Execution}
    (h : l.fill request price now = .ok (l', outcome)) : l.Joins l' outcome := by
  unfold fill at h
  simp only [bind_eq_ok] at h
  obtain ⟨notional, -, commission, -, h⟩ := h
  split at h
  · obtain ⟨cost, -, h⟩ := bind_eq_ok.mp h
    split at h
    · obtain ⟨rfl, rfl⟩ := Prod.mk.inj (pure_eq_ok.mp h)
      exact .refused rfl cost _
    · exact joins_execute h
  · exact joins_execute h

theorem tallied_fillCounted {outcome : Outcome Execution}
    (h : l.fillCounted request price now = .ok (l', outcome)) :
    l.Tallied (violations (errorOf outcome)) l' := by
  obtain ⟨l₁, hfill, rfl⟩ := fillCounted_eq_ok.mp h
  exact (joins_fill hfill).tallied_count

/-! ## Operations -/

theorem tallied_place {outcome : Outcome Execution}
    (h : l.place request now = .ok (l', outcome)) :
    l.Tallied (violations (errorOf outcome)) l' := by
  rcases place_cases h with ⟨rfl, -⟩ | ⟨price, -, -, hfill⟩
  · exact (Tallied.refl _).mono (Nat.zero_le _)
  · exact tallied_fillCounted hfill

theorem tallied_close {outcome : Outcome Execution}
    (h : l.close id now = .ok (l', outcome)) : l.Tallied (violations (errorOf outcome)) l' := by
  rcases close_cases h with ⟨-, rfl, -⟩ | ⟨p, -, hplace⟩
  · exact (Tallied.refl _).mono (Nat.zero_le _)
  · exact tallied_place hplace

theorem tallied_setExit {outcome : Outcome Position}
    (h : l.setExit id kind price now = (l', outcome)) : l.Tallied 0 l' := by
  rcases setExit_cases h with ⟨rfl, -⟩ | ⟨_, _, -, -, -, rfl, -⟩
  · exact .refl _
  · exact .of_eq rfl rfl

theorem tallied_recordPrice {outcome : Outcome (Option Trigger)}
    (h : l.recordPrice symbol price now = .ok (l', outcome)) : l.Tallied 0 l' := by
  rcases recordPrice_cases h with ⟨-, rfl, -⟩ | ⟨-, -, rfl, -⟩ | ⟨_, _, -, -, -, rfl, -⟩
  · exact .refl _
  · exact .of_eq rfl rfl
  · exact .of_eq rfl rfl

theorem Consistent.tallied_executeTrigger (hl : l.Consistent)
    {outcome : Outcome (Option Execution)}
    (h : l.executeTrigger trigger now = .ok (l', outcome)) :
    l.Tallied (violations (errorOf outcome)) l' := by
  by_cases hlive : ∃ p latest kind, l.Live trigger p latest kind
  · obtain ⟨p, latest, kind, hlive⟩ := hlive
    rw [hlive.executeTrigger_eq] at h
    obtain ⟨⟨l₁, result⟩, hfill, h⟩ := bind_eq_ok.mp h
    obtain ⟨rfl, rfl⟩ := Prod.mk.inj (pure_eq_ok.mp h)
    have htallied : l.Tallied (violations (errorOf result)) l₁ := by
      have hemit : l.Tallied 0 (l.emit (.exitTriggered p.id trigger.symbol kind latest)) :=
        .of_eq rfl rfl
      exact (hemit.trans (tallied_fillCounted hfill)).mono (Nat.le_of_eq (Nat.zero_add _))
    cases result <;> exact htallied
  · rw [executeTrigger_of_not_live hl hlive] at h
    obtain ⟨rfl, rfl⟩ := Prod.mk.inj (Except.ok.inj h)
    exact .refl _

theorem Consistent.tallied_updatePrice (hl : l.Consistent) {outcome : Outcome (Option Execution)}
    (h : l.updatePrice symbol price now = .ok (l', outcome)) :
    l.Tallied (violations (errorOf outcome)) l' := by
  obtain ⟨l₁, reported, hrecord, rfl | ⟨trigger, -, hexecute⟩⟩ := updatePrice_eq_ok h
  · exact (tallied_recordPrice hrecord).mono (Nat.zero_le _)
  · have hl₁ := hl.quiet (quiet_recordPrice hrecord)
    exact ((tallied_recordPrice hrecord).trans (hl₁.tallied_executeTrigger hexecute)).mono
      (Nat.le_of_eq (Nat.zero_add _))

/-! ## Turns -/

/-- A turn that is an operation answers with the error of the operation. -/
theorem attempt_whole {α : Type} {op : Operation} {f : Calc (Ledger × Outcome α)}
    {answer : Outcome α → Answer} (hstep : l.step op = f >>= fun r => pure (r.1, answer r.2))
    (herror : ∀ outcome, (answer outcome).error? = errorOf outcome) :
    l.attempt (.whole op) = f >>= fun r => pure (r.1, errorOf r.2) := by
  simp only [attempt, hstep, bind_assoc, pure_bind, herror]

theorem attempt_place (l : Ledger) : l.attempt (.whole (.place request now)) =
    l.place request now >>= fun r => pure (r.1, errorOf r.2) :=
  attempt_whole rfl fun outcome => by cases outcome <;> rfl

theorem attempt_close (l : Ledger) : l.attempt (.whole (.close id now)) =
    l.close id now >>= fun r => pure (r.1, errorOf r.2) :=
  attempt_whole rfl fun outcome => by cases outcome <;> rfl

theorem attempt_cancel (l : Ledger) : l.attempt (.whole (.cancel orderId)) =
    pure (l.cancel orderId) >>= fun r => pure (r.1, errorOf r.2) :=
  attempt_whole rfl fun outcome => by cases outcome <;> rfl

theorem attempt_setExit (l : Ledger) : l.attempt (.whole (.setExit id kind price now)) =
    pure (l.setExit id kind price now) >>= fun r => pure (r.1, errorOf r.2) :=
  attempt_whole rfl fun outcome => by cases outcome <;> rfl

theorem attempt_updatePrice (l : Ledger) : l.attempt (.whole (.updatePrice symbol price now)) =
    l.updatePrice symbol price now >>= fun r => pure (r.1, errorOf r.2) :=
  attempt_whole rfl fun outcome => by cases outcome <;> rfl

theorem answered_eq_ok {α : Type} {f : Calc (Ledger × Outcome α)} :
    (f >>= fun r => pure (r.1, errorOf r.2)) = .ok (l', error?) ↔
      ∃ outcome, f = .ok (l', outcome) ∧ errorOf outcome = error? := by
  simp only [bind_eq_ok, pure_eq_ok, Prod.mk.injEq, Prod.exists]
  constructor
  · rintro ⟨_, outcome, hf, rfl, herror⟩
    exact ⟨outcome, hf, herror⟩
  · rintro ⟨outcome, hf, herror⟩
    exact ⟨l', outcome, hf, rfl, herror⟩

/-- A turn counts the orders that it accepts, all but one that it answers with a violation. -/
theorem Consistent.tallied_attempt (hl : l.Consistent) {t : Turn}
    (h : l.attempt t = .ok (l', error?)) : l.Tallied (violations error?) l' := by
  cases t with
  | whole op =>
    cases op with
    | place request now =>
      obtain ⟨_, hplace, rfl⟩ := answered_eq_ok.mp (l.attempt_place.symm.trans h)
      exact tallied_place hplace
    | close id now =>
      obtain ⟨_, hclose, rfl⟩ := answered_eq_ok.mp (l.attempt_close.symm.trans h)
      exact tallied_close hclose
    | cancel id =>
      obtain ⟨_, hcancel, rfl⟩ := answered_eq_ok.mp (l.attempt_cancel.symm.trans h)
      -- every order of the book is filled, so none can be canceled
      obtain ⟨e, he, -⟩ := hl.cancel_eq id
      obtain ⟨rfl, -⟩ := Prod.mk.inj (he.symm.trans (pure_eq_ok.mp hcancel))
      exact (Tallied.refl _).mono (Nat.zero_le _)
    | setExit id kind price now =>
      obtain ⟨_, hset, rfl⟩ := answered_eq_ok.mp (l.attempt_setExit.symm.trans h)
      exact (tallied_setExit (pure_eq_ok.mp hset)).mono (Nat.zero_le _)
    | updatePrice symbol price now =>
      obtain ⟨_, hupdate, rfl⟩ := answered_eq_ok.mp (l.attempt_updatePrice.symm.trans h)
      exact hl.tallied_updatePrice hupdate
  | mark symbol price now =>
    obtain ⟨_, hrecord, rfl⟩ := answered_eq_ok.mp h
    exact (tallied_recordPrice hrecord).mono (Nat.zero_le _)
  | finish trigger now =>
    obtain ⟨_, hexecute, rfl⟩ := answered_eq_ok.mp h
    exact hl.tallied_executeTrigger hexecute

/-! ## Runs -/

theorem violations_eq_zero_iff :
    violations error? = 0 ↔ ∀ what, error? ≠ some (.invariantViolation what) := by
  match error? with
  | some (.invariantViolation what) => exact iff_of_false nofun fun hne => hne what rfl
  | none | some (.invalidInput _) | some (.insufficientBalance ..) | some (.noPriceAvailable _)
  | some (.notFound _) | some (.invalidState _) | some (.riskRejected _)
  | some (.circuitBreakerTripped _) => exact iff_of_true rfl nofun

/-- With fees of at most the whole value traded, no turn answers with a violation. -/
theorem Solvent.violations_eq_zero {account : AccountSettings} (h : Solvent account l)
    (hl : l.Consistent) (hfees : account.FeesWithin) {t : Turn}
    (hattempt : l.attempt t = .ok (l', error?)) : violations error? = 0 := by
  have hcharged := hl.charged_attempt h.pricesPos hattempt
  have hbalance := h.freeBalance_nonneg hfees
  have hbalance' := hcharged.freeBalance_nonneg (h.account_eq ▸ hfees) hbalance
  rw [violations_eq_zero_iff]
  rintro what rfl
  exact Decimal.not_lt_iff.mpr hbalance' ((hcharged.violation_iff hbalance).mp ⟨what, rfl⟩)

/-- An account that is accepted, with fees of at most the whole value traded, counts every order
that it accepts, in every run of turns. -/
theorem fills_of_fees (settings : Settings) (haccepted : settings.fault? = none)
    (hfees : settings.account.FeesWithin) (firstId : Uuid) (listened : Bool) (ts : List Turn)
    (hrun : (new settings.account firstId listened).turns ts = .ok l) (side : OrderSide) :
    l.fills.count side = l.ordersOn side := by
  have hsolvent := solvent_new (settings.initialBalance_nonneg_of_fault? haccepted) firstId listened
  have hinvariant := (consistent_new settings.account firstId listened).turns_induction
    (P := fun l => Solvent settings.account l ∧
      (new settings.account firstId listened).Tallied 0 l) ⟨hsolvent, .refl _⟩ ?_ hrun
  · obtain ⟨-, -, htallied⟩ := hinvariant
    have hle := htallied.fills_le side
    have hge := htallied.orders_le side
    have hnone : (new settings.account firstId listened).ordersOn side =
      (new settings.account firstId listened).fills.count side := rfl
    omega
  · intro t _ l₁ l₂ hl₁ ⟨hsolvent₁, htallied⟩ hturn
    refine ⟨hsolvent₁.turn hl₁ hturn, ?_⟩
    rw [turn_eq_attempt, bind_eq_ok] at hturn
    obtain ⟨⟨l₂, error?⟩, hattempt, hl₂⟩ := hturn
    obtain rfl := pure_eq_ok.mp hl₂
    have htallied₂ := htallied.trans (hl₁.tallied_attempt hattempt)
    rwa [hsolvent₁.violations_eq_zero hl₁ hfees hattempt] at htallied₂

end Ledger

end SimBroker
