import SimBroker.Proofs.Ledger.Step

/-!
# The invariant of the book

Every book of a run is `Consistent`, whatever the account and the operations, and also after those
that are refused.  The quantity of a position stays positive because a difference of two decimals is
zero only if they are of one value, however it is rounded.  Ids are given in turn, so a position
that is not in an earlier book has a greater id than any position up to then.

## Main definitions

* `Along`: a run with a condition on each operation
* `Succeeds`: how the ids of a later book stand to those of an earlier one
* `overdrawn`: what a book with a negative balance says

## Main results

* `Consistent.step`, `consistent_run`: every operation, and so every run, keeps a book consistent
* `Consistent.violation?_eq`: the only thing that can be wrong with a book is a negative balance
* `Consistent.succeeds_run`: ids are given in turn
* `run_consistent`: all of it, for every run
-/

namespace SimBroker

open Calc (bind_eq_ok pure_eq_ok)

namespace Meets

variable {order : Order} {request : OrderRequest} {price commission : Decimal} {now : Instant}
  {newId : ℕ} {before after : Option Position} {legs : List Leg} {p' : Position}

/-- What an order leaves has a positive quantity. -/
theorem quantity_pos (h : Meets order request price commission now newId before legs after)
    (hq : 0 < order.quantity) (hbefore : ∀ p ∈ before, 0 < p.quantity) (hafter : p' ∈ after) :
    0 < p'.quantity := by
  cases h with
  | opens =>
    cases hafter
    exact hq
  | @increases p _ side increased =>
    cases hafter
    obtain ⟨total, entry, htotal, -, hholding⟩ := Position.holding_increased increased
    have hquantity : p'.quantity = total := congrArg Holding.quantity hholding
    rw [hquantity]
    exact Decimal.pos_add htotal (hbefore p rfl) hq
  | reduces side less reduced =>
    cases hafter
    obtain ⟨-, rest, total, hrest, -, hholding⟩ := Position.holding_reduced reduced
    have hquantity : p'.quantity = rest := congrArg Holding.quantity hholding
    -- the order is for less than there is, and no rounding takes the difference to zero
    rw [hquantity, Decimal.pos_sub_iff hrest]
    exact less
  | closes => cases hafter
  | flips side more reduced product_eq share_eq rest_eq restCommission_eq =>
    cases hafter
    exact (Decimal.pos_sub_iff rest_eq).mpr more

/-- A position that an order leaves is the one of before with one more order, or a new one with the
id in turn. -/
theorem old_or_new (h : Meets order request price commission now newId before legs after)
    (hafter : p' ∈ after) :
    (∃ p ∈ before, p'.id = p.id ∧ p'.symbol = p.symbol ∧ p'.orderIds = p.orderIds ++ [order.id] ∧
      legs.countP (·.change = .opened) = 0) ∨
    (p'.id = newId ∧ p'.symbol = order.symbol ∧ p'.orderIds = [order.id] ∧
      legs.countP (·.change = .opened) = 1) := by
  cases h with
  | opens =>
    cases hafter
    exact .inr ⟨rfl, rfl, rfl, rfl⟩
  | increases side increased =>
    cases hafter
    obtain ⟨_, _, -, -, hholding⟩ := Position.holding_increased increased
    exact .inl ⟨_, rfl, Option.some.inj (congrArg Holding.id hholding),
      congrArg Holding.symbol hholding, congrArg Holding.orderIds hholding, rfl⟩
  | reduces side less reduced =>
    cases hafter
    obtain ⟨-, _, _, -, -, hholding⟩ := Position.holding_reduced reduced
    exact .inl ⟨_, rfl, Option.some.inj (congrArg Holding.id hholding),
      congrArg Holding.symbol hholding, congrArg Holding.orderIds hholding, rfl⟩
  | closes => cases hafter
  | flips =>
    cases hafter
    exact .inr ⟨rfl, rfl, rfl, rfl⟩

/-- An order makes at least one trade. -/
theorem legs_ne_nil (h : Meets order request price commission now newId before legs after) :
    legs ≠ [] := by
  cases h <;> exact List.cons_ne_nil _ _

/-- All trades of an order name it. -/
theorem orderId_eq (h : Meets order request price commission now newId before legs after)
    {leg : Leg} (hleg : leg ∈ legs) : leg.trade.orderId = order.id := by
  cases h with
  | opens | increases | reduces | closes =>
    rw [List.mem_singleton.mp hleg]
    rfl
  | flips =>
    rcases List.mem_pair.mp hleg with rfl | rfl <;> rfl

end Meets

namespace Ledger

variable {l l' l₁ : Ledger} {request : OrderRequest} {price notional commission : Decimal}
  {now : Instant} {legs : List Leg} {op : Operation} {answer : Answer}

/-! ## What quiet changes and fills preserve -/

theorem consistent_new (account : AccountSettings) (firstId : Uuid) (listened : Bool) :
    (new account firstId listened).Consistent where
  sound hp := absurd hp (Option.some_ne_none _).symm
  id_inj hp := absurd hp (Option.some_ne_none _).symm
  orderId_mem := List.forall_mem_nil _
  filled := List.forall_mem_nil _

/-- A sound position is sound in any book that has what it needs. -/
theorem Sound.mono {s : String} {p p' : Position} (h : l.Sound s p)
    (hholding : p'.holding = p.holding) (hprice : (l'.prices.get? s).isSome)
    (hid : l.nextPositionId ≤ l'.nextPositionId)
    (horders : l.orders.map Order.id ⊆ l'.orders.map Order.id) : l'.Sound s p' := by
  obtain ⟨hid', hsymbol, -, hquantity, -, -, hmade⟩ := Position.holding_eq_iff.mp hholding
  refine ⟨?_, hsymbol.trans h.symbol_eq, hprice, ?_, ?_⟩
  · rw [hquantity]
    exact h.quantity_pos
  · rw [hid']
    exact h.id_lt.trans_le hid
  · rw [hmade]
    exact fun id hmem => horders (h.orderIds_mem id hmem)

theorem Consistent.quiet (hl : l.Consistent) (h : l.Quiet l') : l'.Consistent where
  sound hp := by
    obtain ⟨p, hp, hholding⟩ := h.get?_eq_some hp
    have hsound := hl.sound hp
    exact hsound.mono hholding (h.priced _ hsound.priced) h.nextPositionId_eq.ge
      (by rw [h.orders_eq]; exact List.Subset.refl _)
  id_inj hp₁ hp₂ hid := by
    obtain ⟨p₁, hp₁, hholding₁⟩ := h.get?_eq_some hp₁
    obtain ⟨p₂, hp₂, hholding₂⟩ := h.get?_eq_some hp₂
    refine hl.id_inj hp₁ hp₂ ?_
    rw [← (Position.holding_eq_iff.mp hholding₁).1, hid]
    exact (Position.holding_eq_iff.mp hholding₂).1
  orderId_mem := by
    rw [h.trades_eq, h.orders_eq]
    exact hl.orderId_mem
  filled := by
    rw [h.orders_eq]
    exact hl.filled

namespace Filled

theorem nextPositionId_le (h : l.Filled request price notional commission now legs l') :
    l.nextPositionId ≤ l'.nextPositionId := by
  rw [h.nextPositionId_eq]
  exact Nat.le_add_right _ _

theorem orderIds_eq (h : l.Filled request price notional commission now legs l') :
    l'.orders.map Order.id = l.orders.map Order.id ++ [(l.orderOf request now).id] := by
  rw [h.orders_eq, List.map_append]
  rfl

theorem orderIds_subset (h : l.Filled request price notional commission now legs l') :
    l.orders.map Order.id ⊆ l'.orders.map Order.id := by
  rw [h.orderIds_eq]
  exact List.subset_append_left _ _

theorem orderId_mem (h : l.Filled request price notional commission now legs l') :
    (l.orderOf request now).id ∈ l'.orders.map Order.id := by
  rw [h.orderIds_eq]
  exact List.mem_append_right _ (List.mem_singleton_self _)

/-- A position after a fill has the id of one at its symbol before, or is new with the id in
turn. -/
theorem old_or_next (h : l.Filled request price notional commission now legs l')
    {s : String} {p' : Position} (hp' : l'.positions.get? s = some p') :
    (∃ p, l.positions.get? s = some p ∧ p'.id = p.id) ∨
      (s = request.symbol ∧ p'.id = l.nextPositionId ∧
        l'.nextPositionId = l.nextPositionId + 1) := by
  by_cases hs : s = request.symbol
  · subst hs
    rcases h.meets.old_or_new hp' with ⟨p, hp, hid, -⟩ | ⟨hid, -, -, hcount⟩
    · exact .inl ⟨p, hp, hid⟩
    · refine .inr ⟨rfl, hid, ?_⟩
      rw [h.nextPositionId_eq, hcount]
  · rw [h.get?_other s hs] at hp'
    exact .inl ⟨p', hp', rfl⟩

/-- The positions after a fill are sound. -/
theorem sound (h : l.Filled request price notional commission now legs l') (hl : l.Consistent)
    (hq : 0 < request.quantity) (hpriced : (l.prices.get? request.symbol).isSome) {s : String}
    {p' : Position} (hp' : l'.positions.get? s = some p') : l'.Sound s p' := by
  by_cases hs : s = request.symbol
  · subst hs
    have hquantity := h.meets.quantity_pos hq (fun p hp => (hl.sound hp).quantity_pos) hp'
    have hprice : (l'.prices.get? request.symbol).isSome := by rwa [h.prices_eq]
    rcases h.meets.old_or_new hp' with ⟨p, hp, hid, hsymbol, hmade, -⟩ |
      ⟨hid, hsymbol, hmade, hcount⟩
    · -- the position of before, with one more order
      have hsound := hl.sound hp
      refine ⟨hquantity, hsymbol.trans hsound.symbol_eq, hprice, ?_, fun id hmem => ?_⟩
      · rw [hid]
        exact hsound.id_lt.trans_le h.nextPositionId_le
      · rw [hmade, List.mem_append, List.mem_singleton] at hmem
        rcases hmem with hmem | rfl
        · exact h.orderIds_subset (hsound.orderIds_mem id hmem)
        · exact h.orderId_mem
    · -- a new position, with the id in turn and this order only
      refine ⟨hquantity, hsymbol, hprice, ?_, fun id hmem => ?_⟩
      · rw [hid, h.nextPositionId_eq, hcount]
        exact Nat.lt_succ_self _
      · rw [hmade, List.mem_singleton] at hmem
        exact hmem ▸ h.orderId_mem
  · -- a position of another symbol is as it was
    rw [h.get?_other s hs] at hp'
    have hsound := hl.sound hp'
    have hprice : (l'.prices.get? s).isSome := by
      rw [h.prices_eq]
      exact hsound.priced
    exact hsound.mono rfl hprice h.nextPositionId_le h.orderIds_subset

end Filled

theorem Consistent.filled_by (hl : l.Consistent) (hq : 0 < request.quantity)
    (hpriced : (l.prices.get? request.symbol).isSome)
    (h : l.Filled request price notional commission now legs l') : l'.Consistent := by
  constructor
  case sound =>
    intro s p' hp'
    exact h.sound hl hq hpriced hp'
  case id_inj =>
    intro s₁ p₁ s₂ p₂ hp₁ hp₂ hid
    -- an id in turn is none that was given before
    rcases h.old_or_next hp₁ with ⟨q₁, hq₁, hid₁⟩ | ⟨hs₁, hid₁, -⟩ <;>
      rcases h.old_or_next hp₂ with ⟨q₂, hq₂, hid₂⟩ | ⟨hs₂, hid₂, -⟩
    · exact hl.id_inj hq₁ hq₂ (by rw [← hid₁, hid, hid₂])
    · have := (hl.sound hq₁).id_lt
      omega
    · have := (hl.sound hq₂).id_lt
      omega
    · exact hs₁.trans hs₂.symm
  case orderId_mem =>
    intro t ht
    rw [h.trades_eq, List.mem_append] at ht
    rcases ht with ht | ht
    · exact h.orderIds_subset (hl.orderId_mem t ht)
    · obtain ⟨leg, hleg, rfl⟩ := List.mem_map.mp ht
      rw [h.meets.orderId_eq hleg]
      exact h.orderId_mem
  case filled =>
    intro o ho
    rw [h.orders_eq, List.mem_append, List.mem_singleton] at ho
    rcases ho with ho | rfl
    · exact hl.filled o ho
    · exact ⟨rfl, rfl⟩

/-! ## Every operation and every run -/

theorem Consistent.step (hl : l.Consistent) (h : l.step op = .ok (l', answer)) :
    l'.Consistent := by
  cases hl.step_cases h with
  | quiet quiet _ => exact hl.quiet quiet
  | filled quiet _ quantity_pos priced filled _ =>
    exact (hl.quiet quiet).filled_by quantity_pos priced filled

/-- Every operation of a run is as `Q` says of the book that it meets. -/
def Along (Q : Ledger → Operation → Prop) : Ledger → List Operation → Prop
  | _, [] => True
  | l, op :: ops => Q l op ∧ (l.step op).All fun r => Along Q r.1 ops

instance decidableAlong (Q : Ledger → Operation → Prop) [∀ l op, Decidable (Q l op)] :
    (l : Ledger) → (ops : List Operation) → Decidable (l.Along Q ops)
  | _, [] => isTrue trivial
  | l, op :: ops =>
    have (l : Ledger) := decidableAlong Q l ops
    inferInstanceAs (Decidable (Q l op ∧ (l.step op).All fun r => Along Q r.1 ops))

/-- What every operation that is as `Q` says preserves, on a consistent book, is preserved by every
run of such operations. -/
theorem Consistent.along_induction {P : Ledger → Prop} {Q : Ledger → Operation → Prop}
    (hl : l.Consistent) (hP : P l)
    (hstep : ∀ {l l' op answer}, l.Consistent → P l → Q l op → l.step op = .ok (l', answer) → P l')
    {ops : List Operation} (hops : l.Along Q ops) (h : l.run ops = .ok l') :
    l'.Consistent ∧ P l' := by
  induction ops generalizing l with
  | nil =>
    obtain rfl : l = l' := pure_eq_ok.mp h
    exact ⟨hl, hP⟩
  | cons op ops ih =>
    -- one operation, and then the rest of the run from the book that it leaves
    simp only [run, List.foldlM_cons, bind_eq_ok, pure_eq_ok] at h
    obtain ⟨_, ⟨⟨l₁, answer⟩, hop, rfl⟩, hrest⟩ := h
    obtain ⟨hQ, hrun⟩ := hops
    exact ih (hl.step hop) (hstep hl hP hQ hop) (hrun _ hop) hrest

theorem along_true (l : Ledger) (ops : List Operation) : l.Along (fun _ _ => True) ops := by
  induction ops generalizing l with
  | nil => trivial
  | cons op ops ih => exact ⟨trivial, fun r _ => ih r.1⟩

/-- What every operation on a consistent book preserves is preserved by every run. -/
theorem Consistent.run_induction {P : Ledger → Prop} (hl : l.Consistent) (hP : P l)
    (hstep : ∀ {l l' op answer}, l.Consistent → P l → l.step op = .ok (l', answer) → P l')
    {ops : List Operation} (h : l.run ops = .ok l') : l'.Consistent ∧ P l' :=
  hl.along_induction hP (fun hl hP _ => hstep hl hP) (l.along_true ops) h

theorem consistent_run {account : AccountSettings} {firstId : Uuid} {listened : Bool}
    {ops : List Operation} (h : (new account firstId listened).run ops = .ok l) : l.Consistent :=
  ((consistent_new account firstId listened).run_induction (P := fun _ => True) trivial
    (fun _ _ _ => trivial) h).1

/-! ## Ids are given in turn -/

/-- How a later book stands to an earlier one: its positions are there already, under their
symbols, or have greater ids than all up to then. -/
structure Succeeds (l l' : Ledger) : Prop where
  le : l.nextPositionId ≤ l'.nextPositionId
  old_or_later : ∀ {s p'}, l'.positions.get? s = some p' →
    (∃ p, l.positions.get? s = some p ∧ p'.id = p.id) ∨ l.nextPositionId ≤ p'.id

namespace Succeeds

theorem refl (l : Ledger) : l.Succeeds l := ⟨le_rfl, fun hp => .inl ⟨_, hp, rfl⟩⟩

theorem trans {l₁ l₂ l₃ : Ledger} (h₁ : l₁.Succeeds l₂) (h₂ : l₂.Succeeds l₃) :
    l₁.Succeeds l₃ := by
  refine ⟨h₁.le.trans h₂.le, fun hp => ?_⟩
  rcases h₂.old_or_later hp with ⟨p, hp, hid⟩ | hlater
  · rw [hid]
    exact h₁.old_or_later hp
  · exact .inr (h₁.le.trans hlater)

theorem of_quiet (h : l.Quiet l') : l.Succeeds l' := by
  refine ⟨h.nextPositionId_eq.ge, fun hp => ?_⟩
  obtain ⟨p, hp, hholding⟩ := h.get?_eq_some hp
  exact .inl ⟨p, hp, (Position.holding_eq_iff.mp hholding).1⟩

theorem of_filled (h : l.Filled request price notional commission now legs l') :
    l.Succeeds l' := by
  refine ⟨h.nextPositionId_le, fun hp' => ?_⟩
  exact (h.old_or_next hp').imp_right fun ⟨_, hid, _⟩ => hid.ge

end Succeeds

theorem Consistent.succeeds_step (hl : l.Consistent) (h : l.step op = .ok (l', answer)) :
    l.Succeeds l' := by
  cases hl.step_cases h with
  | quiet quiet _ => exact .of_quiet quiet
  | filled quiet _ _ _ filled _ => exact (Succeeds.of_quiet quiet).trans (.of_filled filled)

theorem Consistent.succeeds_run (hl : l.Consistent) {ops : List Operation}
    (h : l.run ops = .ok l') : l.Succeeds l' :=
  (hl.run_induction (P := l.Succeeds) (.refl l)
    (fun hl₁ hsucceeds hop => hsucceeds.trans (hl₁.succeeds_step hop)) h).2

/-! ## What can be wrong -/

/-- What a book with a negative balance says. -/
def overdrawn (l : Ledger) : String := s!"free balance went negative: {l.freeBalance}"

/-- The positions of a consistent book are never what is wrong with it. -/
theorem Consistent.violation?_eq (hl : l.Consistent) :
    l.violation? = if l.freeBalance < 0 then some l.overdrawn else none := by
  unfold violation?
  dsimp only
  split
  · next message hwrong =>
    -- a position that something is wrong with is not sound
    obtain ⟨⟨s, p⟩, hmem, hwrong⟩ := List.exists_of_findSome?_eq_some hwrong
    have hsound := hl.sound (Table.get?_eq_some_iff.mpr hmem)
    have hle : ¬ p.quantity ≤ 0 := Decimal.not_le_iff.mpr hsound.quantity_pos
    simp [hle, hsound.symbol_eq] at hwrong
  · rfl

theorem Consistent.verdict_eq (hl : l.Consistent) (execution : Execution) :
    l.verdict execution = if l.freeBalance < 0 then .error (.invariantViolation l.overdrawn)
      else .ok execution := by
  rw [verdict, hl.violation?_eq]
  split <;> simp_all

theorem Consistent.eq_overdrawn (hl : l.Consistent) {message : String}
    (h : l.violation? = some message) : l.freeBalance < 0 ∧ message = l.overdrawn := by
  rw [hl.violation?_eq] at h
  split at h
  · next hneg => exact ⟨hneg, (Option.some.inj h).symm⟩
  · exact nomatch h

/-- No order of a consistent book is open. -/
theorem Consistent.openOrders_eq (hl : l.Consistent) : l.openOrders = [] := by
  refine List.filter_eq_nil_iff.mpr fun o ho => ?_
  rw [(hl.filled o (List.mem_mergeSort.mp ho)).1]
  decide

/-- Every run, of any account, leads to a consistent book: no order in it is open or can be
canceled, only a negative balance can be wrong with it or be answered as wrong by an operation, and
no id in it is given again. -/
theorem run_consistent (account : AccountSettings) (firstId : Uuid) (listened : Bool)
    (ops : List Operation) (h : (new account firstId listened).run ops = .ok l) :
    l.Consistent ∧ l.openOrders = [] ∧ (∀ id, ∃ e, l.cancel id = (l, .error e)) ∧
      l.violation? = (if l.freeBalance < 0 then some l.overdrawn else none) ∧
      (∀ op l' answer message, l.step op = .ok (l', answer) →
        answer.error? = some (.invariantViolation message) →
          l'.freeBalance < 0 ∧ message = l'.overdrawn) ∧
      ∀ later l', l.run later = .ok l' → l.Succeeds l' := by
  have hl := consistent_run h
  refine ⟨hl, hl.openOrders_eq, fun id => ?_, hl.violation?_eq, ?_,
    fun _ _ => hl.succeeds_run⟩
  · obtain ⟨e, he, -⟩ := hl.cancel_eq id
    exact ⟨e, he⟩
  · intro op l' answer message hop herror
    cases hl.step_cases hop with
    | quiet _ not_violation => exact absurd herror (not_violation message)
    | filled quiet _ quantity_pos priced filled error_eq =>
      -- the answer is read off the book after the fill, which is consistent too
      have hl' := (hl.quiet quiet).filled_by quantity_pos priced filled
      rw [error_eq, Option.map_eq_some_iff] at herror
      obtain ⟨found, hfound, heq⟩ := herror
      cases heq
      exact hl'.eq_overdrawn hfound

/-- Operations of every kind on one symbol: a position is opened, increased, turned into a short
one, stopped out, and opened again. -/
def sampleRun : List Operation :=
  [.updatePrice "A" (.lit 100 0) default,
    .place { OrderRequest.market "A" .buy (.lit 2 0) with stopLoss := some (.lit 90 0) } default,
    .updatePrice "A" (.lit 110 0) default,
    .place (.market "A" .buy (.lit 2 0)) default,
    .cancel default,
    .place { OrderRequest.market "A" .sell (.lit 5 0) with stopLoss := some (.lit 130 0) } default,
    .setExit 2 .stopLoss (.lit 120 0) default,
    .updatePrice "A" (.lit 125 0) default,
    .place (.market "B" .buy (.lit 1 0)) default,
    .place (.market "A" .sell (.lit 1 0)) default]

/-- The last position of the sample has the id after the two that were closed. -/
theorem run_consistent_sample : ∃ l p, (new {} default true).run sampleRun = .ok l ∧
    l.Consistent ∧ l.openOrders = [] ∧ l.positions.get? "A" = some p ∧ p.id = 3 := by
  have hids : ((new {} default true).run sampleRun).toOption.bind
      (fun l => (l.positions.get? "A").map Position.id) = some 3 := by decide +kernel
  obtain ⟨l, hrun, hid⟩ := Calc.exists_eq_ok hids
  obtain ⟨p, hp, hid⟩ := Option.map_eq_some_iff.mp hid
  obtain ⟨hl, hopen, -⟩ := run_consistent {} default true sampleRun hrun
  exact ⟨l, p, hrun, hl, hopen, hp, hid⟩

end Ledger

end SimBroker
