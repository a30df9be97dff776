import Mathlib.Data.List.Pairwise
import SimBroker.Proofs.Ledger.Events

/-!
# The order of the list of orders

The list of orders is sorted by the times of their creation.  An order that a caller places, or one
that closes a position for a caller, is created at the clock; the order of a crossed exit is created
at the timestamp of the price, which its sender chooses.  So with a clock that does not go back the
list has the callers' orders as they were accepted, but the order of an exit stands wherever the
timestamp of the price puts it, even before the order that opened the position.

## Main definitions

* `Turn.clock?`, `Turn.BringsTime`: the turns that read the clock, and those that bring a timestamp
* `Acceptance`, `acceptances`: the orders that a run accepts, each with the turn that accepted it

## Main results

* `listed_before_iff`: of two orders created at different times the older one is listed first
* `Consistent.acceptances_turns`: the orders of a book are those that its turns have accepted, each
  created at the time of its turn
* `orderList_of_acceptances`: which orders are not listed as they were accepted
-/

namespace SimBroker

open Calc (bind_eq_ok pure_eq_ok)

/-- Instants are in order. -/
instance : LinearOrder Instant where
  le_refl a := .inr ⟨rfl, Nat.le_refl _⟩
  le_trans a b c hab hbc := by
    change _ ∨ _ at hab hbc ⊢
    omega
  le_antisymm a b hab hba := by
    obtain ⟨s, n, _⟩ := a
    obtain ⟨s', n', _⟩ := b
    change _ ∨ _ at hab hba
    simp only at hab hba
    obtain ⟨rfl, rfl⟩ : s = s' ∧ n = n' := by omega
    rfl
  le_total a b := by
    change (_ ∨ _) ∨ (_ ∨ _)
    omega
  lt_iff_le_not_ge a b := by
    change _ ∨ _ ↔ (_ ∨ _) ∧ ¬ (_ ∨ _)
    omega
  toDecidableLE := inferInstance

/-- Of two members of a list one comes before the other. -/
theorem pair_sublist_or {α : Type} {a b : α} {xs : List α} (ha : a ∈ xs) (hb : b ∈ xs)
    (hne : a ≠ b) : [a, b].Sublist xs ∨ [b, a].Sublist xs := by
  induction xs with
  | nil => exact nomatch ha
  | cons x xs ih =>
    rcases List.mem_cons.mp ha with rfl | ha'
    · have hb' := (List.mem_cons.mp hb).resolve_left hne.symm
      exact .inl ((List.singleton_sublist.mpr hb').cons_cons _)
    · rcases List.mem_cons.mp hb with rfl | hb'
      · exact .inr ((List.singleton_sublist.mpr ha').cons_cons _)
      · exact (ih ha' hb').imp (.cons x) (.cons x)

namespace Ledger

variable {l l' : Ledger} {a b : Order} {t : Turn} {ts : List Turn} {now : Instant}

/-! ## The list of orders is sorted -/

theorem perm_orderList (l : Ledger) : l.orderList.Perm l.orders := List.mergeSort_perm ..

theorem pairwise_orderList (l : Ledger) : l.orderList.Pairwise (·.createdAt ≤ ·.createdAt) := by
  have h : l.orderList.Pairwise fun a b => decide (a.createdAt ≤ b.createdAt) := by
    apply List.pairwise_mergeSort
    · intro a b c hab hbc
      exact decide_eq_true (le_trans (of_decide_eq_true hab) (of_decide_eq_true hbc))
    · intro a b
      rw [Bool.or_eq_true, decide_eq_true_iff, decide_eq_true_iff]
      exact le_total ..
  exact h.imp of_decide_eq_true

/-- Of two orders that were created at different times the older one is listed first. -/
theorem listed_before_iff (ha : a ∈ l.orders) (hb : b ∈ l.orders)
    (hne : a.createdAt ≠ b.createdAt) :
    [a, b].Sublist l.orderList ↔ a.createdAt < b.createdAt := by
  have hsorted {x y : Order} (h : [x, y].Sublist l.orderList) : x.createdAt ≤ y.createdAt :=
    List.pairwise_iff_forall_sublist.mp l.pairwise_orderList h
  constructor
  · intro h
    exact lt_of_le_of_ne (hsorted h) hne
  · intro hlt
    have hmem {x : Order} : x ∈ l.orderList ↔ x ∈ l.orders := l.perm_orderList.mem_iff
    rcases pair_sublist_or (hmem.mpr ha) (hmem.mpr hb) (fun h => hne (congrArg _ h)) with h | h
    · exact h
    · exact absurd (hsorted h) hlt.not_ge

/-! ## The orders that turns accept -/

/-- What a turn reads on the clock, if it reads it. -/
def Turn.clock? : Turn → Option Instant
  | .whole (.place _ now) | .whole (.close _ now) | .whole (.setExit _ _ _ now) => some now
  | .whole (.cancel _) | .whole (.updatePrice ..) | .mark .. | .finish .. => none

/-- A turn is for a price, whose sender says when it was the price. -/
def Turn.BringsTime : Turn → Prop
  | .whole (.updatePrice ..) | .mark .. | .finish .. => True
  | .whole (.place ..) | .whole (.close ..) | .whole (.cancel _) | .whole (.setExit ..) => False

/-- An order that is not accepted at a price is filled at the clock. -/
theorem Turn.clock?_eq_some (htime : t.time? = some now) (hclock : ¬ t.BringsTime) :
    t.clock? = some now := by
  cases t with
  | whole op =>
    cases op with
    | place | close => exact htime
    | cancel | setExit => exact nomatch htime
    | updatePrice => exact absurd trivial hclock
  | mark | finish => exact absurd trivial hclock

/-- An order, and the turn that has accepted it. -/
structure Acceptance where
  turn : Turn
  order : Order

/-- The orders that some turns accept. -/
def acceptances (l : Ledger) : List Turn → Calc (List Acceptance)
  | [] => return []
  | t :: ts => do
    let l' ← l.turn t
    let later ← l'.acceptances ts
    return (l'.orders.drop l.orders.length).map (⟨t, ·⟩) ++ later

/-- A turn accepts no order, or one that is created at the time of the turn. -/
theorem Consistent.orders_turn (hl : l.Consistent) (h : l.turn t = .ok l') :
    l'.orders = l.orders ∨
      ∃ order, l'.orders = l.orders ++ [order] ∧ t.time? = some order.createdAt := by
  simp only [turn_eq, bind_eq_ok, pure_eq_ok] at h
  obtain ⟨⟨l₁, execution⟩, hrespond, rfl⟩ := h
  obtain ⟨told, htold⟩ := hl.told_respond hrespond
  cases htold with
  | remarked remarked => exact .inl remarked.quiet.orders_eq
  | exitSet => exact .inl rfl
  | @filled _ _ l₁ _ request price _ commission now _ time_eq remarked filled _ =>
    refine .inr ⟨(l₁.orderOf request now).filled price commission now, ?_, time_eq⟩
    rw [filled.orders_eq, remarked.quiet.orders_eq]

/-- The orders that some turns add to a book are those that they have accepted, each of them created
at the time of its turn. -/
theorem Consistent.acceptances_turns (hl : l.Consistent) (h : l.turns ts = .ok l') :
    ∃ log, l.acceptances ts = .ok log ∧ l'.orders = l.orders ++ log.map Acceptance.order ∧
      (log.map Acceptance.turn).Sublist ts ∧ ∀ e ∈ log, e.turn.time? = some e.order.createdAt := by
  induction ts generalizing l with
  | nil =>
    obtain rfl : l = l' := pure_eq_ok.mp h
    exact ⟨[], rfl, (List.append_nil _).symm, .slnil, List.forall_mem_nil _⟩
  | cons t ts ih =>
    rw [Ledger.turns, List.foldlM_cons, bind_eq_ok] at h
    obtain ⟨l₁, hturn, hrest⟩ := h
    obtain ⟨log, hlog, horders, hturns, htimes⟩ := ih ((hl.moved_turn hturn).consistent hl) hrest
    rcases hl.orders_turn hturn with hnone | ⟨order, hone, htime⟩
    · refine ⟨log, ?_, hnone ▸ horders, hturns.cons t, htimes⟩
      simp [acceptances, hturn, hlog, hnone]
    · refine ⟨⟨t, order⟩ :: log, ?_, ?_, hturns.cons_cons t,
        List.forall_mem_cons.mpr ⟨htime, htimes⟩⟩
      · simp [acceptances, hturn, hlog, hone]
      · rw [horders, hone, List.append_assoc]
        rfl

/-! ## The list of orders after a run -/

/-- The times of the orders are times of the turns, in the same order. -/
theorem createdAt_sublist {log : List Acceptance} (hturns : (log.map Acceptance.turn).Sublist ts)
    (htimes : ∀ e ∈ log, e.turn.time? = some e.order.createdAt) :
    (log.map (·.order.createdAt)).Sublist (ts.filterMap Turn.time?) := by
  have heq : (log.map Acceptance.turn).filterMap Turn.time? = log.map (·.order.createdAt) := by
    rw [List.filterMap_map, ← List.filterMap_eq_map]
    exact List.filterMap_congr htimes
  exact heq ▸ hturns.filterMap _

/-- Two orders that were filled at the clock were filled at it one after the other. -/
theorem createdAt_le_of_clock {first later : Acceptance}
    (hturns : [first.turn, later.turn].Sublist ts)
    (hclock : (ts.filterMap Turn.clock?).Pairwise (· ≤ ·))
    (hfirst : first.turn.clock? = some first.order.createdAt)
    (hlater : later.turn.clock? = some later.order.createdAt) :
    first.order.createdAt ≤ later.order.createdAt := by
  have hread := hturns.filterMap Turn.clock?
  simp only [List.filterMap_cons, hfirst, hlater, List.filterMap_nil] at hread
  exact List.pairwise_iff_forall_sublist.mp hclock hread

/-- For every run on which the clock does not go back:

* the list of orders has the orders that were accepted, each created at the time of the turn that
  accepted it;
* of two of them that were created at different times, the later accepted one is listed first
  exactly if it was created before the other, and then one of the two was accepted at a price;
* if the timestamps of the prices are in order with the clock, orders that were created at different
  times are listed as they were accepted. -/
theorem orderList_of_acceptances (account : AccountSettings) (firstId : Uuid) (listened : Bool)
    (hrun : (new account firstId listened).turns ts = .ok l)
    (hclock : (ts.filterMap Turn.clock?).Pairwise (· ≤ ·)) :
    ∃ log, (new account firstId listened).acceptances ts = .ok log ∧
      log.map Acceptance.order = l.orders ∧ l.orderList.Perm l.orders ∧
      (∀ e ∈ log, e.turn.time? = some e.order.createdAt) ∧
      (∀ first later, [first, later].Sublist log →
        first.order.createdAt ≠ later.order.createdAt →
          ([later.order, first.order].Sublist l.orderList ↔
            later.order.createdAt < first.order.createdAt) ∧
          (later.order.createdAt < first.order.createdAt →
            first.turn.BringsTime ∨ later.turn.BringsTime)) ∧
      ((ts.filterMap Turn.time?).Pairwise (· ≤ ·) →
        ∀ first later, [first, later].Sublist log →
          first.order.createdAt ≠ later.order.createdAt →
            [first.order, later.order].Sublist l.orderList) := by
  obtain ⟨log, hlog, horders, hturns, htimes⟩ :=
    (consistent_new account firstId listened).acceptances_turns hrun
  have hlogged : log.map Acceptance.order = l.orders := horders.symm
  have hmem (e) (he : e ∈ log) : e.order ∈ l.orders := hlogged ▸ List.mem_map_of_mem he
  have hpair {first later} (h : [first, later].Sublist log) : first ∈ log ∧ later ∈ log :=
    ⟨h.subset (by simp), h.subset (by simp)⟩
  refine ⟨log, hlog, hlogged, l.perm_orderList, htimes, ?_, ?_⟩
  · intro first later hsub hne
    obtain ⟨hfirst, hlater⟩ := hpair hsub
    refine ⟨listed_before_iff (hmem later hlater) (hmem first hfirst) hne.symm, fun hlt => ?_⟩
    by_contra hnone
    obtain ⟨hclock₁, hclock₂⟩ := not_or.mp hnone
    -- both are orders of callers, so the clock has gone back between them
    have hle := createdAt_le_of_clock ((hsub.map Acceptance.turn).trans hturns) hclock
      (Turn.clock?_eq_some (htimes first hfirst) hclock₁)
      (Turn.clock?_eq_some (htimes later hlater) hclock₂)
    exact hle.not_gt hlt
  · intro hordered first later hsub hne
    obtain ⟨hfirst, hlater⟩ := hpair hsub
    have hcreated := hordered.sublist (createdAt_sublist hturns htimes)
    have hle := List.pairwise_iff_forall_sublist.mp (List.pairwise_map.mp hcreated) hsub
    exact (listed_before_iff (hmem first hfirst) (hmem later hlater) hne).mpr
      (lt_of_le_of_ne hle hne)

/-- 2024-01-01T00:00:00Z. -/
def openingTime : Instant := ⟨1704067200, 0, by decide⟩

/-- 2023-01-01T00:00:00Z. -/
def pastTime : Instant := ⟨1672531200, 0, by decide⟩

/-- A position is opened with a stop, and the price that crosses the stop has an old timestamp. -/
def backdatedStop : List Turn :=
  [.mark "A" (.lit 30 0) openingTime,
    .whole (.place { OrderRequest.market "A" .buy (.lit 3 0) with stopLoss := some (.lit 20 0) }
      openingTime),
    .whole (.updatePrice "A" (.lit 19 0) pastTime)]

/-- The client ids of the orders after some turns, with the times at which they were created. -/
def createdAfter? (account : AccountSettings) (ts : List Turn) :
    Option (List (Option String × Instant)) :=
  ((new account default false).turns ts).toOption.bind fun l =>
    some (l.orders.map fun o => (o.clientId, o.createdAt))

/-- The two orders of `backdatedStop`. -/
theorem orders_backdatedStop : ∃ l opening exit,
    (new (smallAccount 0) default false).turns backdatedStop = .ok l ∧ l.orders = [opening, exit] ∧
    opening.createdAt = openingTime ∧ exit.clientId = some "stop_loss:1" ∧
    exit.createdAt = pastTime := by
  have hcreated : createdAfter? (smallAccount 0) backdatedStop =
      some [(none, openingTime), (some "stop_loss:1", pastTime)] := by decide +kernel
  obtain ⟨l, hrun, horders⟩ := Calc.exists_eq_ok hcreated
  obtain ⟨opening, rest, horders, hopening, hrest⟩ :=
    List.map_eq_cons_iff.mp (Option.some.inj horders)
  obtain ⟨exit, more, rfl, hexit, hnone⟩ := List.map_eq_cons_iff.mp hrest
  obtain rfl := List.map_eq_nil_iff.mp hnone
  exact ⟨l, opening, exit, hrun, horders, (Prod.mk.inj hopening).2, (Prod.mk.inj hexit).1,
    (Prod.mk.inj hexit).2⟩

theorem clock_backdatedStop : (backdatedStop.filterMap Turn.clock?).Pairwise (· ≤ ·) :=
  List.pairwise_singleton _ openingTime

/-- The order of the stop is listed before the order that opened the position, although the clock
has not gone back. -/
theorem exit_listed_before_opening : ∃ l opening exit,
    (new (smallAccount 0) default false).turns backdatedStop = .ok l ∧
    (backdatedStop.filterMap Turn.clock?).Pairwise (· ≤ ·) ∧
    l.orders = [opening, exit] ∧ exit.clientId = some "stop_loss:1" ∧
    opening.createdAt ≠ exit.createdAt ∧ l.orderList = [exit, opening] := by
  obtain ⟨l, opening, exit, hrun, horders, hopening, hclient, hexit⟩ := orders_backdatedStop
  have hlt : exit.createdAt < opening.createdAt := by
    rw [hopening, hexit]
    decide
  have hlisted : [exit, opening].Sublist l.orderList :=
    (listed_before_iff (by simp [horders]) (by simp [horders]) hlt.ne).mpr hlt
  have hlength : [exit, opening].length = l.orderList.length := by
    rw [l.perm_orderList.length_eq, horders]
    rfl
  exact ⟨l, opening, exit, hrun, clock_backdatedStop, horders, hclient, hlt.ne',
    (hlisted.eq_of_length hlength).symm⟩

/-- One of the two orders of `backdatedStop` is not listed as it was accepted, and one of their
turns is for a price. -/
theorem orderList_of_backdatedStop : ∃ l log first later,
    (new (smallAccount 0) default false).turns backdatedStop = .ok l ∧
    (backdatedStop.filterMap Turn.clock?).Pairwise (· ≤ ·) ∧
    (new (smallAccount 0) default false).acceptances backdatedStop = .ok log ∧
    [first, later].Sublist log ∧ [later.order, first.order].Sublist l.orderList ∧
    (first.turn.BringsTime ∨ later.turn.BringsTime) := by
  obtain ⟨l, opening, exit, hrun, horders, hopening, -, hexit⟩ := orders_backdatedStop
  obtain ⟨log, hlog, hlogged, -, -, hpairs, -⟩ :=
    orderList_of_acceptances (smallAccount 0) default false hrun clock_backdatedStop
  rw [horders] at hlogged
  obtain ⟨first, rest, rfl, rfl, hrest⟩ := List.map_eq_cons_iff.mp hlogged
  obtain ⟨later, more, rfl, rfl, hnone⟩ := List.map_eq_cons_iff.mp hrest
  obtain rfl := List.map_eq_nil_iff.mp hnone
  have hlt : later.order.createdAt < first.order.createdAt := by
    rw [hopening, hexit]
    decide
  obtain ⟨hlisted, hprice⟩ := hpairs first later (.refl _) hlt.ne'
  exact ⟨l, _, first, later, hrun, clock_backdatedStop, hlog, .refl _, hlisted.mpr hlt, hprice hlt⟩

end Ledger

end SimBroker
