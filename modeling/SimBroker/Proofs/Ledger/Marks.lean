import SimBroker.Proofs.Decimal.Exact
import SimBroker.Proofs.Decimal.Monotone
import SimBroker.Proofs.Ledger.Changes
import SimBroker.Proofs.Table

/-!
# Marks

A position carries its unrealized profit, and what part of the entry value that is.  Both are
stored, while the quantity and the entry change with every trade and the price with every update.
They are nevertheless what they would be if they were calculated anew: whatever changes a position
marks it afterwards, an exit is no part of a mark, and a position that is opened has neither profit
nor loss at its own price.  So the value of an account does not depend on what is stored.

The entry value of a position that is opened is never calculated.  That it has a place in the format
follows from the value of the whole order, which was calculated before and is no less.

## Main definitions

* `Position.Marked`: the marks of a position are those of its quantity, entry and price
* `Ledger.freshPnl`, `Ledger.freshEquity`: what an account is worth without what is stored

## Main results

* `Position.marked_mark`, `Position.marked_opened`: positions that are marked
* `Meets.marked`: an order leaves a marked position
* `Ledger.marks_fresh`: all positions of all runs are marked
-/

namespace SimBroker

open Calc (bind_eq_ok pure_eq_ok)

namespace Decimal

variable {a b c : Decimal}

theorem mul_of_isZero (h : a.isZero = true) (b : Decimal) : a.mul b = .ok 0 := by
  unfold mul
  rw [h]
  rfl

/-- A decimal less itself is nothing, at whatever scale. -/
theorem exists_sub_self (a : Decimal) : ∃ zero, a.sub a = .ok zero ∧ zero.isZero = true := by
  obtain ⟨zero, hzero, hvalue⟩ := exists_sub_of_rounded (c := 0) (.of_eq (by simp) :
    Rounded (a.toRat - a.toRat) 0)
  exact ⟨zero, hzero, isZero_iff.mpr (hvalue.trans toRat_zero)⟩

/-- A difference of positive decimals is no greater than the first. -/
theorem abs_toRat_sub_le (h : a.sub b = .ok c) (hb : 0 < b) (hlt : b < a) :
    |c.toRat| ≤ |a.toRat| := by
  have hb' := pos_iff.mp hb
  have hlt' := lt_iff.mp hlt
  have hfaithful := faithful_sub h
  have hle : c.toRat ≤ a.toRat := hfaithful.le (by linarith)
  have hnonneg : 0 ≤ c.toRat := hfaithful.nonneg (by linarith)
  rw [abs_of_nonneg hnonneg, abs_of_nonneg (hnonneg.trans hle)]
  exact hle

end Decimal

namespace Position

variable {p p' : Position} {price quantity realized : Decimal} {now : Instant}
  {order : Order} {request : OrderRequest} {id : ℕ}

/-- The marks of a position are those of its quantity, its entry and its price. -/
structure Marked (p : Position) : Prop where
  pnl_eq : ((p.currentPrice - p.entryPrice) * p.quantity * p.side.sign : Formula).eval =
    .ok p.unrealizedPnl
  pct_eq : ∃ value, (p.entryPrice * p.quantity : Formula).eval = .ok value ∧
    if value.isZero then p.unrealizedPnlPct = 0
    else (p.unrealizedPnl / value * Decimal.hundred : Formula).eval = .ok p.unrealizedPnlPct

theorem pnlAt_eq_eval (p : Position) (price : Decimal) :
    p.pnlAt price = ((price - p.entryPrice) * p.quantity * p.side.sign : Formula).eval := by
  simp only [pnlAt, gain, Formula.eval_mul, Formula.eval_sub, Formula.eval_value, Calc.ok_bind,
    bind_assoc]

theorem Marked.pnlAt_eq (h : p.Marked) : p.pnlAt p.currentPrice = .ok p.unrealizedPnl :=
  (pnlAt_eq_eval p p.currentPrice).trans h.pnl_eq

/-- A position is marked by a mark, whatever was stored before. -/
theorem marked_mark (h : p.mark price now = .ok p') : p'.Marked := by
  obtain ⟨pnl, basis, pct, hpnl, hbasis, hpct, rfl⟩ := mark_eq_ok h
  refine ⟨(pnlAt_eq_eval p price).symm.trans hpnl, basis, hbasis, ?_⟩
  unfold percentOf at hpct
  split at hpct
  · next hzero =>
    rw [if_pos hzero]
    exact (pure_eq_ok.mp hpct).symm
  · next hzero =>
    rw [if_neg hzero]
    exact hpct

/-- An exit is no part of a mark. -/
theorem Marked.withExit (h : p.Marked) (kind : TriggerKind) (price : Decimal) (now : Instant) :
    (p.withExit kind price now).Marked := by
  cases kind <;> exact ⟨h.pnl_eq, h.pct_eq⟩

/-- At its own price a position that is opened has neither profit nor loss. -/
theorem marked_opened {value : Decimal} (hvalue : price.mul quantity = .ok value) :
    (opened id order request quantity price now).Marked := by
  refine ⟨?_, value, hvalue, ?_⟩
  · obtain ⟨zero, hsub, hzero⟩ := Decimal.exists_sub_self price
    rw [← pnlAt_eq_eval]
    show (price.sub price >>= fun a => a.mul quantity >>= fun b => b.mul _) = .ok 0
    rw [hsub, Calc.ok_bind, Decimal.mul_of_isZero hzero, Calc.ok_bind, Decimal.mul_of_isZero rfl]
  · split
    · rfl
    · next hnot =>
      show (Decimal.div 0 value >>= fun a => a.mul Decimal.hundred) = .ok 0
      rw [Decimal.div, if_neg hnot]
      rfl

end Position

/-- An order whose value was calculated leaves a marked position. -/
theorem Meets.marked {order : Order} {request : OrderRequest} {price commission notional : Decimal}
    {now : Instant} {newId : ℕ} {before after : Option Position} {legs : List Leg} {p' : Position}
    (h : Meets order request price commission now newId before legs after)
    (hnotional : order.quantity.mul price = .ok notional)
    (hbefore : ∀ p ∈ before, 0 < p.quantity) (hafter : p' ∈ after) : p'.Marked := by
  have hrounded := Decimal.rounded_mul hnotional
  cases h with
  | opens =>
    cases hafter
    obtain ⟨value, hvalue⟩ := Decimal.exists_mul_of_abs_le (a := price) (b := order.quantity)
      hrounded (by rw [mul_comm])
    exact Position.marked_opened hvalue
  | increases _ increased =>
    cases hafter
    obtain ⟨_, _, -, -, hmark⟩ := Position.increased_eq_ok increased
    exact Position.marked_mark hmark
  | reduces _ _ reduced =>
    cases hafter
    obtain ⟨-, _, _, -, -, hmark⟩ := Position.reduced_eq_ok reduced
    exact Position.marked_mark hmark
  | closes => cases hafter
  | @flips p _ _ _ _ rest _ _ more _ _ _ rest_eq =>
    cases hafter
    -- the rest of the order is worth no more than the whole of it
    have hle := Decimal.abs_toRat_sub_le rest_eq (hbefore p rfl) more
    obtain ⟨value, hvalue⟩ := Decimal.exists_mul_of_abs_le (a := price) (b := rest) hrounded (by
      rw [mul_comm, abs_mul, abs_mul]
      exact mul_le_mul_of_nonneg_right hle (abs_nonneg _))
    exact Position.marked_opened hvalue

namespace Ledger

variable {l l' : Ledger} {now : Instant}

/-- All positions are marked. -/
def AllMarked (l : Ledger) : Prop := ∀ s p, l.positions.get? s = some p → p.Marked

theorem AllMarked.insert {symbol : String} {p : Position} (h : l.AllMarked) (hp : p.Marked)
    (hpositions : l'.positions = l.positions.insert symbol p) : l'.AllMarked := by
  intro s p' hp'
  rw [hpositions, Table.get?_insert] at hp'
  split at hp'
  · obtain rfl := Option.some.inj hp'
    exact hp
  · exact h s p' hp'

theorem AllMarked.change (h : l.AllMarked) (hl : l.Consistent) (hchange : l.Change l') :
    l'.AllMarked := by
  cases hchange with
  | tells | prices => exact h
  | marks get?_eq mark_eq => exact h.insert (Position.marked_mark mark_eq) rfl
  | exits get?_eq kind price now => exact h.insert ((h _ _ get?_eq).withExit kind price now) rfl
  | @fills request _ _ _ _ _ _ _ _ _ filled =>
    intro s p' hp'
    by_cases hs : s = request.symbol
    · subst hs
      exact filled.meets.marked filled.notional_eq (fun p hp => (hl.sound hp).quantity_pos) hp'
    · rw [filled.get?_other s hs] at hp'
      exact h s p' hp'

theorem allMarked_turns {account : AccountSettings} {firstId : Uuid} {listened : Bool}
    {ts : List Turn} (h : (new account firstId listened).turns ts = .ok l) : l.AllMarked :=
  (consistent_new account firstId listened).changes_induction (fun _ _ hp => nomatch hp)
    (fun hl hmarked hchange => hmarked.change hl hchange) h

/-! ## What an account is worth -/

/-- The unrealized profit of all positions, each calculated from its quantity, entry and price. -/
def freshPnl (l : Ledger) : Calc Decimal :=
  l.positions.values.foldlM (fun sum p => do sum.add (← p.pnlAt p.currentPrice)) 0

/-- The equity with the unrealized profit calculated anew. -/
def freshEquity (l : Ledger) : Calc Decimal := do
  let basis ← l.costBasis
  let unrealized ← l.freshPnl
  (← l.freeBalance.add basis).add unrealized

theorem foldlM_pnl_eq {ps : List Position} (h : ∀ p ∈ ps, p.Marked) (sum : Decimal) :
    ps.foldlM (fun sum p => sum.add p.unrealizedPnl) sum =
      ps.foldlM (fun sum p => do sum.add (← p.pnlAt p.currentPrice)) sum := by
  induction ps generalizing sum with
  | nil => rfl
  | cons p ps ih =>
    obtain ⟨hp, hps⟩ := List.forall_mem_cons.mp h
    rw [List.foldlM_cons, List.foldlM_cons, hp.pnlAt_eq, Calc.ok_bind]
    exact bind_congr fun sum => ih hps sum

theorem AllMarked.unrealizedPnl_eq (h : l.AllMarked) : l.unrealizedPnl = l.freshPnl := by
  rw [unrealizedPnl, freshPnl, Decimal.total, List.foldlM_map]
  refine foldlM_pnl_eq (fun p hp => ?_) 0
  obtain ⟨s, hs⟩ := Table.mem_values_iff.mp hp
  exact h s p hs

theorem AllMarked.equity_eq (h : l.AllMarked) : l.equity = l.freshEquity := by
  rw [equity, freshEquity, h.unrealizedPnl_eq]

theorem summary_eq_ok {a : AccountSummary} (h : l.summary now = .ok a) :
    l.equity = .ok a.equity ∧ l.unrealizedPnl = .ok a.unrealizedPnl := by
  simp only [summary, bind_eq_ok, pure_eq_ok] at h
  obtain ⟨equity, hequity, unrealizedPnl, hunrealized, rfl⟩ := h
  exact ⟨hequity, hunrealized⟩

/-- Marks are never stale: after every turn of every run, the unrealized profit of each position is
that of its quantity between its entry and its price, and the percentage is that of its entry value,
or zero if that is zero.  So the unrealized profit and the equity of the account, also in a summary,
are what they come to when no mark is looked at. -/
theorem marks_fresh (account : AccountSettings) (firstId : Uuid) (listened : Bool) {ts : List Turn}
    (h : (new account firstId listened).turns ts = .ok l) :
    (∀ s p, l.positions.get? s = some p → p.Marked) ∧
    (l.unrealizedPnl = l.freshPnl ∧ l.equity = l.freshEquity) ∧
    ∀ now a, l.summary now = .ok a →
      l.freshPnl = .ok a.unrealizedPnl ∧ l.freshEquity = .ok a.equity := by
  have hmarked := allMarked_turns h
  refine ⟨hmarked, ⟨hmarked.unrealizedPnl_eq, hmarked.equity_eq⟩, fun now a ha => ?_⟩
  obtain ⟨hequity, hunrealized⟩ := summary_eq_ok ha
  rw [← hmarked.unrealizedPnl_eq, ← hmarked.equity_eq]
  exact ⟨hunrealized, hequity⟩

/-- A position that was bought in two halves is marked with all of it, at the average entry. -/
theorem marks_fresh_increased : ∃ l p,
    (new {} default true).turns ((sampleRun.take 4).map .whole) = .ok l ∧
    l.positions.get? "A" = some p ∧ p.quantity = .lit 4 0 ∧ 0 < p.unrealizedPnl ∧
    p.Marked ∧ l.unrealizedPnl = l.freshPnl := by
  have hsome : ((new {} default true).turns ((sampleRun.take 4).map .whole)).toOption.bind
      (fun l => (l.positions.get? "A").map fun p =>
        (p.quantity, decide (0 < p.unrealizedPnl))) = some (.lit 4 0, true) := by decide +kernel
  obtain ⟨l, hrun, h⟩ := Calc.exists_eq_ok hsome
  obtain ⟨p, hp, h⟩ := Option.map_eq_some_iff.mp h
  obtain ⟨hquantity, hpos⟩ := Prod.mk.inj h
  obtain ⟨hmarked, ⟨hunrealized, -⟩, -⟩ := marks_fresh {} default true hrun
  exact ⟨l, p, hrun, hp, hquantity, of_decide_eq_true hpos, hmarked "A" p hp, hunrealized⟩

end Ledger

end SimBroker
