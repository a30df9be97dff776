import Mathlib.Logic.Relation
import SimBroker.Proofs.Ledger.Interleaving

/-!
# The changes of a book

A turn is made of changes of five kinds: an event is told, a price is recorded for a symbol without
a position, a price is recorded and marks the position of its symbol, an exit is moved, or an order
is filled.  They say more than a quiet change does, which leaves open what becomes of marks.  What
each of the five preserves is preserved by every turn, so an invariant of the positions needs to
know nothing else about the operations.

## Main definitions

* `Change`: a change of a book, in five cases
* `Named`: a request for a symbol that is not blank, or that has a position

## Main results

* `Consistent.changes_turn`: a turn is a sequence of changes
* `Consistent.changes_induction`: what every change preserves is preserved by every turn
-/

namespace SimBroker

open Calc (bind_eq_ok pure_eq_ok)
open Relation (ReflTransGen)

theorem OrderRequest.symbol_of_fault?_eq_none {request : OrderRequest} (h : request.fault? = none) :
    (trimmed request.symbol).isEmpty = false := by
  unfold fault? at h
  split at h
  · exact nomatch h
  · next hsymbol => exact Bool.eq_false_iff.mpr hsymbol

namespace Ledger

variable {l l' l₁ : Ledger} {request : OrderRequest} {price : Decimal} {now : Instant}
  {symbol : String} {op : Operation} {answer : Answer} {t : Turn} {ts : List Turn}

/-- The symbol of a request is not blank, or it has a position. -/
def Named (l : Ledger) (request : OrderRequest) : Prop :=
  (trimmed request.symbol).isEmpty = false ∨ (l.positions.get? request.symbol).isSome

/-- A change of a book. -/
inductive Change (l : Ledger) : Ledger → Prop
  | tells (event : LedgerEvent) : Change l (l.emit event)
  | prices {symbol : String} {price : Decimal} (flat : l.positions.get? symbol = none) :
    Change l (l.withPrice symbol price)
  | marks {symbol : String} {price : Decimal} {now : Instant} {p p' : Position}
      (get?_eq : l.positions.get? symbol = some p) (mark_eq : p.mark price now = .ok p') :
    Change l (l.marked symbol price p')
  | exits {symbol : String} {p : Position} (get?_eq : l.positions.get? symbol = some p)
      (kind : TriggerKind) (price : Decimal) (now : Instant) :
    Change l { l with positions := l.positions.insert symbol (p.withExit kind price now) }
  | fills {request : OrderRequest} {price notional commission : Decimal} {now : Instant}
      {legs : List Leg} {l' : Ledger} (quantity_pos : 0 < request.quantity)
      (priced : (l.prices.get? request.symbol).isSome) (named : l.Named request)
      (filled : l.Filled request price notional commission now legs l') : Change l l'

/-- A change that fills no order is quiet. -/
theorem Change.quiet_or_fills (h : l.Change l') : l.Quiet l' ∨
    ∃ request price notional commission now legs, 0 < request.quantity ∧
      (l.prices.get? request.symbol).isSome ∧
      l.Filled request price notional commission now legs l' := by
  cases h with
  | tells event => exact .inl (.emit l event)
  | prices => exact .inl (.setPrice ..)
  | marks get?_eq mark_eq => exact .inl (quiet_marked get?_eq mark_eq)
  | exits get?_eq kind price now =>
    exact .inl (.insert get?_eq (Position.holding_withExit _ kind price now))
  | fills quantity_pos priced _ filled =>
    exact .inr ⟨_, _, _, _, _, _, quantity_pos, priced, filled⟩

theorem Change.consistent (h : l.Change l') (hl : l.Consistent) : l'.Consistent := by
  rcases h.quiet_or_fills with hquiet | ⟨_, _, _, _, _, _, hpos, hpriced, hfilled⟩
  · exact hl.quiet hquiet
  · exact hl.filled_by hpos hpriced hfilled

/-! ## The changes of an operation -/

theorem changes_fillCounted {outcome : Outcome Execution} (hq : 0 < request.quantity)
    (hpriced : (l.prices.get? request.symbol).isSome) (hnamed : l.Named request)
    (h : l.fillCounted request price now = .ok (l', outcome)) : ReflTransGen Change l l' := by
  rcases fillCounted_cases hq h with hrefused | ⟨notional, commission, legs, hfilled, -⟩
  · rw [hrefused.ledger_eq]
  · exact .single (.fills hq hpriced hnamed hfilled)

theorem changes_place {outcome : Outcome Execution}
    (h : l.place request now = .ok (l', outcome)) : ReflTransGen Change l l' := by
  rcases place_cases h with ⟨rfl, -⟩ | ⟨price, hfault, hprice, hfill⟩
  · exact .refl
  · exact changes_fillCounted (quantity_pos_of_fault?_eq_none hfault)
      (priced_of_executionPrice hprice) (.inl (OrderRequest.symbol_of_fault?_eq_none hfault)) hfill

theorem changes_recordPrice {outcome : Outcome (Option Trigger)}
    (h : l.recordPrice symbol price now = .ok (l', outcome)) : ReflTransGen Change l l' := by
  rcases recordPrice_cases h with ⟨-, rfl, -⟩ | ⟨-, hnone, rfl, -⟩ | ⟨p, p', -, hp, hmark, rfl, -⟩
  · exact .refl
  · exact .single (.prices hnone)
  · exact .single (.marks hp hmark)

/-- The order of an exit is for a symbol that has a position. -/
theorem Consistent.changes_executeTrigger (hl : l.Consistent) {trigger : Trigger}
    {outcome : Outcome (Option Execution)}
    (h : l.executeTrigger trigger now = .ok (l', outcome)) : ReflTransGen Change l l' := by
  rcases hl.executeTrigger_cases h with rfl | ⟨p, latest, kind, hlive, rfl | ⟨_, _, _, hfilled⟩⟩
  · exact .refl
  · exact .single (.tells _)
  · have hsound := hl.sound hlive.get?_eq
    refine .tail (.single (.tells _)) (.fills hsound.quantity_pos ?_ (.inr ?_) hfilled)
    · show (l.prices.get? p.symbol).isSome
      rw [hsound.symbol_eq]
      exact hsound.priced
    · show (l.positions.get? p.symbol).isSome
      rw [hsound.symbol_eq, hlive.get?_eq]
      rfl

theorem Consistent.changes_updatePrice (hl : l.Consistent)
    {outcome : Outcome (Option Execution)}
    (h : l.updatePrice symbol price now = .ok (l', outcome)) : ReflTransGen Change l l' := by
  obtain ⟨l₁, reported, hrecord, rfl | ⟨trigger, -, hexecute⟩⟩ := updatePrice_eq_ok h
  · exact changes_recordPrice hrecord
  · -- the exit that was crossed is looked for in the book with the price
    have hl₁ := hl.quiet (quiet_recordPrice hrecord)
    exact (changes_recordPrice hrecord).trans (hl₁.changes_executeTrigger hexecute)

/-- A turn is a sequence of changes. -/
theorem Consistent.changes_turn (hl : l.Consistent) (h : l.turn t = .ok l') :
    ReflTransGen Change l l' := by
  cases t with
  | whole op =>
    cases op with
    | place request now =>
      obtain ⟨outcome, hplace⟩ := turn_place_eq_ok.mp h
      exact changes_place hplace
    | close id now =>
      obtain ⟨outcome, hclose⟩ := turn_close_eq_ok.mp h
      rcases close_cases hclose with ⟨-, rfl, -⟩ | ⟨p, -, hplace⟩
      · exact .refl
      · exact changes_place hplace
    | cancel id =>
      obtain rfl := hl.eq_of_turn_cancel h
      exact .refl
    | setExit id kind price now =>
      obtain ⟨outcome, hset⟩ := turn_setExit_eq_ok.mp h
      rcases setExit_cases hset with ⟨rfl, -⟩ | ⟨symbol, p, -, hp, -, rfl, -⟩
      · exact .refl
      · exact .tail (.single (.exits hp kind price now)) (.tells _)
    | updatePrice symbol price now =>
      obtain ⟨outcome, hupdate⟩ := turn_updatePrice_eq_ok.mp h
      exact hl.changes_updatePrice hupdate
  | mark symbol price now =>
    obtain ⟨outcome, hrecord⟩ := turn_mark_eq_ok.mp h
    exact changes_recordPrice hrecord
  | finish trigger now =>
    obtain ⟨outcome, hfinish⟩ := turn_finish_eq_ok.mp h
    exact hl.changes_executeTrigger hfinish

/-- What every change of a consistent book preserves is preserved by all runs of turns. -/
theorem Consistent.changes_induction {P : Ledger → Prop} (hl : l.Consistent) (hP : P l)
    (hchange : ∀ {l l'}, l.Consistent → P l → l.Change l' → P l') (h : l.turns ts = .ok l') :
    P l' := by
  refine (hl.turns_induction hP (fun t _ l l' hl hP hturn => ?_) h).2
  suffices hboth : l'.Consistent ∧ P l' from hboth.2
  have hchanges := hl.changes_turn hturn
  clear hturn
  induction hchanges with
  | refl => exact ⟨hl, hP⟩
  | tail _ hlast ih =>
    obtain ⟨hl, hP⟩ := ih
    exact ⟨hlast.consistent hl, hchange hl hP hlast⟩

end Ledger

end SimBroker
