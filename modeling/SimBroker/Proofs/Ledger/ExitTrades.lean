import SimBroker.Proofs.Ledger.Entries
import SimBroker.Proofs.Ledger.Events

/-!
# The trades that give back

The history of an account says by itself which of its trades gave back a part of a position: the
first trade in a position has opened it, and those on the other side give back.  The events of the
ledger mark the same trades, because a position stays on the side on which it was opened, and the
id of a new one is in no trade of before.

## Main definitions

* `Trade.givesBack`, `Ledger.exitTrades`: the trades of a history that give back
* `LedgerEvent.exit?`: the trade of an event that tells of giving back
* `Entered`: every open position has its first trade, on its entry side
* `Tells`: events that tell of the trades made since an earlier book

## Main results

* `Entered.tells`: what a turn tells
* `Consistent.tells_turns`: what all runs of turns tell
-/

namespace SimBroker

open Calc (bind_eq_ok pure_eq_ok)

/-- The trade that an event tells of as giving back. -/
def LedgerEvent.exit? : LedgerEvent → Option Trade
  | .position change _ (some t) => if change.realizesPnl then some t else none
  | _ => none

/-- The trade that an event tells of was made at one of some times, and has realized nothing if it
does not give back. -/
def LedgerEvent.Dated (times : List Instant) (event : LedgerEvent) : Prop :=
  ∀ t, event.trade? = some t →
    t.executedAt ∈ times ∧ (event.exit? = none → t.realizedPnl = 0)

theorem LedgerEvent.Dated.mono {times times' : List Instant} {event : LedgerEvent}
    (h : event.Dated times) (hsub : times ⊆ times') : event.Dated times' :=
  fun t ht => (h t ht).imp_left (@hsub _)

/-- Events that tell of no trade tell of none that gives back. -/
theorem exits_eq_nil {told : List LedgerEvent} (h : told.filterMap LedgerEvent.trade? = []) :
    told.filterMap LedgerEvent.exit? = [] := by
  rw [List.filterMap_eq_nil_iff] at h ⊢
  intro event hevent
  have hnone := h event hevent
  match event with
  | .position _ _ (some _) => exact nomatch hnone
  | .position _ _ none | .exitTriggered .. | .orderFilled _ | .orderCanceled _ => rfl

/-- Events that tell of no trade are dated as well. -/
theorem dated_of_trades_eq_nil {told : List LedgerEvent} {times : List Instant}
    (h : told.filterMap LedgerEvent.trade? = []) : ∀ event ∈ told, event.Dated times := by
  rw [List.filterMap_eq_nil_iff] at h
  intro event hevent t ht
  rw [h event hevent] at ht
  exact nomatch ht

/-! ## Histories -/

/-- The first trade of a history in a position. -/
def firstIn (trades : List Trade) (id : Option ℕ) : Option Trade :=
  trades.find? fun t => t.positionId = id

/-- A trade of a history gives back: it is on another side than the first trade in its position. -/
def Trade.givesBack (trades : List Trade) (t : Trade) : Bool :=
  (firstIn trades t.positionId).any fun first => first.side ≠ t.side

/-- The trades of a history that give back. -/
def exitsIn (trades : List Trade) : List Trade := trades.filter (Trade.givesBack trades)

section Histories

variable {trades more : List Trade} {id : Option ℕ} {t first : Trade}

theorem firstIn_append_of_some (h : firstIn trades id = some first) :
    firstIn (trades ++ more) id = some first := by
  rw [firstIn, List.find?_append]
  exact congrArg (Option.or · _) h

theorem firstIn_append_of_none (h : firstIn trades id = none) :
    firstIn (trades ++ more) id = firstIn more id := by
  rw [firstIn, List.find?_append]
  exact (congrArg (Option.or · _) h).trans (Option.none_or ..)

/-- Later trades leave what the trades of before are. -/
theorem exitsIn_append (trades more : List Trade) :
    exitsIn (trades ++ more) =
      exitsIn trades ++ more.filter (Trade.givesBack (trades ++ more)) := by
  rw [exitsIn, List.filter_append]
  congr 1
  refine List.filter_congr fun t ht => ?_
  -- a trade of before is in its position, so a first one is there already
  obtain ⟨first, hfirst⟩ : ∃ first, firstIn trades t.positionId = some first :=
    Option.isSome_iff_exists.mp (List.find?_isSome.mpr ⟨t, ht, decide_eq_true rfl⟩)
  rw [Trade.givesBack, Trade.givesBack, firstIn_append_of_some hfirst, hfirst]

/-- The first trade of a history in a position is on its entry side. -/
def FirstEntry (trades : List Trade) (p : Position) : Prop :=
  ∃ t, firstIn trades (some p.id) = some t ∧ t.side = p.side.entrySide

namespace FirstEntry

variable {p p' : Position}

theorem append (h : FirstEntry trades p) (more : List Trade) : FirstEntry (trades ++ more) p := by
  obtain ⟨first, hfirst, hside⟩ := h
  exact ⟨first, firstIn_append_of_some hfirst, hside⟩

theorem of_eq (h : FirstEntry trades p) (hid : p'.id = p.id) (hside : p'.side = p.side) :
    FirstEntry trades p' := by
  rw [FirstEntry, hid, hside]
  exact h

/-- A trade in a position gives back if it is not on the entry side. -/
theorem givesBack_eq (h : FirstEntry trades p) (hid : t.positionId = some p.id) :
    t.givesBack trades = decide (p.side.entrySide ≠ t.side) := by
  obtain ⟨first, hfirst, hside⟩ := h
  rw [Trade.givesBack, hid, hfirst, Option.any_some, hside]

end FirstEntry

end Histories

namespace Meets

variable {order : Order} {request : OrderRequest} {price commission : Decimal} {now : Instant}
  {newId : ℕ} {before after : Option Position} {legs : List Leg} {trades : List Trade}

/-- A leg is in the position that it tells of, and gives back if the order is not on the entry side
of that position. -/
theorem leg_cases (h : Meets order request price commission now newId before legs after)
    {leg : Leg} (hleg : leg ∈ legs) :
    leg.trade.positionId = some leg.position.id ∧ leg.trade.side = order.side ∧
      leg.change.realizesPnl = decide (leg.position.side.entrySide ≠ order.side) := by
  -- an entry is on the side of the order, and what gives back is on the other
  have henters {p : Position} (side : p.side.entrySide = order.side) :
      false = decide (p.side.entrySide ≠ order.side) := (decide_eq_false (not_not.mpr side)).symm
  have hgives {p p' : Position} (side : p.side.entrySide ≠ order.side) (heq : p'.side = p.side) :
      true = decide (p'.side.entrySide ≠ order.side) := by
    rw [heq]
    exact (decide_eq_true side).symm
  cases h with
  | opens =>
    rw [List.mem_singleton.mp hleg]
    exact ⟨rfl, rfl, henters (PositionSide.entrySide_ofOrderSide _)⟩
  | increases side increased =>
    rw [List.mem_singleton.mp hleg]
    refine ⟨rfl, rfl, henters ?_⟩
    exact (congrArg _ (Position.id_side_increased increased).2).trans side
  | reduces side _ reduced | closes side _ reduced =>
    rw [List.mem_singleton.mp hleg]
    exact ⟨rfl, rfl, hgives side (Position.id_side_reduced reduced).2⟩
  | flips side _ reduced =>
    rcases List.mem_pair.mp hleg with rfl | rfl
    · exact ⟨rfl, rfl, hgives side (Position.id_side_reduced reduced).2⟩
    · exact ⟨rfl, rfl, henters (PositionSide.entrySide_ofOrderSide _)⟩

/-- A leg is traded at the time of its order, and one that enters realizes nothing. -/
theorem dated_leg (h : Meets order request price commission now newId before legs after)
    {leg : Leg} (hleg : leg ∈ legs) : leg.event.Dated [now] := by
  suffices hdated : leg.trade.executedAt = now ∧
      (leg.change.realizesPnl = false → leg.trade.realizedPnl = 0) by
    intro t ht
    obtain rfl : leg.trade = t := Option.some.inj ht
    refine ⟨List.mem_singleton.mpr hdated.1, fun hexit => hdated.2 ?_⟩
    have hexit : (if leg.change.realizesPnl then some leg.trade else none) = none := hexit
    exact Bool.eq_false_iff.mpr fun hrealizes => by simp [hrealizes] at hexit
  cases h with
  | opens | increases =>
    rw [List.mem_singleton.mp hleg]
    exact ⟨rfl, fun _ => rfl⟩
  | reduces | closes =>
    rw [List.mem_singleton.mp hleg]
    exact ⟨rfl, nofun⟩
  | flips =>
    rcases List.mem_pair.mp hleg with rfl | rfl
    · exact ⟨rfl, nofun⟩
    · exact ⟨rfl, fun _ => rfl⟩

/-- The position that an order leaves is that of its last leg. -/
theorem exists_leg_of_after (h : Meets order request price commission now newId before legs after)
    {p : Position} (hp : p ∈ after) : ∃ leg ∈ legs, leg.position = p := by
  cases h with
  | opens | increases | reduces =>
    cases hp
    exact ⟨_, List.mem_singleton_self _, rfl⟩
  | closes => cases hp
  | flips =>
    cases hp
    exact ⟨_, List.mem_pair.mpr (.inr rfl), rfl⟩

/-- A position that is opened has its first trade in it. -/
theorem firstEntry_opened {id : Uuid} {quantity share : Decimal} {earlier : List Trade}
    (hnone : firstIn earlier (some newId) = none) :
    FirstEntry (earlier ++ [(order.leg .opened (.opened newId order request quantity price now) id
      quantity price share 0 now).trade]) (.opened newId order request quantity price now) := by
  refine ⟨_, (firstIn_append_of_none hnone).trans (List.find?_cons_of_pos (decide_eq_true rfl)), ?_⟩
  exact (PositionSide.entrySide_ofOrderSide order.side).symm

/-- Every leg of an order is in a position that has its first trade on its entry side. -/
theorem firstEntry_leg (h : Meets order request price commission now newId before legs after)
    (hnew : firstIn trades (some newId) = none) (hbefore : ∀ p ∈ before, FirstEntry trades p)
    {leg : Leg} (hleg : leg ∈ legs) :
    FirstEntry (trades ++ legs.map Leg.trade) leg.position := by
  cases h with
  | opens =>
    rw [List.mem_singleton.mp hleg]
    exact firstEntry_opened hnew
  | increases _ increased =>
    obtain ⟨hid, hside⟩ := Position.id_side_increased increased
    rw [List.mem_singleton.mp hleg]
    exact ((hbefore _ rfl).of_eq hid hside).append _
  | reduces _ _ reduced | closes _ _ reduced =>
    obtain ⟨hid, hside⟩ := Position.id_side_reduced reduced
    rw [List.mem_singleton.mp hleg]
    exact ((hbefore _ rfl).of_eq hid hside).append _
  | @flips p p' _ _ _ _ _ _ _ reduced =>
    obtain ⟨hid, hside⟩ := Position.id_side_reduced reduced
    have hp : FirstEntry trades p' := (hbefore _ rfl).of_eq hid hside
    rcases List.mem_pair.mp hleg with rfl | rfl
    · exact hp.append _
    · -- the trade that gives back is in another position than the new one
      have hne : ¬ some p'.id = some newId := by
        intro heq
        obtain ⟨first, hfirst, -⟩ := hp
        rw [heq, hnew] at hfirst
        exact nomatch hfirst
      rw [List.map_cons, List.append_cons]
      refine firstEntry_opened ((firstIn_append_of_none hnew).trans ?_)
      exact List.find?_cons_of_neg (mt of_decide_eq_true hne)

/-- The legs of an order that give back are those whose trades do. -/
theorem givesBack_leg (h : Meets order request price commission now newId before legs after)
    (hnew : firstIn trades (some newId) = none) (hbefore : ∀ p ∈ before, FirstEntry trades p)
    {leg : Leg} (hleg : leg ∈ legs) :
    leg.trade.givesBack (trades ++ legs.map Leg.trade) = leg.change.realizesPnl := by
  obtain ⟨hid, hside, hrealizes⟩ := h.leg_cases hleg
  rw [(h.firstEntry_leg hnew hbefore hleg).givesBack_eq hid, hside, hrealizes]

end Meets

namespace Ledger

variable {l l' l₁ l₂ : Ledger} {request : OrderRequest} {price notional commission : Decimal}
  {now : Instant} {legs : List Leg} {told told' : List LedgerEvent} {t : Turn} {ts ts' : List Turn}
  {time : Option Instant} {execution : Option Execution}

/-- The trades of the account that gave back a part of a position, or all of it. -/
def exitTrades (l : Ledger) : List Trade := exitsIn (l.tradeList none)

/-! ## Positions and their first trades -/

/-- Every open position has its first trade, on its entry side; ids that were not given are in no
trade. -/
structure Entered (l : Ledger) : Prop where
  given : l.TradesGiven
  firstEntry : ∀ {s p}, l.positions.get? s = some p → FirstEntry l.trades p

theorem entered_new (account : AccountSettings) (firstId : Uuid) (listened : Bool) :
    (new account firstId listened).Entered :=
  ⟨List.forall_mem_nil _, fun hp => absurd hp (Option.some_ne_none _).symm⟩

theorem Entered.quiet (he : l.Entered) (h : l.Quiet l') : l'.Entered where
  given := by
    rw [TradesGiven, h.trades_eq, h.nextPositionId_eq]
    exact he.given
  firstEntry hp' := by
    obtain ⟨p, hp, hholding⟩ := h.get?_eq_some hp'
    obtain ⟨hid, -, hside, -⟩ := Position.holding_eq_iff.mp hholding
    rw [h.trades_eq]
    exact (he.firstEntry hp).of_eq hid hside

theorem TradesGiven.firstIn_eq_none (hgiven : l.TradesGiven) :
    firstIn l.trades (some l.nextPositionId) = none := by
  refine List.find?_eq_none.mpr fun t ht heq => ?_
  exact Nat.lt_irrefl _ (hgiven t ht _ (of_decide_eq_true heq))

/-- The trades of an order that give back are those that its events tell as giving back. -/
theorem filter_givesBack_legs {trades : List Trade}
    (h : ∀ leg ∈ legs, leg.trade.givesBack trades = leg.change.realizesPnl) :
    (legs.map Leg.trade).filter (Trade.givesBack trades) =
      (legs.map Leg.event).filterMap LedgerEvent.exit? := by
  induction legs with
  | nil => rfl
  | cons leg legs ih =>
    obtain ⟨hleg, hlegs⟩ := List.forall_mem_cons.mp h
    have hexit : leg.event.exit? = if leg.change.realizesPnl then some leg.trade else none := rfl
    rw [List.map_cons, List.map_cons, List.filter_cons, List.filterMap_cons, hleg, hexit, ih hlegs]
    cases leg.change.realizesPnl <;> rfl

theorem Entered.filled (he : l.Entered) (hl : l.Consistent)
    (h : l.Filled request price notional commission now legs l') : l'.Entered where
  given := he.given.filled hl h
  firstEntry := by
    intro s p hp
    rw [h.trades_eq]
    -- other symbols keep their positions, and so their first trades
    by_cases hs : s = request.symbol
    · subst hs
      obtain ⟨leg, hleg, rfl⟩ := h.meets.exists_leg_of_after hp
      exact h.meets.firstEntry_leg he.given.firstIn_eq_none (fun _ hp => he.firstEntry hp) hleg
    · rw [h.get?_other s hs] at hp
      exact (he.firstEntry hp).append _

theorem Entered.exitTrades_filled (he : l.Entered)
    (h : l.Filled request price notional commission now legs l') :
    l'.exitTrades = l.exitTrades ++ (legs.map Leg.event).filterMap LedgerEvent.exit? := by
  show exitsIn l'.trades = exitsIn l.trades ++ _
  rw [h.trades_eq, exitsIn_append]
  congr 1
  exact filter_givesBack_legs fun leg hleg =>
    h.meets.givesBack_leg he.given.firstIn_eq_none (fun _ hp => he.firstEntry hp) hleg

/-! ## What turns tell -/

/-- These events were told by some turns, of all the trades that were made.  A trade is made at the
time of its turn, and at most one trade of a turn gives back. -/
structure Tells (l : Ledger) (ts : List Turn) (told : List LedgerEvent) (l' : Ledger) : Prop where
  events_eq : l'.events = l.events.map (· ++ told)
  trades_eq : l'.trades = l.trades ++ told.filterMap LedgerEvent.trade?
  exitTrades_eq : l'.exitTrades = l.exitTrades ++ told.filterMap LedgerEvent.exit?
  length_le : (told.filterMap LedgerEvent.exit?).length ≤ ts.length
  dated : ∀ event ∈ told, event.Dated (ts.filterMap Turn.time?)

namespace Tells

theorem refl (l : Ledger) : l.Tells [] [] l where
  events_eq := (map_append_nil _).symm
  trades_eq := (List.append_nil _).symm
  exitTrades_eq := (List.append_nil _).symm
  length_le := le_rfl
  dated := List.forall_mem_nil _

theorem trans (h₁ : l.Tells ts told l₁) (h₂ : l₁.Tells ts' told' l₂) :
    l.Tells (ts ++ ts') (told ++ told') l₂ where
  events_eq := by
    rw [h₂.events_eq, h₁.events_eq, map_append_append]
  trades_eq := by rw [h₂.trades_eq, h₁.trades_eq, List.filterMap_append, List.append_assoc]
  exitTrades_eq := by
    rw [h₂.exitTrades_eq, h₁.exitTrades_eq, List.filterMap_append, List.append_assoc]
  length_le := by
    rw [List.filterMap_append, List.length_append, List.length_append]
    exact Nat.add_le_add h₁.length_le h₂.length_le
  dated := by
    rw [List.filterMap_append]
    intro event hevent
    rcases List.mem_append.mp hevent with hevent | hevent
    · exact (h₁.dated event hevent).mono (List.subset_append_left ..)
    · exact (h₂.dated event hevent).mono (List.subset_append_right ..)

end Tells

theorem exitTrades_eq_of_trades_eq (h : l'.trades = l.trades) : l'.exitTrades = l.exitTrades :=
  congrArg exitsIn h

/-- An order gives back at most once. -/
theorem length_exits_legs_le {order : Order} {newId : ℕ} {before after : Option Position}
    (h : Meets order request price commission now newId before legs after) :
    ((legs.map Leg.event).filterMap LedgerEvent.exit?).length ≤ 1 := by
  cases h with
  | opens | increases => exact Nat.zero_le 1
  | reduces | closes | flips => exact Nat.le_refl 1

/-- The trades that a turn tells of are made at its time. -/
theorem Told.dated (h : l.Told time execution told l') :
    ∀ event ∈ told, event.Dated time.toList := by
  cases h with
  | remarked remarked => exact dated_of_trades_eq_nil remarked.tells_nothing.1
  | exitSet => exact dated_of_trades_eq_nil rfl
  | filled time_eq remarked filled _ =>
    subst time_eq
    intro event hevent
    rcases List.mem_append.mp hevent with hevent | hevent
    · exact dated_of_trades_eq_nil remarked.tells_nothing.1 event hevent
    · rcases List.mem_append.mp hevent with hevent | hevent
      · obtain ⟨leg, hleg, rfl⟩ := List.mem_map.mp hevent
        exact filled.meets.dated_leg hleg
      · exact dated_of_trades_eq_nil rfl event hevent

/-- What a turn tells. -/
theorem Entered.tells (he : l.Entered) (hl : l.Consistent) (h : l.Told t.time? execution told l') :
    l'.Entered ∧ l.Tells [t] told l' := by
  have hdated : ∀ event ∈ told, event.Dated ([t].filterMap Turn.time?) := by
    have htimes : [t].filterMap Turn.time? = t.time?.toList := by
      cases htime : t.time? <;> simp [htime]
    rw [htimes]
    exact h.dated
  suffices hexits : l'.Entered ∧ l'.exitTrades = l.exitTrades ++ told.filterMap LedgerEvent.exit? ∧
      (told.filterMap LedgerEvent.exit?).length ≤ 1 by
    exact ⟨hexits.1, h.events_eq, h.trades_eq, hexits.2.1, hexits.2.2, hdated⟩
  cases h with
  | remarked remarked =>
    rw [exits_eq_nil remarked.tells_nothing.1, List.append_nil]
    exact ⟨he.quiet remarked.quiet, exitTrades_eq_of_trades_eq remarked.quiet.trades_eq,
      Nat.zero_le 1⟩
  | exitSet kind price now get? =>
    have hquiet := Quiet.insert get? (Position.holding_withExit _ kind price now)
    exact ⟨he.quiet (hquiet.trans (.emit _ _)), (List.append_nil _).symm, Nat.zero_le 1⟩
  | @filled exit _ l₁ _ _ _ _ _ _ legs _ remarked filled _ =>
    -- the event of the order tells of no trade
    have htold (order : Order) : (exit.toList ++ (legs.map Leg.event ++
        [LedgerEvent.orderFilled order])).filterMap LedgerEvent.exit? =
          (legs.map Leg.event).filterMap LedgerEvent.exit? := by
      rw [List.filterMap_append, List.filterMap_append, exits_eq_nil remarked.tells_nothing.1]
      exact List.append_nil _
    have he₁ := he.quiet remarked.quiet
    rw [htold]
    refine ⟨he₁.filled (hl.quiet remarked.quiet) filled, ?_, length_exits_legs_le filled.meets⟩
    rw [he₁.exitTrades_filled filled, exitTrades_eq_of_trades_eq remarked.quiet.trades_eq]

/-- What all runs of turns tell. -/
theorem Consistent.tells_turns (hl : l.Consistent) (he : l.Entered) {ts : List Turn}
    (h : l.turns ts = .ok l') :
    l'.Consistent ∧ l'.Entered ∧ ∃ told, l.Tells ts told l' := by
  induction ts generalizing l with
  | nil =>
    obtain rfl : l = l' := pure_eq_ok.mp h
    exact ⟨hl, he, [], .refl l⟩
  | cons t ts ih =>
    rw [Ledger.turns, List.foldlM_cons, bind_eq_ok] at h
    obtain ⟨l₁, hturn, hrest⟩ := h
    have hl₁ := (hl.moved_turn hturn).consistent hl
    simp only [turn_eq, bind_eq_ok, pure_eq_ok] at hturn
    obtain ⟨⟨l₁, execution⟩, hrespond, rfl⟩ := hturn
    obtain ⟨told, htold⟩ := hl.told_respond hrespond
    obtain ⟨he₁, htells⟩ := he.tells hl htold
    obtain ⟨hl', he', told', htells'⟩ := ih hl₁ he₁ hrest
    exact ⟨hl', he', told ++ told', htells.trans htells'⟩

end Ledger

end SimBroker
