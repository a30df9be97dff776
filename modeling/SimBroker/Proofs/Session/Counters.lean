import SimBroker.Proofs.Broadcast.Dropped
import SimBroker.Proofs.Session.Delivery
import SimBroker.Proofs.Session.Signals
import SimBroker.Proofs.Session.Violations

/-!
# Counters and what they count

The ledger counts fills by side, the risk manager rejections by reason and halts by kind, and the
hub the subscribers that it drops.  Each count is kept apart from the list of what it counts, and
from the place where that happens.  Along every run of a session, with any calls and with the
commands of subscribers between them, the counts are those of the lists.

## Main definitions

* `Move`, `runMoves`: calls, and commands to the hub between them
* `recordedAlong`, `removedAlong`: what moves record, and whom their messages remove
* `Reconciled`: the counts have grown by what was recorded and by who was removed

## Main results

* `AtRest.reconciled_move`, `AtRest.reconciled_runMoves`: what a move, and what a run of moves,
  adds to the counts
* `counters_reconcile`: the counts after every run of a new session
-/

namespace SimBroker

theorem RiskDecision.haltsFor_violationKind_iff {decision : RiskDecision} :
    decision.haltsFor HaltReason.violationKind ↔
      ∃ what, decision = .halted (.invariantViolation what) := by
  cases decision with
  | halted reason =>
    rw [haltsFor, decide_eq_true_eq, HaltReason.kind_eq_violationKind_iff]
    simp only [halted.injEq]
  | _ => simp [haltsFor]

namespace Session

open Session.Action

variable {β : Type} {s s' s₁ s₂ : Session} {limits : RiskSettings} {move : Move}
  {moves : List Move} {es es' : List RiskEvent} {gone gone' : List (Subscriber Message)}

/-! ## Moves -/

/-- What is done with a session: a call, or a command to its hub. -/
inductive Move where
  | call (call : Call) (clock : Clock)
  | command (command : Hub.Command Message)

/-- Carries out a move. -/
def act : Move → Action Unit
  | .call call clock => perform call clock
  | .command c => modify fun s => { s with hub := s.hub.step c }

/-- Carries out moves in order. -/
def runMoves (moves : List Move) : Action Unit := moves.forM act

/-- What a move adds to the log of the risk manager. -/
def Move.recorded (s : Session) : Move → List RiskEvent
  | .call c clock => Session.recorded c clock s
  | .command _ => []

/-- The subscribers that the messages of a move remove, on the way from one session to another. -/
def Move.removed (s s' : Session) : Move → List (Subscriber Message)
  | .call _ _ => s.hub.gone s'.hub
  | .command c => s.hub.goneBy c

/-- All that `f` says of the moves of a run, each with the sessions before and after it. -/
def along (f : Session → Session → Move → List β) : List Move → Session → List β
  | [], _ => []
  | move :: moves, s =>
    ((ended? (act move) s).map fun s' => f s s' move ++ along f moves s').getD []

theorem along_cons {f : Session → Session → Move → List β} {u : Unit}
    (h : (act move).run s = .ok u s₁) :
    along f (move :: moves) s = f s s₁ move ++ along f moves s₁ := by
  rw [along, ended?_eq_some.mpr ⟨u, h⟩]
  rfl

/-- What moves add to the log of the risk manager. -/
def recordedAlong (moves : List Move) (s : Session) : List RiskEvent :=
  along (fun s _ move => move.recorded s) moves s

/-- The subscribers that the messages of moves remove. -/
def removedAlong (moves : List Move) (s : Session) : List (Subscriber Message) :=
  along (fun s s' move => move.removed s s') moves s

/-! ## Counts -/

/-- The counts have grown by what was recorded and by who was removed.  Orders were counted as
fills, but for one at most for each halt for a violation. -/
structure Reconciled (s : Session) (es : List RiskEvent) (gone : List (Subscriber Message))
    (s' : Session) : Prop extends s.risk.Counts es s'.risk where
  fills : ∃ missed, s.ledger.Tallied missed s'.ledger ∧
    missed ≤ es.countP (·.decision.haltsFor HaltReason.violationKind)
  dropped_eq : s'.hub.dropped = s.hub.dropped + gone.length

namespace Reconciled

theorem refl (s : Session) : s.Reconciled [] [] s where
  toCounts := .of_eq rfl rfl
  fills := ⟨0, .refl _, Nat.zero_le _⟩
  dropped_eq := rfl

theorem trans (h : s.Reconciled es gone s₁) (h' : s₁.Reconciled es' gone' s₂) :
    s.Reconciled (es ++ es') (gone ++ gone') s₂ where
  toCounts := h.toCounts.trans h'.toCounts
  fills := by
    obtain ⟨missed, htallied, hmissed⟩ := h.fills
    obtain ⟨missed', htallied', hmissed'⟩ := h'.fills
    refine ⟨missed + missed', htallied.trans htallied', ?_⟩
    rw [List.countP_append]
    exact Nat.add_le_add hmissed hmissed'
  dropped_eq := by
    rw [h'.dropped_eq, h.dropped_eq, List.length_append, Nat.add_assoc]

end Reconciled

/-- A call counts what it records. -/
theorem AtRest.reconciled_perform {call : Call} {clock : Clock} {u : Unit} (hs : s.AtRest limits)
    (h : (perform call clock).run s = .ok u s') :
    s.Reconciled (recorded call clock s) (s.hub.gone s'.hub) s' := by
  -- with an empty log, which the call does not fill
  obtain ⟨t, ms, hunlogged, hrecorded, hrun⟩ := perform_unlogged hs.length_le h
  obtain ⟨-, rfl⟩ := EStateM.Result.ok.inj (h.symm.trans (hrun s.hub))
  have howes := pays_perform call clock _ _ _ _ (.refl (hs.unlogged s.hub).consistent)
    (hunlogged s.hub)
  have hlength : t.risk.events.length < maxRiskEvents :=
    hrecorded ▸ hs.length_recorded_lt call clock
  have hcounts : s.unlogged.risk.Counts t.risk.events t.risk :=
    howes.risk.counts_of_events rfl hlength
  rw [hrecorded]
  refine ⟨⟨hcounts.rejections_eq, hcounts.halts_eq⟩, ?_, Hub.dropped_messages s.hub ms⟩
  -- the halts for what is missing are among those recorded
  obtain ⟨missed, htallied, hmissed⟩ := howes.fills
  have hpaid : missed + s.unlogged.violationHalts ≤ t.violationHalts := hmissed
  rw [violationHalts, violationHalts, hcounts.halts_eq, Nat.add_comm] at hpaid
  exact ⟨missed, htallied, Nat.le_of_add_le_add_left hpaid⟩

theorem AtRest.reconciled_move {u : Unit} (hs : s.AtRest limits)
    (h : (act move).run s = .ok u s') :
    s'.AtRest limits ∧ s.Reconciled (move.recorded s) (move.removed s s') s' := by
  cases move with
  | call call clock => exact ⟨(hs.passedOn_perform h).atRest, hs.reconciled_perform h⟩
  | command c =>
    obtain rfl := modify_eq_ok.mp h
    exact ⟨{ hs with }, .of_eq rfl rfl, ⟨0, .of_eq rfl rfl, Nat.zero_le _⟩, s.hub.dropped_step c⟩

/-- A run of moves counts what they record and whom their messages remove. -/
theorem AtRest.reconciled_runMoves {u : Unit} (hs : s.AtRest limits)
    (h : (runMoves moves).run s = .ok u s') :
    s.Reconciled (recordedAlong moves s) (removedAlong moves s) s' := by
  induction moves generalizing s with
  | nil =>
    obtain ⟨-, rfl⟩ := pure_eq_ok.mp h
    exact .refl s
  | cons move moves ih =>
    obtain ⟨_, s₁, hact, hmoves⟩ := bind_eq_ok.mp h
    obtain ⟨hs₁, hmove⟩ := hs.reconciled_move hact
    rw [recordedAlong, removedAlong, along_cons hact, along_cons hact]
    exact hmove.trans (ih hs₁ hmoves)

theorem counts_new {settings : Settings} {hub : Hub Message} {firstId : Uuid} {clock : Clock}
    (h : new settings hub firstId clock = .ok s) :
    s.ledger.orders = [] ∧ s.ledger.fills = {} ∧ s.risk.rejections = {} ∧ s.risk.halts = {} ∧
      s.hub = hub := by
  simp only [new, Calc.bind_eq_ok, Calc.pure_eq_ok] at h
  obtain ⟨account, -, risk, -, rfl⟩ := h
  exact ⟨rfl, rfl, rfl, rfl, rfl⟩

/-- After every run of a new session, with any calls and any commands to the hub between them:

* on each side there are no more orders than fills were counted, but for one at most for each halt
  for a violated invariant; so there are as many where no such halt was recorded;
* rejections are counted by the reasons with which they were recorded, and halts by the kinds;
* the hub has counted the subscribers that a message has removed. -/
theorem counters_reconcile (settings : Settings) (hub : Hub Message) (firstId : Uuid)
    (begin : Clock) (moves : List Move) {s₀ s : Session}
    (hnew : new settings hub firstId begin = .ok s₀)
    (hrun : (runMoves moves).run s₀ = .ok () s) :
    (∀ side, s.ledger.fills.count side ≤ s.ledger.ordersOn side ∧
      s.ledger.ordersOn side ≤ s.ledger.fills.count side + s.violationHalts) ∧
    ((∀ e ∈ recordedAlong moves s₀, ∀ what, e.decision ≠ .halted (.invariantViolation what)) →
      ∀ side, s.ledger.fills.count side = s.ledger.ordersOn side) ∧
    (∀ reason, s.risk.rejections.count reason =
      (recordedAlong moves s₀).countP (·.decision.rejects reason)) ∧
    (∀ kind, s.risk.halts.count kind =
      (recordedAlong moves s₀).countP (·.decision.haltsFor kind)) ∧
    s.hub.dropped = hub.dropped + (removedAlong moves s₀).length := by
  have hreconciled := (atRest_new hnew).1.reconciled_runMoves hrun
  obtain ⟨horders, hfills, hrejections, hhalts, hhub⟩ := counts_new hnew
  have hrejected (reason : RejectReason) : s.risk.rejections.count reason =
      (recordedAlong moves s₀).countP (·.decision.rejects reason) := by
    rw [hreconciled.rejections_eq, hrejections]
    exact Nat.zero_add _
  have hhalted (kind : String) : s.risk.halts.count kind =
      (recordedAlong moves s₀).countP (·.decision.haltsFor kind) := by
    rw [hreconciled.halts_eq, hhalts]
    exact Nat.zero_add _
  -- a new session has no orders, and has counted no fills
  have hcounted (side : OrderSide) : s.ledger.fills.count side ≤ s.ledger.ordersOn side ∧
      s.ledger.ordersOn side ≤ s.ledger.fills.count side + s.violationHalts := by
    obtain ⟨missed, htallied, hmissed⟩ := hreconciled.fills
    have hnone : s₀.ledger.ordersOn side = 0 ∧ s₀.ledger.fills.count side = 0 := by
      rw [Ledger.ordersOn, horders, hfills]
      exact ⟨rfl, rfl⟩
    have hle := htallied.fills_le side
    have hge := htallied.orders_le side
    rw [violationHalts, hhalted]
    omega
  refine ⟨hcounted, fun hnone side => ?_, hrejected, hhalted, hhub ▸ hreconciled.dropped_eq⟩
  have hzero : s.violationHalts = 0 := by
    rw [violationHalts, hhalted, List.countP_eq_zero]
    intro e he hviolation
    obtain ⟨what, hdecision⟩ := RiskDecision.haltsFor_violationKind_iff.mp hviolation
    exact hnone e he what hdecision
  have hside := hcounted side
  omega

/-- Half of the balance is put in a position and loses a fifth of its value, a signal for one more
entry comes, and the position is closed. -/
def mixedCalls : List (Call × Clock) :=
  losingCalls ++ [(.signal buySignal, default), (.close 1, default)]

/-- The calls, with a subscriber that has room for one message. -/
def mixedMoves : List Move :=
  .command (.subscribe (some 1)) :: mixedCalls.map fun c => .call c.1 c.2

/-- One fill on each side, one rejection, one halt and one subscriber dropped are counted. -/
theorem counters_reconcile_mixed : ∃ s₀ s,
    new freeSettings (.new 1) default default = .ok s₀ ∧
    (runMoves mixedMoves).run s₀ = .ok () s ∧
    (∀ e ∈ recordedAlong mixedMoves s₀, ∀ what, e.decision ≠ .halted (.invariantViolation what)) ∧
    s.ledger.fills.count .buy = 1 ∧ s.ledger.fills.count .sell = 1 ∧
    s.risk.rejections.count .symbolLimitExceeded = 1 ∧ s.risk.halts.count "max_daily_loss" = 1 ∧
    s.hub.dropped = 1 := by
  have hmoves : ((new freeSettings (.new 1) default default).toOption.bind fun s₀ =>
      (ended? (runMoves mixedMoves) s₀).map fun s =>
        (s.ledger.orders.map Order.side, (recordedAlong mixedMoves s₀).map RiskEvent.decision,
          (removedAlong mixedMoves s₀).length)) =
      some ([.buy, .sell], [.rejected .symbolLimitExceeded "A",
        .halted (.maxDailyLossReached (.lit 10 2))], 1) := by decide +kernel
  obtain ⟨s₀, hnew, h⟩ := Calc.exists_eq_ok hmoves
  obtain ⟨s, hended, h⟩ := Option.map_eq_some_iff.mp h
  obtain ⟨⟨⟩, hrun⟩ := ended?_eq_some.mp hended
  simp only [Prod.mk.injEq] at h
  obtain ⟨horders, hrecorded, hremoved⟩ := h
  obtain ⟨-, hfills, hrejections, hhalts, hdropped⟩ :=
    counters_reconcile freeSettings (.new 1) default default mixedMoves hnew hrun
  have hnone : ∀ e ∈ recordedAlong mixedMoves s₀, ∀ what,
      e.decision ≠ .halted (.invariantViolation what) := by
    intro e he what hdecision
    have hmem : e.decision ∈ (recordedAlong mixedMoves s₀).map RiskEvent.decision :=
      List.mem_map_of_mem he
    rw [hrecorded, hdecision] at hmem
    simp at hmem
  -- what was recorded and whom it removed is known, so the counts are
  have hside (side : OrderSide) : s.ledger.fills.count side =
      [OrderSide.buy, .sell].countP (· = side) := by
    rw [hfills hnone, Ledger.ordersOn, ← horders, List.countP_map]
    rfl
  have hdecisions (p : RiskDecision → Bool) :
      (recordedAlong mixedMoves s₀).countP (p ·.decision) =
        [.rejected .symbolLimitExceeded "A", .halted (.maxDailyLossReached (.lit 10 2))].countP
          p := by
    rw [← hrecorded, List.countP_map]
    rfl
  refine ⟨s₀, s, hnew, hrun, hnone, hside .buy, hside .sell, ?_, ?_, ?_⟩
  · rw [hrejections, hdecisions]
    rfl
  · rw [hhalts, hdecisions]
    decide
  · rw [hdropped, hremoved]
    rfl

end Session

end SimBroker
