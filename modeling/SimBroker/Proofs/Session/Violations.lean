import SimBroker.Proofs.Ledger.FillCounts
import SimBroker.Proofs.Risk.Counters
import SimBroker.Proofs.Session.Call

/-!
# Orders that are not counted

The ledger counts an order as a fill unless something is wrong with the book after it, and then it
answers with a violation.  The session halts for every violation, so the orders that were not
counted are no more than the halts for violations.  While a call has such an answer and has not
handled it, it *owes* the halt; at its end it owes none.

## Main definitions

* `Owes`: orders may be missing in the counts, for which the session has not halted yet
* `Pays`: an action that leaves so many of them

## Main results

* `Pays.bind`, `Pays.get`: an action pays if its parts do
* `pays_onLedger`, `pays_handleError`: what an operation of the ledger owes, and what pays for it
* `pays_perform`: a call halts for every order that it accepts and does not count
-/

namespace SimBroker

open Ledger (errorOf violations)

namespace Session

open Session.Action

variable {α β : Type} {s₀ s s' s₁ s₂ : Session} {n n' : ℕ} {now : Instant}

/-! ## Orders that are not counted -/

/-- How often the session was halted for a violated invariant. -/
def violationHalts (s : Session) : ℕ := s.risk.halts.count HaltReason.violationKind

/-- The session since `s₀`: the manager has counted what it has logged, and the ledger its orders,
but for one for each halt for a violation, and for at most `n` more. -/
structure Owes (s₀ : Session) (n : ℕ) (s : Session) : Prop where
  consistent : s.ledger.Consistent
  risk : s₀.risk.Tells s.risk
  fills : ∃ missed, s₀.ledger.Tallied missed s.ledger ∧
    missed + s₀.violationHalts ≤ s.violationHalts + n

namespace Owes

theorem refl (h : s.ledger.Consistent) : Owes s 0 s :=
  ⟨h, .refl _, 0, .refl _, Nat.le_of_eq (Nat.zero_add _)⟩

theorem mono (h : Owes s₀ n s) (hn : n ≤ n') : Owes s₀ n' s := by
  obtain ⟨missed, htallied, hmissed⟩ := h.fills
  exact ⟨h.consistent, h.risk, missed, htallied, hmissed.trans (Nat.add_le_add_left hn _)⟩

/-- What the manager does, whatever it is, leaves no more to be counted. -/
theorem of_ledger_eq (h : Owes s₀ n s) (hledger : s'.ledger = s.ledger)
    (hrisk : s.risk.Tells s'.risk) : Owes s₀ n s' := by
  obtain ⟨missed, htallied, hmissed⟩ := h.fills
  refine ⟨hledger ▸ h.consistent, h.risk.trans hrisk, missed, hledger ▸ htallied, ?_⟩
  have hhalts : s.violationHalts ≤ s'.violationHalts := hrisk.halts_le _
  omega

theorem logged {trades : List Trade} {risks : List RiskEvent} (h : Owes s₀ n s)
    (hlogged : s.Logged trades risks s') : Owes s₀ n s' := by
  refine h.of_ledger_eq hlogged.ledger_eq ?_
  rw [hlogged.risk_eq]
  exact .refl _

/-- A halt for a violation pays for an order that was not counted. -/
theorem halted {what : String} (h : Owes s₀ (n + 1) s) (hledger : s'.ledger = s.ledger)
    (hrisk : s'.risk = s.risk.halt (.invariantViolation what) now) : Owes s₀ n s' := by
  obtain ⟨missed, htallied, hmissed⟩ := h.fills
  refine ⟨hledger ▸ h.consistent, ?_, missed, hledger ▸ htallied, ?_⟩
  · rw [hrisk]
    exact h.risk.trans (RiskManager.tells_halt ..)
  · have hone : s'.violationHalts = s.violationHalts + 1 := by
      rw [violationHalts, hrisk, (RiskManager.counts_halt ..).halts_eq]
      rfl
    omega

/-- Orders that the book does not count are owed. -/
theorem withLedger {ledger : Ledger} (h : Owes s₀ n s) (hconsistent : ledger.Consistent)
    (htallied : s.ledger.Tallied n' ledger) : Owes s₀ (n + n') { s with ledger } := by
  obtain ⟨missed, htallied₀, hmissed⟩ := h.fills
  refine ⟨hconsistent, h.risk, missed + n', htallied₀.trans htallied, ?_⟩
  show missed + n' + s₀.violationHalts ≤ s.violationHalts + (n + n')
  omega

end Owes

/-- An action that finds at most `n` orders to be counted or halted for leaves at most so many as is
due by its answer. -/
def Pays (n : ℕ) (x : Action α) (due : α → ℕ) : Prop :=
  ∀ s₀ s a s', Owes s₀ n s → x.run s = .ok a s' → Owes s₀ (due a) s'

namespace Pays

variable {due : α → ℕ} {due' : β → ℕ}

theorem pure {a : α} (h : n ≤ due a) : Pays n (pure a) due := by
  intro s₀ s b s' hs hrun
  obtain ⟨rfl, rfl⟩ := pure_eq_ok.mp hrun
  exact hs.mono h

theorem bind {x : Action α} {f : α → Action β} (hx : Pays n x due)
    (hf : ∀ a, Pays (due a) (f a) due') : Pays n (x >>= f) due' := by
  intro s₀ s b s' hs hrun
  obtain ⟨a, s₁, hrun₁, hrun₂⟩ := bind_eq_ok.mp hrun
  exact hf a _ _ _ _ (hx _ _ _ _ hs hrun₁) hrun₂

theorem get {f : Session → Action α} (h : ∀ s, Pays n (f s) due) : Pays n (get >>= f) due := by
  intro s₀ s a s' hs hrun
  obtain ⟨_, _, hget, hrun⟩ := bind_eq_ok.mp hrun
  obtain ⟨rfl, rfl⟩ := get_eq_ok.mp hget
  exact h s _ _ _ _ hs hrun

theorem modify {f : Session → Session} (hledger : ∀ s, (f s).ledger = s.ledger)
    (hrisk : ∀ s : Session, s.risk.Tells (f s).risk) : Pays n (modify f) fun _ => n := by
  intro s₀ s u s' hs hrun
  obtain rfl := modify_eq_ok.mp hrun
  exact hs.of_ledger_eq (hledger s) (hrisk s)

theorem ite {c : Prop} [Decidable c] {x y : Action α} (hx : Pays n x due) (hy : Pays n y due) :
    Pays n (if c then x else y) due := by
  split
  · exact hx
  · exact hy

theorem discard {x : Action α} (hx : Pays n x fun _ => n') : Pays n (discard x) fun _ => n' := by
  intro s₀ s u s' hs hrun
  obtain ⟨a, hrun⟩ := discard_eq_ok.mp hrun
  exact hx _ _ _ _ hs hrun

theorem forEach {k : ℕ} {f : α → Clock → Action Unit}
    (hf : ∀ a clock, Pays n (f a clock) fun _ => n) (xs : List α) (clock : Clock) :
    Pays n (Session.forEach k f xs clock) fun _ => n := by
  induction xs generalizing clock with
  | nil => exact pure (Nat.le_refl n)
  | cons x xs ih => exact (hf x clock).bind fun _ => ih (clock.after k)

end Pays

/-! ## Messages and logs -/

theorem pays_publish (payload : Payload) (now : Instant) :
    Pays n (publish payload now) fun _ => n :=
  fun _ _ _ _ hs h => hs.logged (logged_publish h)

theorem pays_pushError (source message : String) (clock : Clock) :
    Pays n (pushError source message clock) fun _ => n :=
  fun _ _ _ _ hs h => hs.logged (logged_pushError h)

theorem pays_recordSignal (signal : Signal) (outcome : SignalOutcome) (clock : Clock) :
    Pays n (recordSignal signal outcome clock) fun _ => n :=
  fun _ _ _ _ hs h => hs.logged (logged_recordSignal h)

/-- The session halts for an order that was answered with a violation, and is even again. -/
theorem pays_handleError (source : String) (e : TradingError) (clock : Clock) :
    Pays (violations (some e)) (handleError source e clock) fun _ => 0 := by
  have hlog : Pays 0 (do
      modify fun s : Session => { s with failures := s.failures.bump source }
      pushError source e.message (clock.after 1)) fun _ => 0 :=
    .bind (.modify (fun _ => rfl) fun _ => .refl _) fun _ => pays_pushError _ _ _
  unfold handleError
  cases e with
  | invariantViolation what =>
    have hhalt : Pays 1 (modify fun s : Session => { s with
        risk := s.risk.halt (.invariantViolation what) (clock 0)
        status := .halted }) fun _ => 0 := by
      intro s₀ s u s' hs hmodify
      obtain rfl := modify_eq_ok.mp hmodify
      exact hs.halted rfl rfl
    exact .bind hhalt fun _ => hlog
  | _ => exact hlog

/-! ## Bringing the session up to date -/

theorem pays_forward (event : LedgerEvent) (clock : Clock) :
    Pays n (forward event clock) fun _ => n := by
  unfold forward
  cases event with
  | position change position trade =>
    cases trade with
    | none => exact pays_publish _ _
    | some trade =>
      have hpublish : Pays n
          (do publish (.trade trade) (clock 1); publish (.position ⟨change, position⟩) (clock 2))
          fun _ => n :=
        .bind (pays_publish _ _) fun _ => pays_publish _ _
      refine .ite ?_ hpublish
      -- the result of the trade goes to the manager first
      intro s₀ s u s' hs h
      obtain ⟨_, _, hget, h⟩ := bind_eq_ok.mp h
      obtain ⟨rfl, rfl⟩ := get_eq_ok.mp hget
      obtain ⟨risk, _, hrecord, h⟩ := bind_eq_ok.mp h
      obtain ⟨hrisk, rfl⟩ := compute_eq_ok.mp hrecord
      obtain ⟨_, _, hmodify, h⟩ := bind_eq_ok.mp h
      obtain rfl := modify_eq_ok.mp hmodify
      have hrecorded : Owes s₀ n { s with risk } :=
        hs.of_ledger_eq rfl (RiskManager.tells_recordTrade hrisk)
      exact hpublish _ _ _ _ hrecorded h
  | _ => exact .pure (Nat.le_refl n)

/-- Taking the events of the ledger changes neither its orders nor its counts. -/
theorem pays_drain (clock : Clock) : Pays n (drain clock) fun _ => n := by
  intro s₀ s u s' hs h
  have htaken : Owes s₀ n { s with ledger := s.ledger.takeEvents.2 } :=
    hs.withLedger (hs.consistent.quiet (.takeEvents _)) (.of_eq rfl rfl)
  exact Pays.forEach pays_forward _ clock _ _ _ _ htaken (drain_run h)

theorem pays_sync (clock : Clock) : Pays n (sync clock) fun _ => n := by
  intro s₀ s u s' hs h
  obtain ⟨s₁, s₂, account, risk, status, _, _, hdrain, -, hrisk, -, hpublish, hstate⟩ := sync_run h
  have hdrained := pays_drain clock _ _ _ _ hs hdrain
  have hpublished : Owes s₀ n s₂ := by
    refine Owes.logged ?_ (logged_publishRisk hpublish)
    exact hdrained.of_ledger_eq rfl
      ((RiskManager.tells_updateEquity hrisk).trans (RiskManager.tells_takeNewEvents risk))
  refine Owes.logged ?_ (logged_publish hstate)
  exact hpublished.of_ledger_eq rfl (.refl _)

/-! ## The calls -/

theorem pays_sync_pure (a : α) (clock : Clock) : Pays 0 (do sync clock; return a) fun _ => 0 :=
  .bind (pays_sync clock) fun _ => .pure (Nat.le_refl 0)

/-- An operation of the ledger owes the order that it answers with a violation. -/
theorem pays_onLedger {f : Ledger → Calc (Ledger × Outcome α)} {t : Ledger.Turn}
    (hf : ∀ l, l.attempt t = f l >>= fun r => pure (r.1, errorOf r.2)) :
    Pays 0 (onLedger f) fun outcome => violations (errorOf outcome) := by
  intro s₀ s outcome s' hs h
  obtain ⟨ledger, hledger, rfl⟩ := onLedger_eq_ok.mp h
  have hattempt : s.ledger.attempt t = .ok (ledger, errorOf outcome) := by
    rw [hf, hledger]
    rfl
  have hturn : s.ledger.turn t = .ok ledger := by
    rw [Ledger.turn_eq_attempt, hattempt]
    rfl
  have howes := hs.withLedger ((hs.consistent.moved_turn hturn).consistent hs.consistent)
    (hs.consistent.tallied_attempt hattempt)
  exact howes.mono (Nat.le_of_eq (Nat.zero_add _))

theorem pays_evaluate (signal : Signal) (clock : Clock) :
    Pays n (evaluate signal clock) fun _ => n := by
  intro s₀ s outcome s' hs h
  obtain ⟨account, risk, -, hevaluate, rfl⟩ := evaluate_run h
  exact hs.of_ledger_eq rfl (RiskManager.tells_evaluate hevaluate)

theorem pays_evaluateAndPlace (signal : Signal) (clock : Clock) :
    Pays 0 (evaluateAndPlace signal clock) fun outcome => violations (errorOf outcome) := by
  unfold evaluateAndPlace
  refine .get fun s => .ite (.pure (Nat.zero_le _)) ?_
  refine .bind (pays_evaluate signal clock) fun judged => ?_
  split
  · exact .pure (Nat.zero_le _)
  · exact .pure (Nat.zero_le _)
  · refine .bind (pays_onLedger Ledger.attempt_place) fun placed => ?_
    split <;> exact .pure (Nat.le_refl _)

theorem pays_onSignal (signal : Signal) (clock : Clock) :
    Pays 0 (onSignal signal clock) fun _ => 0 := by
  unfold onSignal
  refine .get fun s => .ite (.bind (pays_recordSignal _ _ _) fun _ => .pure (Nat.le_refl 0)) ?_
  refine .bind (pays_evaluateAndPlace signal clock) fun outcome => ?_
  split
  · exact .bind (pays_recordSignal _ _ _) fun _ => pays_sync_pure _ _
  · exact .bind (pays_handleError _ _ _) fun _ => .bind (pays_recordSignal _ _ _) fun _ =>
      pays_sync_pure _ _

/-- A mark places no order, and is answered with no violation. -/
theorem pays_markPrice (tick : PriceTick) : Pays 0 (markPrice tick) fun _ => 0 := by
  intro s₀ s marked s' hs h
  obtain ⟨ledger, hrecord, rfl⟩ := onLedger_eq_ok.mp h
  exact hs.withLedger (hs.consistent.quiet (Ledger.quiet_recordPrice hrecord))
    (Ledger.tallied_recordPrice hrecord)

theorem pays_closeTriggered (timestamp : Instant) (marked : Outcome (Option Ledger.Trigger)) :
    Pays 0 (closeTriggered timestamp marked) fun outcome => violations (errorOf outcome) := by
  match marked with
  | .ok (some trigger) => exact pays_onLedger (t := .finish trigger timestamp) fun _ => rfl
  | .ok none | .error _ => exact .pure (Nat.zero_le _)

theorem pays_finishPrice (tick : PriceTick) (marked : Outcome (Option Ledger.Trigger))
    (clock : Clock) : Pays 0 (finishPrice tick marked clock) fun _ => 0 := by
  unfold finishPrice
  refine .bind (pays_closeTriggered _ marked) fun outcome => ?_
  split
  · exact .bind (pays_handleError _ _ _) fun _ => pays_sync_pure _ _
  · exact .bind (pays_publish _ _) fun _ => pays_sync_pure _ _

theorem pays_finishCandle (c : Candle) (marked : Outcome (Option Ledger.Trigger))
    (clock : Clock) : Pays 0 (finishCandle c marked clock) fun _ => 0 := by
  unfold finishCandle
  refine .bind (pays_closeTriggered _ marked) fun outcome => ?_
  split
  · exact .bind (pays_handleError _ _ _) fun _ => .bind (pays_publish _ _) fun _ =>
      pays_sync_pure _ _
  · exact .bind (pays_publish _ _) fun _ => pays_sync_pure _ _

theorem pays_transition (action : String) (sources : List TradingStatus) (target : TradingStatus)
    (clock : Clock) : Pays 0 (transition action sources target clock) fun _ => 0 := by
  unfold transition
  refine .get fun s => .ite ?_ (.pure (Nat.le_refl 0))
  exact .bind (.modify (fun _ => rfl) fun _ => .refl _) fun _ => pays_sync_pure _ _

/-- Only a fatal error is handled, and a violation is one. -/
theorem pays_manual {f : Instant → Ledger → Calc (Ledger × Outcome α)} {t : Ledger.Turn}
    {clock : Clock} (hf : ∀ l, l.attempt t = f (clock 0) l >>= fun r => pure (r.1, errorOf r.2))
    (source : String) : Pays 0 (manual source f clock) fun _ => 0 := by
  unfold manual
  refine .bind (pays_onLedger hf) fun outcome => ?_
  split
  · next e =>
    split
    · exact .bind (pays_handleError _ _ _) fun _ => pays_sync_pure _ _
    · next hfatal =>
      have hnone : violations (some e) = 0 := by
        rw [Ledger.violations_eq_zero_iff]
        rintro what ⟨⟩
        exact hfatal rfl
      show Pays (violations (some e)) _ _
      rw [hnone]
      exact pays_sync_pure _ _
  · exact pays_sync_pure _ _

/-- A call halts for every order that it accepts and does not count. -/
theorem pays_perform (call : Call) (clock : Clock) : Pays 0 (perform call clock) fun _ => 0 := by
  cases call with
  | start | pause | resume | stop => exact .discard (pays_transition _ _ _ clock)
  | resetCircuitBreaker =>
    have hsync : Pays 0 (do sync (clock.after 1); return (← get).status) fun _ => 0 :=
      .bind (pays_sync _) fun _ => .get fun s => .pure (Nat.le_refl 0)
    exact .discard (.bind (.modify (fun _ => rfl) fun s => RiskManager.tells_reset s.risk (clock 0))
      fun _ => hsync)
  | signal signal => exact .discard (pays_onSignal signal clock)
  | price tick =>
    exact .discard (.bind (pays_markPrice tick) fun _ => pays_finishPrice tick _ clock)
  | candle c =>
    exact .discard (.bind (pays_markPrice c.tick) fun _ => pays_finishCandle c _ clock)
  | mark tick => exact .discard (pays_markPrice tick)
  | finishPrice tick marked => exact .discard (pays_finishPrice tick marked clock)
  | finishCandle c marked => exact .discard (pays_finishCandle c marked clock)
  | indicators v => exact pays_publish _ _
  | place request =>
    exact .discard (.get fun s => .ite (.pure (Nat.le_refl 0))
      (pays_manual (f := fun now l => l.place request now) Ledger.attempt_place _))
  | cancel id =>
    exact .discard (pays_manual (f := fun _ l => .ok (l.cancel id)) Ledger.attempt_cancel _)
  | close id =>
    exact .discard (pays_manual (f := fun now l => l.close id now) Ledger.attempt_close _)
  | setExit id kind price =>
    exact .discard (pays_manual (f := fun now l => .ok (l.setExit id kind price now))
      Ledger.attempt_setExit _)
  | strategies | regime =>
    exact .bind (.modify (fun _ => rfl) fun _ => .refl _) fun _ => pays_sync clock
  | reportError source message =>
    exact .bind (pays_pushError source message clock) fun _ => pays_sync _

end Session

end SimBroker
