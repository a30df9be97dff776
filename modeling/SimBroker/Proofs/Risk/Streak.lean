import Mathlib.Data.List.DropRight
import SimBroker.Proofs.Risk.Journal

/-!
# The streak of losses

The streak is the number of losses since the last result that is no loss, or since the last reset if
that came later.  Halts, their ends, signals and equities leave it as it is.  So a halt for a streak
that is too long ends with the streak as long as before, and one more loss halts trading again.

## Main definitions

* `RiskManager.results`: the results among some operations
* `RiskManager.streak`: the losses since the last operation that ends a streak
* `RiskManager.Recorded`: the manager has counted the streak and the results, and kept the last

## Main results

* `RiskManager.streak_concat`: what one more operation does to the streak
* `RiskManager.consecutiveLosses_step`: the manager counts the same
* `RiskManager.halted_of_streak`: a streak that is too long halts trading
* `RiskManager.losing_streak`: the streak, the results and the breaker along every run
-/

namespace SimBroker

open Calc (bind_eq_ok pure_eq_ok)

namespace RiskManager

variable {m m' : RiskManager} {limits : RiskSettings} {now : Instant} {pnl : Decimal}
  {op : Operation} {ops : List Operation} {answer : Option (Outcome Approval)}

/-! ## Results and streaks -/

namespace Operation

/-- The result that is recorded. -/
def pnl? : Operation → Option Decimal
  | .recordTrade pnl _ => some pnl
  | .evaluate .. | .updateEquity .. | .halt .. | .reset _ | .takeNewEvents => none

/-- A result that is no loss, or a reset. -/
def endsStreak : Operation → Bool
  | .recordTrade pnl _ => !decide (pnl < 0)
  | .reset _ => true
  | .evaluate .. | .updateEquity .. | .halt .. | .takeNewEvents => false

end Operation

/-- The results among some operations, in order. -/
def results (ops : List Operation) : List Decimal := ops.filterMap Operation.pnl?

/-- The number of losses since the last operation that ends a streak. -/
def streak (ops : List Operation) : Nat :=
  (results (ops.rtakeWhile (!·.endsStreak))).countP (· < 0)

theorem results_concat : results (ops ++ [op]) = results ops ++ results [op] :=
  List.filterMap_append

/-- An operation that ends a streak begins another, and any other operation adds to it if it is a
loss. -/
theorem streak_concat (ops : List Operation) (op : Operation) :
    streak (ops ++ [op]) =
      if op.endsStreak then 0 else streak ops + (results [op]).countP (· < 0) := by
  unfold streak
  split
  · next hends =>
    rw [List.rtakeWhile_concat_neg _ _ _ (by simp [hends])]
    rfl
  · next hends =>
    rw [List.rtakeWhile_concat_pos _ _ _ (by simp [hends]), results_concat, List.countP_append]

/-! ## What the manager counts -/

theorem consecutiveLosses_expireHalt (m : RiskManager) (now : Instant) :
    (m.expireHalt now).consecutiveLosses = m.consecutiveLosses := by
  unfold expireHalt
  split <;> rfl

theorem consecutiveLosses_trip (m : RiskManager) (now : Instant) :
    (m.trip now).consecutiveLosses = m.consecutiveLosses := by
  unfold trip
  split <;> rfl

theorem consecutiveLosses_assess (h : m.assess now = .ok m') :
    m'.consecutiveLosses = m.consecutiveLosses := by
  rcases assess_eq_ok h with ⟨-, rfl⟩ | ⟨reason, rfl⟩ | ⟨-, rfl | ⟨level, decision, rfl⟩⟩
  all_goals rfl

theorem consecutiveLosses_recordTrade (h : m.recordTrade pnl now = .ok m') :
    m'.consecutiveLosses = if pnl < 0 then m.consecutiveLosses + 1 else 0 := by
  rw [recordTrade_eq, bind_eq_ok] at h
  obtain ⟨monitor, -, hassess⟩ := h
  rw [consecutiveLosses_assess hassess, consecutiveLosses_trip,
    ← consecutiveLosses_expireHalt m now]
  rfl

theorem consecutiveLosses_updateEquity {equity : Decimal}
    (h : m.updateEquity equity now = .ok m') : m'.consecutiveLosses = m.consecutiveLosses := by
  unfold updateEquity at h
  obtain ⟨monitor, -, hassess⟩ := bind_eq_ok.mp h
  rw [consecutiveLosses_assess hassess]
  exact consecutiveLosses_expireHalt m now

theorem consecutiveLosses_note (m : RiskManager) (s : Signal) (now : Instant)
    (outcome : Outcome Approval) :
    (m.note s now outcome).consecutiveLosses = m.consecutiveLosses := by
  unfold note
  split <;> rfl

theorem consecutiveLosses_evaluate {s : Signal} {account : Exposure} {outcome : Outcome Approval}
    (h : m.evaluate s account now = .ok (m', outcome)) :
    m'.consecutiveLosses = m.consecutiveLosses := by
  rw [evaluate_eq, bind_eq_ok] at h
  obtain ⟨⟨m₁, judged⟩, hjudge, h⟩ := h
  obtain ⟨rfl, -⟩ := Prod.mk.inj (pure_eq_ok.mp h)
  rw [consecutiveLosses_note, ← consecutiveLosses_expireHalt m now]
  obtain ⟨monitor, -, ⟨rfl, -⟩ | ⟨reason, rfl, -⟩⟩ := judge_eq_ok hjudge
  · rfl
  · rfl

/-- Only a result or a reset changes the streak. -/
theorem consecutiveLosses_step (h : m.step op = .ok (m', answer)) :
    m'.consecutiveLosses =
      if op.endsStreak then 0 else m.consecutiveLosses + (results [op]).countP (· < 0) := by
  cases stepped_of_step h with
  | evaluate hevaluate => exact consecutiveLosses_evaluate hevaluate
  | @recordTrade pnl now _ hrecord =>
    rw [consecutiveLosses_recordTrade hrecord]
    by_cases hloss : pnl < 0
    · simp [Operation.endsStreak, results, Operation.pnl?, hloss]
    · simp [Operation.endsStreak, hloss]
  | updateEquity hupdate => exact consecutiveLosses_updateEquity hupdate
  | halt | reset | takeNewEvents => rfl

/-- What has been recorded along some operations. -/
structure Recorded (limits : RiskSettings) (ops : List Operation) (m : RiskManager) : Prop where
  limits_eq : m.limits = limits
  consecutiveLosses_eq : m.consecutiveLosses = streak ops
  totalTrades_eq : m.totalTrades = (results ops).length
  pnlHistory_eq : m.pnlHistory = lastOf (max limits.tradeHistory 1) (results ops)

theorem recorded_new (limits : RiskSettings) (equity : Decimal) (begin : Instant) :
    Recorded limits [] (new limits equity begin) :=
  ⟨rfl, rfl, rfl, (lastOf_eq_self (Nat.zero_le _)).symm⟩

namespace Recorded

/-- An operation records the result that it brings, if it brings one. -/
theorem of_tracked {n : Nat} (h : Recorded limits ops m) (hstep : m.step op = .ok (m', answer))
    (htracked : m.Tracked (results [op]) n m') : Recorded limits (ops ++ [op]) m' where
  limits_eq := htracked.limits_eq.trans h.limits_eq
  consecutiveLosses_eq := by
    rw [consecutiveLosses_step hstep, streak_concat, h.consecutiveLosses_eq]
  totalTrades_eq := by
    rw [htracked.totalTrades_eq, h.totalTrades_eq, results_concat, List.length_append]
  pnlHistory_eq := by
    have hhistory := htracked.pnlHistory_eq (results ops)
    rw [h.limits_eq, ← results_concat] at hhistory
    exact hhistory h.pnlHistory_eq

theorem step (h : Recorded limits ops m) (hstep : m.step op = .ok (m', answer)) :
    Recorded limits (ops ++ [op]) m' := by
  cases stepped_of_step hstep with
  | evaluate hevaluate => exact h.of_tracked hstep (tracked_evaluate hevaluate)
  | recordTrade hrecord => exact h.of_tracked hstep (tracked_recordTrade hrecord)
  | updateEquity hupdate => exact h.of_tracked hstep (tracked_updateEquity hupdate)
  | halt reason now => exact h.of_tracked hstep (tracked_halt m reason now)
  | reset now => exact h.of_tracked hstep (tracked_reset m now)
  | takeNewEvents =>
    -- nothing is recorded, and the log for takers is not looked at here
    refine ⟨h.limits_eq, ?_, ?_, ?_⟩
    · rw [streak_concat]
      exact h.consecutiveLosses_eq
    · rw [results_concat]
      exact h.totalTrades_eq.trans (congrArg List.length (List.append_nil _).symm)
    · rw [results_concat]
      exact h.pnlHistory_eq.trans (congrArg (lastOf _) (List.append_nil _).symm)

end Recorded

theorem recorded_run {equity : Decimal} {begin : Instant}
    (hrun : (new limits equity begin).run ops = .ok m) : Recorded limits ops m :=
  run_induction (P := Recorded limits) (Q := fun _ => True) (fun _ _ => trivial) hrun
    (recorded_new limits equity begin) fun h _ hstep => h.step hstep

/-! ## The breaker -/

theorem step_recordTrade (h : m.recordTrade pnl now = .ok m') :
    m.step (.recordTrade pnl now) = .ok (m', none) := by
  rw [step, h]
  rfl

theorem trip_of_streak (henabled : m.limits.circuitBreakerEnabled) (hhalted : ¬ m.isHalted)
    (hstreak : m.limits.maxConsecutiveLosses ≤ m.consecutiveLosses) :
    m.trip now = m.halt (.consecutiveLosses m.consecutiveLosses) now := by
  unfold trip
  exact if_pos ⟨henabled, by simpa using hhalted, hstreak⟩

/-- A streak that is too long halts trading.  If no halt is in force at the time of the result, the
halt is for the streak. -/
theorem halted_of_streak (h : m.recordTrade pnl now = .ok m')
    (henabled : m.limits.circuitBreakerEnabled)
    (hstreak : m.limits.maxConsecutiveLosses ≤ m'.consecutiveLosses) :
    m'.isHalted ∧ (¬ (m.expireHalt now).isHalted →
      m'.haltReason = some (.consecutiveLosses m'.consecutiveLosses)) := by
  rw [recordTrade_eq, bind_eq_ok] at h
  obtain ⟨monitor, -, hassess⟩ := h
  have hlimits : ((m.expireHalt now).withResult monitor pnl).limits = m.limits :=
    expireHalt_limits m now
  have hlevel : ((m.expireHalt now).withResult monitor pnl).isHalted =
      (m.expireHalt now).isHalted := rfl
  generalize (m.expireHalt now).withResult monitor pnl = result at hassess hlimits hlevel
  rw [← hlimits] at henabled hstreak
  rw [← hlevel]
  -- whether the result finds a halt or trips the breaker, there is nothing left to assess
  by_cases hhalted : result.isHalted
  · rw [trip_of_halted hhalted, assess_of_halted hhalted] at hassess
    obtain rfl := Except.ok.inj hassess
    exact ⟨hhalted, fun hnot => absurd hhalted hnot⟩
  · rw [consecutiveLosses_assess hassess, consecutiveLosses_trip] at hstreak
    rw [trip_of_streak henabled hhalted hstreak, assess_of_halted rfl] at hassess
    obtain rfl := Except.ok.inj hassess
    exact ⟨rfl, fun _ => rfl⟩

/-- A halt for a streak that a result emits names the streak that the result has led to. -/
theorem streak_of_emitted {n : Nat} {time : Instant} (hlog : m.events.length ≤ maxRiskEvents)
    (h : m.recordTrade pnl now = .ok m')
    (hmem : ⟨.halted (.consecutiveLosses n), time⟩ ∈ m.emitted (.recordTrade pnl now)) :
    m.limits.circuitBreakerEnabled ∧ m.limits.maxConsecutiveLosses ≤ n ∧
      n = m'.consecutiveLosses := by
  have hstep := step_recordTrade h
  obtain ⟨m₁, hunlogged, -⟩ := step_unlogged hlog hstep
  obtain ⟨m₂, hrecord, hanswer⟩ := bind_eq_ok.mp hunlogged
  obtain ⟨rfl, -⟩ := Prod.mk.inj (pure_eq_ok.mp hanswer)
  obtain ⟨monitor, es, hlength, hes, hlogs⟩ := emits_recordTrade hrecord
  rw [emitted_eq_of_logs hunlogged hlogs (Nat.le_trans hlength (by decide))] at hmem
  obtain ⟨henabled, hle, hn⟩ := hes _ hmem n rfl
  -- neither the limits nor the streak before the result depend on the log
  have hlimits : ((m.unlogged.expireHalt now).withResult monitor pnl).limits = m.limits :=
    expireHalt_limits m.unlogged now
  have hstreak : (m.unlogged.expireHalt now).consecutiveLosses = m.consecutiveLosses :=
    consecutiveLosses_expireHalt m.unlogged now
  rw [hlimits] at henabled hle
  refine ⟨henabled, hle, ?_⟩
  rw [hn, consecutiveLosses_recordTrade h, ← hstreak]
  rfl

/-- Along every run the manager counts the losses since the last result that is no loss or the last
reset, and all results, and it keeps the last of them.  If the breaker is enabled, a result with
which the streak is too long leaves trading halted, for this streak unless another halt is still in
force; so the first loss after the end of a halt halts again.  Every halt for a streak that a result
emits names the streak with this result, and that is too long. -/
theorem losing_streak (limits : RiskSettings) (equity : Decimal) (begin : Instant)
    (hrun : (new limits equity begin).run ops = .ok m) :
    (m.consecutiveLosses = streak ops ∧ m.totalTrades = (results ops).length ∧
      m.pnlHistory = lastOf (max limits.tradeHistory 1) (results ops)) ∧
    ∀ pnl now m', m.recordTrade pnl now = .ok m' →
      (limits.circuitBreakerEnabled →
        limits.maxConsecutiveLosses ≤ streak (ops ++ [.recordTrade pnl now]) →
          m'.isHalted ∧ (¬ (m.expireHalt now).isHalted →
            m'.haltReason =
              some (.consecutiveLosses (streak (ops ++ [.recordTrade pnl now]))))) ∧
      ∀ n time, ⟨.halted (.consecutiveLosses n), time⟩ ∈ m.emitted (.recordTrade pnl now) →
        limits.circuitBreakerEnabled ∧ limits.maxConsecutiveLosses ≤ n ∧
          n = streak (ops ++ [.recordTrade pnl now]) := by
  have hrecorded := recorded_run hrun
  refine ⟨⟨hrecorded.consecutiveLosses_eq, hrecorded.totalTrades_eq, hrecorded.pnlHistory_eq⟩, ?_⟩
  intro pnl now m' h
  have hstep := step_recordTrade h
  have hlog : m.events.length ≤ maxRiskEvents := (records_run (Nat.zero_le _) hrun).length_le
    (Nat.zero_le _)
  rw [← (hrecorded.step hstep).consecutiveLosses_eq, ← hrecorded.limits_eq]
  exact ⟨halted_of_streak h, fun n time hmem => streak_of_emitted hlog h hmem⟩

/-- A breaker that trips at the second loss in a row. -/
def twoLosses : RiskSettings := { maxConsecutiveLosses := 2 }

/-- Two losses after a gain halt trading, and an hour later one more loss halts it again, for
three. -/
theorem losing_streak_again : ∃ m m',
    (new twoLosses (.lit 100000 0) default).run
      [.recordTrade (-1) default, .recordTrade 1 default, .recordTrade (-1) default,
        .recordTrade (-1) default] = .ok m ∧
    m.consecutiveLosses = 2 ∧ m.isHalted ∧
    m.recordTrade (-1) ⟨3600, 0, by decide⟩ = .ok m' ∧
    m'.isHalted ∧ m'.haltReason = some (.consecutiveLosses 3) := by
  let ops : List Operation := [.recordTrade (-1) default, .recordTrade 1 default,
    .recordTrade (-1) default, .recordTrade (-1) default]
  have hruns : ((new twoLosses (.lit 100000 0) default).run ops).toOption.bind (fun m =>
      (m.recordTrade (-1) ⟨3600, 0, by decide⟩).toOption.bind fun _ =>
        some (m.isHalted, (m.expireHalt ⟨3600, 0, by decide⟩).isHalted)) =
      some (true, false) := by decide +kernel
  obtain ⟨m, hrun, h⟩ := Calc.exists_eq_ok hruns
  obtain ⟨m', hrecord, h⟩ := Calc.exists_eq_ok h
  obtain ⟨hhalted, hover⟩ := Prod.mk.inj (Option.some.inj h)
  obtain ⟨⟨hlosses, -⟩, hnext⟩ := losing_streak twoLosses (.lit 100000 0) default hrun
  obtain ⟨hhalts, -⟩ := hnext _ _ m' hrecord
  have hstreak : streak (ops ++ [.recordTrade (-1) ⟨3600, 0, by decide⟩]) = 3 := by decide +kernel
  rw [hstreak] at hhalts
  obtain ⟨hagain, hreason⟩ := hhalts rfl (by decide)
  exact ⟨m, m', hrun, hlosses.trans (by decide +kernel), hhalted, hrecord, hagain,
    hreason (by simp [hover])⟩

end RiskManager

end SimBroker
