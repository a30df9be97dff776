import SimBroker.Proofs.Risk.Manager

/-!
# The log of the risk manager

Every decision goes to two bounded logs, one that is kept and one for the next taker.  The manager
only writes to the first: whatever it held before, the decisions and the new entries are the same.
So the entries that an operation makes are those that it leaves in a log that was empty.

## Main definitions

* `RiskManager.behind`: a manager with earlier entries behind those of its log
* `RiskManager.Tracked`: results were recorded, and at most so many decisions logged

## Main results

* `lastOf_lastOf_append`: a bounded log of a bounded log
* `RiskManager.recordTrade_behind`, `RiskManager.updateEquity_behind`,
  `RiskManager.evaluate_behind`: earlier entries make no difference
* `RiskManager.tracked_recordTrade`, `RiskManager.tracked_updateEquity`,
  `RiskManager.tracked_evaluate`: what the operations record and log
-/

namespace SimBroker

open Calc (bind_eq_ok pure_eq_ok)

section LastOf

variable {α : Type}

theorem length_lastOf_le (n : Nat) (xs : List α) : (lastOf n xs).length ≤ n := by
  rw [lastOf, List.length_drop]
  omega

theorem lastOf_eq_self {n : Nat} {xs : List α} (h : xs.length ≤ n) : lastOf n xs = xs := by
  rw [lastOf, Nat.sub_eq_zero_of_le h, List.drop_zero]

theorem length_lastOf_concat_le (n : Nat) (xs : List α) (x : α) :
    (lastOf n (xs ++ [x])).length ≤ xs.length + 1 := by
  rw [lastOf, List.length_drop, List.length_append, List.length_singleton]
  omega

/-- What has left a bounded log does not come back. -/
theorem lastOf_lastOf_append (n : Nat) (xs ys : List α) :
    lastOf n (lastOf n xs ++ ys) = lastOf n (xs ++ ys) := by
  -- what the first log has dropped is dropped by the second as well
  have hdropped : lastOf n xs ++ ys = (xs ++ ys).drop (xs.length - n) :=
    (List.drop_append_of_le_length (Nat.sub_le _ _)).symm
  rw [hdropped, lastOf, lastOf, List.drop_drop, List.length_drop, List.length_append]
  congr 1
  omega

theorem lastOf_append_lastOf (n : Nat) (xs ys : List α) :
    lastOf n (xs ++ lastOf n ys) = lastOf n (xs ++ ys) := by
  rcases Nat.le_total ys.length n with h | h
  · rw [lastOf_eq_self h]
  · -- the last part alone fills the log
    have hfull (zs : List α) (hzs : n ≤ zs.length) : lastOf n (xs ++ zs) = lastOf n zs := by
      rw [lastOf, lastOf, List.drop_append, List.length_append, List.drop_eq_nil_of_le (by omega),
        List.nil_append]
      congr 1
      omega
    have hlength : (lastOf n ys).length = n := by
      rw [lastOf, List.length_drop]
      omega
    rw [hfull _ (Nat.le_of_eq hlength.symm), hfull _ h, lastOf_eq_self (Nat.le_of_eq hlength)]

end LastOf

namespace RiskManager

variable {m m' m₁ m₂ : RiskManager} {earlier : List RiskEvent} {now : Instant}
  {results results' : List Decimal} {n n' : Nat}

/-! ## Earlier entries -/

/-- The manager with earlier entries behind those of its log. -/
def behind (earlier : List RiskEvent) (m : RiskManager) : RiskManager :=
  { m with events := lastOf maxRiskEvents (earlier ++ m.events) }

theorem push_behind (decision : RiskDecision) :
    (m.behind earlier).push decision now = (m.push decision now).behind earlier := by
  have hevents : lastOf maxRiskEvents (lastOf maxRiskEvents (earlier ++ m.events) ++
      [(⟨decision, now⟩ : RiskEvent)]) =
      lastOf maxRiskEvents (earlier ++ lastOf maxRiskEvents (m.events ++ [⟨decision, now⟩])) := by
    rw [lastOf_lastOf_append, lastOf_append_lastOf, List.append_assoc]
  exact congrArg (fun events => { m.push decision now with events }) hevents

theorem halt_behind (reason : HaltReason) :
    (m.behind earlier).halt reason now = (m.halt reason now).behind earlier :=
  push_behind (m := { m with
    level := .halted
    haltReason := some reason
    haltedUntil := m.haltEnd reason now
    halts := m.halts.bump reason.kind }) _

theorem reset_behind : (m.behind earlier).reset now = (m.reset now).behind earlier :=
  push_behind (m := { m.clearHalt with consecutiveLosses := 0 }) _

theorem expireHalt_behind :
    (m.behind earlier).expireHalt now = (m.expireHalt now).behind earlier := by
  unfold expireHalt
  rw [apply_ite (behind earlier)]
  exact congrArg (ite _ · _) (push_behind (m := m.clearHalt) _)

theorem assess_behind :
    (m.behind earlier).assess now = behind earlier <$> m.assess now := by
  unfold assess
  rw [apply_ite (behind earlier <$> ·)]
  refine ite_congr rfl (fun _ => rfl) fun _ => ?_
  rw [map_bind]
  refine bind_congr fun breach => ?_
  cases breach with
  | some reason => exact congrArg Except.ok (halt_behind reason)
  | none =>
    -- the level decides what is logged, and it does not depend on the log
    rw [map_bind]
    refine bind_congr fun warning => ?_
    have hlevel : (m.behind earlier).level = m.level := rfl
    rw [hlevel]
    cases warning <;> cases m.level
    case some.normal w =>
      exact congrArg Except.ok (push_behind (m := { m with level := .warning }) _)
    case none.warning => exact congrArg Except.ok (push_behind (m := { m with level := .normal }) _)
    all_goals rfl

/-- The manager with a result recorded. -/
def withResult (m : RiskManager) (monitor : DrawdownMonitor) (pnl : Decimal) : RiskManager :=
  { m with
    monitor
    totalTrades := m.totalTrades + 1
    pnlHistory := lastOf (max m.limits.tradeHistory 1) (m.pnlHistory ++ [pnl])
    consecutiveLosses := if pnl < 0 then m.consecutiveLosses + 1 else 0 }

/-- The manager halted, if its streak of losses is too long. -/
def trip (m : RiskManager) (now : Instant) : RiskManager :=
  if m.limits.circuitBreakerEnabled ∧ !m.isHalted ∧
      m.limits.maxConsecutiveLosses ≤ m.consecutiveLosses then
    m.halt (.consecutiveLosses m.consecutiveLosses) now
  else m

/-- The steps of recording a trade. -/
theorem recordTrade_eq (m : RiskManager) (pnl : Decimal) (now : Instant) :
    m.recordTrade pnl now = (m.expireHalt now).monitor.recordPnl pnl now >>= fun monitor =>
      (((m.expireHalt now).withResult monitor pnl).trip now).assess now := rfl

theorem trip_behind : (m.behind earlier).trip now = (m.trip now).behind earlier := by
  unfold trip
  rw [apply_ite (behind earlier)]
  exact ite_congr rfl (fun _ => halt_behind _) fun _ => rfl

theorem recordTrade_behind (pnl : Decimal) :
    (m.behind earlier).recordTrade pnl now = behind earlier <$> m.recordTrade pnl now := by
  rw [recordTrade_eq, recordTrade_eq, expireHalt_behind, map_bind]
  refine bind_congr fun monitor => ?_
  rw [← assess_behind, ← trip_behind]
  rfl

theorem updateEquity_behind (equity : Decimal) :
    (m.behind earlier).updateEquity equity now =
      behind earlier <$> m.updateEquity equity now := by
  unfold updateEquity
  rw [expireHalt_behind, map_bind]
  exact bind_congr fun monitor => assess_behind (m := { m.expireHalt now with monitor })

/-- A signal is screened by the limits and the results, not by the log. -/
theorem judge_behind (s : Signal) (account : Exposure) :
    (m.behind earlier).judge s account now =
      Prod.map (behind earlier) id <$> m.judge s account now := by
  unfold judge
  rw [expireHalt_behind]
  simp only [map_bind]
  refine bind_congr fun monitor => ?_
  generalize m.expireHalt now = m
  rw [apply_ite (Prod.map (behind earlier) id <$> ·)]
  refine ite_congr rfl (fun _ => rfl) fun _ => ?_
  rw [map_bind]
  refine bind_congr fun breach => ?_
  cases breach with
  | some reason =>
    exact congrArg (fun m => Except.ok (m, _)) (halt_behind (m := { m with monitor }) reason)
  | none =>
    rw [map_bind]
    rfl

theorem note_behind (s : Signal) (answer : Outcome Approval) :
    (m.behind earlier).note s now answer = (m.note s now answer).behind earlier := by
  match answer with
  | .ok _ => rfl
  | .error e =>
    cases e with
    | riskRejected reason =>
      exact push_behind (m := { m with rejections := m.rejections.bump reason }) _
    | _ => rfl

theorem evaluate_behind (s : Signal) (account : Exposure) :
    (m.behind earlier).evaluate s account now =
      Prod.map (behind earlier) id <$> m.evaluate s account now := by
  rw [evaluate_eq, evaluate_eq, judge_behind, map_bind, bind_map_left]
  refine bind_congr fun ⟨m, answer⟩ => ?_
  exact congrArg (fun m => Except.ok (m, answer)) (note_behind s answer)

/-! ## What is recorded and logged -/

/-- These results were recorded, and at most `n` decisions logged.  The two logs agree if they did
before. -/
structure Tracked (m : RiskManager) (results : List Decimal) (n : Nat) (m' : RiskManager) :
    Prop where
  limits_eq : m'.limits = m.limits
  totalTrades_eq : m'.totalTrades = m.totalTrades + results.length
  pnlHistory_eq : ∀ all, m.pnlHistory = lastOf (max m.limits.tradeHistory 1) all →
    m'.pnlHistory = lastOf (max m.limits.tradeHistory 1) (all ++ results)
  events_eq : m.events = m.unpublished → m'.events = m'.unpublished
  length_le : m'.unpublished.length ≤ m.unpublished.length + n

namespace Tracked

/-- Nothing of what is recorded or logged has changed. -/
theorem of_eq (hlimits : m'.limits = m.limits) (htrades : m'.totalTrades = m.totalTrades)
    (hhistory : m'.pnlHistory = m.pnlHistory) (hevents : m'.events = m.events)
    (hunpublished : m'.unpublished = m.unpublished) : m.Tracked [] 0 m' where
  limits_eq := hlimits
  totalTrades_eq := htrades
  pnlHistory_eq all h := by rw [hhistory, h, List.append_nil]
  events_eq h := by rw [hevents, h, hunpublished]
  length_le := Nat.le_of_eq (congrArg List.length hunpublished)

theorem refl (m : RiskManager) : m.Tracked [] 0 m :=
  of_eq rfl rfl rfl rfl rfl

theorem trans (h₁ : m.Tracked results n m₁) (h₂ : m₁.Tracked results' n' m₂) :
    m.Tracked (results ++ results') (n + n') m₂ where
  limits_eq := h₂.limits_eq.trans h₁.limits_eq
  totalTrades_eq := by
    rw [h₂.totalTrades_eq, h₁.totalTrades_eq, List.length_append, Nat.add_assoc]
  pnlHistory_eq all h := by
    -- the limits are the same, so both histories have the same bound
    rw [← List.append_assoc, ← h₁.limits_eq]
    refine h₂.pnlHistory_eq _ ?_
    rw [h₁.limits_eq]
    exact h₁.pnlHistory_eq all h
  events_eq h := h₂.events_eq (h₁.events_eq h)
  length_le := by
    have := h₁.length_le
    have := h₂.length_le
    omega

theorem mono (h : m.Tracked results n m') (hn : n ≤ n') : m.Tracked results n' m' :=
  { h with length_le := Nat.le_trans h.length_le (Nat.add_le_add_left hn _) }

/-- One more decision is logged. -/
theorem push {decision : RiskDecision} (h : m.Tracked results n m₁) :
    m.Tracked results (n + 1) (m₁.push decision now) where
  limits_eq := h.limits_eq
  totalTrades_eq := h.totalTrades_eq
  pnlHistory_eq := h.pnlHistory_eq
  events_eq hm := congrArg (fun es => lastOf maxRiskEvents (es ++ [_])) (h.events_eq hm)
  length_le := Nat.le_trans (length_lastOf_concat_le ..) (Nat.succ_le_succ h.length_le)

end Tracked

theorem tracked_halt (m : RiskManager) (reason : HaltReason) (now : Instant) :
    m.Tracked [] 1 (m.halt reason now) :=
  .push (.of_eq rfl rfl rfl rfl rfl)

theorem tracked_reset (m : RiskManager) (now : Instant) : m.Tracked [] 1 (m.reset now) :=
  .push (.of_eq rfl rfl rfl rfl rfl)

theorem tracked_expireHalt (m : RiskManager) (now : Instant) :
    m.Tracked [] 1 (m.expireHalt now) := by
  unfold expireHalt
  split
  · exact .push (.of_eq rfl rfl rfl rfl rfl)
  · exact (Tracked.refl m).mono (Nat.zero_le 1)

theorem tracked_expireHalt_with (m : RiskManager) (now : Instant) (monitor : DrawdownMonitor) :
    m.Tracked [] 1 { m.expireHalt now with monitor } :=
  { tracked_expireHalt m now with }

theorem tracked_assess (h : m.assess now = .ok m') : m.Tracked [] 1 m' := by
  rcases assess_eq_ok h with ⟨-, rfl⟩ | ⟨reason, rfl⟩ | ⟨-, rfl | ⟨level, decision, rfl⟩⟩
  · exact (Tracked.refl _).mono (Nat.zero_le 1)
  · exact tracked_halt m reason now
  · exact (Tracked.refl _).mono (Nat.zero_le 1)
  · exact .push (.of_eq rfl rfl rfl rfl rfl)

theorem tracked_withResult (m : RiskManager) (monitor : DrawdownMonitor) (pnl : Decimal) :
    m.Tracked [pnl] 0 (m.withResult monitor pnl) where
  limits_eq := rfl
  totalTrades_eq := rfl
  pnlHistory_eq all h := by
    show lastOf _ (m.pnlHistory ++ [pnl]) = _
    rw [h, lastOf_lastOf_append]
  events_eq := id
  length_le := Nat.le_refl _

theorem tracked_trip (m : RiskManager) (now : Instant) : m.Tracked [] 1 (m.trip now) := by
  unfold trip
  split
  · exact tracked_halt m _ now
  · exact (Tracked.refl m).mono (Nat.zero_le 1)

theorem tracked_recordTrade {pnl : Decimal} (h : m.recordTrade pnl now = .ok m') :
    m.Tracked [pnl] 3 m' := by
  rw [recordTrade_eq, bind_eq_ok] at h
  obtain ⟨monitor, -, h⟩ := h
  -- the end of a halt, a streak of losses and a limit may be logged
  exact (((tracked_expireHalt m now).trans (tracked_withResult _ monitor pnl)).trans
    (tracked_trip _ now)).trans (tracked_assess h)

theorem tracked_updateEquity {equity : Decimal} (h : m.updateEquity equity now = .ok m') :
    m.Tracked [] 2 m' := by
  unfold updateEquity at h
  obtain ⟨monitor, -, h⟩ := bind_eq_ok.mp h
  exact (tracked_expireHalt_with m now monitor).trans (tracked_assess h)

theorem tracked_judge {s : Signal} {account : Exposure} {answer : Outcome Approval}
    (h : m.judge s account now = .ok (m', answer)) : m.Tracked [] 2 m' := by
  obtain ⟨monitor, -, hjudged⟩ := judge_eq_ok h
  have htracked := tracked_expireHalt_with m now monitor
  rcases hjudged with ⟨rfl, -⟩ | ⟨reason, rfl, -⟩
  · exact htracked.mono (Nat.le_succ 1)
  · exact htracked.trans (tracked_halt _ reason now)

theorem tracked_note (m : RiskManager) (s : Signal) (now : Instant) (answer : Outcome Approval) :
    m.Tracked [] 1 (m.note s now answer) := by
  unfold note
  split
  · exact .push (.of_eq rfl rfl rfl rfl rfl)
  · exact (Tracked.refl m).mono (Nat.zero_le 1)

theorem tracked_evaluate {s : Signal} {account : Exposure} {answer : Outcome Approval}
    (h : m.evaluate s account now = .ok (m', answer)) : m.Tracked [] 3 m' := by
  rw [evaluate_eq, bind_eq_ok] at h
  obtain ⟨⟨m₁, judged⟩, hjudge, h⟩ := h
  obtain ⟨rfl, -⟩ := Prod.mk.inj (pure_eq_ok.mp h)
  exact (tracked_judge hjudge).trans (tracked_note m₁ s now judged)

end RiskManager

end SimBroker
