import SimBroker.Proofs.Instant.Clock
import SimBroker.Proofs.Risk.Halts

/-!
# What the monitor is told

The monitor is told equities and results, each with the time of the clock.  The manager tells it the
equity of every signal that is evaluated, every equity that is marked and every result, and nothing
else changes it: the monitor of a manager is that of the calls which the operations make.

## Main definitions

* `DrawdownMonitor.Call`, `DrawdownMonitor.runCalls`: an equity or a result, and a run of them
* `DrawdownMonitor.results`, `DrawdownMonitor.equityAfter`: the results among some calls, and the
  equity in force after them
* `DrawdownMonitor.Informed`, `DrawdownMonitor.Revalued`: the monitor was told something at readings
  of a clock, and last an equity
* `RiskManager.Operation.call?`: what an operation tells the monitor

## Main results

* `DrawdownMonitor.currentEquity_runCalls`: the equity in force after a run
* `RiskManager.runCalls_of_run`: a run of the manager is a run of its monitor
-/

namespace SimBroker

open Calc (bind_eq_ok foldlM_concat_eq_ok ok_bind pure_eq_ok)

namespace DrawdownMonitor

/-- An equity or a result, with the time of the clock. -/
inductive Call where
  | update (equity : Decimal) (now : Instant)
  | recordPnl (pnl : Decimal) (now : Instant)

namespace Call

/-- The time of the clock. -/
def time : Call → Instant
  | update _ now | recordPnl _ now => now

/-- The equity, if the call brings one. -/
def equity? : Call → Option Decimal
  | update equity _ => some equity
  | recordPnl .. => none

/-- The result, if the call brings one. -/
def pnl? : Call → Option Decimal
  | update .. => none
  | recordPnl pnl _ => some pnl

/-- The result with the time, if the call brings one. -/
def recording? : Call → Option (Instant × Decimal)
  | update .. => none
  | recordPnl pnl now => some (now, pnl)

end Call

variable {m m' : DrawdownMonitor} {c : Call} {calls : List Call} {start : Decimal} {now : Instant}

/-- Carries out a call. -/
def perform (m : DrawdownMonitor) : Call → Calc DrawdownMonitor
  | .update equity now => m.update equity now
  | .recordPnl pnl now => m.recordPnl pnl now

/-- Carries out calls in order. -/
def runCalls (m : DrawdownMonitor) (calls : List Call) : Calc DrawdownMonitor :=
  calls.foldlM perform m

theorem runCalls_concat : m.runCalls (calls ++ [c]) = .ok m' ↔
    ∃ m₁, m.runCalls calls = .ok m₁ ∧ m₁.perform c = .ok m' := foldlM_concat_eq_ok

/-- The results that some calls record, in order. -/
def results (calls : List Call) : List Decimal := calls.filterMap Call.pnl?

theorem results_append (calls calls' : List Call) :
    results (calls ++ calls') = results calls ++ results calls' := List.filterMap_append

/-- The equities that some calls bring, in order. -/
def equities (calls : List Call) : List Decimal := calls.filterMap Call.equity?

/-- The equity in force after some calls: the last that they bring, else the one before them. -/
def equityAfter (start : Decimal) (calls : List Call) : Decimal :=
  (equities calls).getLast?.getD start

theorem equityAfter_concat (start : Decimal) (calls : List Call) (c : Call) :
    equityAfter start (calls ++ [c]) = c.equity?.getD (equityAfter start calls) := by
  unfold equityAfter equities
  rw [List.filterMap_append]
  cases c with
  | update equity now => simp [Call.equity?]
  | recordPnl pnl now => simp [Call.equity?]

/-! ## The equity in force -/

theorem currentEquity_roll (m : DrawdownMonitor) (now : Instant) :
    (m.roll now).currentEquity = m.currentEquity := by
  unfold roll rollWeek rollDay
  split <;> split <;> rfl

theorem currentEquity_perform (h : m.perform c = .ok m') :
    m'.currentEquity = c.equity?.getD m.currentEquity := by
  cases c with
  | update equity now => exact currentEquity_update h
  | recordPnl pnl now =>
    obtain ⟨daily, -, h⟩ := bind_eq_ok.mp h
    obtain ⟨weekly, -, h⟩ := bind_eq_ok.mp h
    obtain rfl := pure_eq_ok.mp h
    exact currentEquity_roll m now

/-- The equity in force is the last that the monitor was told. -/
theorem currentEquity_runCalls (h : (new start now).runCalls calls = .ok m) :
    m.currentEquity = equityAfter start calls := by
  induction calls using List.reverseRecOn generalizing m with
  | nil =>
    obtain rfl := pure_eq_ok.mp h
    rfl
  | append_singleton calls c ih =>
    obtain ⟨m₁, hcalls, hcall⟩ := runCalls_concat.mp h
    rw [currentEquity_perform hcall, equityAfter_concat, ih hcalls]

/-! ## Readings of a clock -/

section Informed

variable {m₁ : DrawdownMonitor} {clock : Clock} {n n' : ℕ}
  {recorded recorded' : List (Instant × Decimal)}

/-- The monitor was told something, each time at another of the first `n` readings of a clock, and
these were the results among it. -/
def Informed (m : DrawdownMonitor) (clock : Clock) (n : ℕ) (recorded : List (Instant × Decimal))
    (m' : DrawdownMonitor) : Prop :=
  ∃ calls, m.runCalls calls = .ok m' ∧ (calls.map Call.time).Sublist (clock.upTo n) ∧
    calls.filterMap Call.recording? = recorded

theorem Informed.refl (m : DrawdownMonitor) (clock : Clock) (n : ℕ) : m.Informed clock n [] m :=
  ⟨[], rfl, List.nil_sublist _, rfl⟩

/-- What is told in a second step is told at the readings that the first has left. -/
theorem Informed.trans (h₁ : m.Informed clock n recorded m₁)
    (h₂ : m₁.Informed (clock.after n) n' recorded' m') :
    m.Informed clock (n + n') (recorded ++ recorded') m' := by
  obtain ⟨calls, hrun, htimes, rfl⟩ := h₁
  obtain ⟨calls', hrun', htimes', rfl⟩ := h₂
  refine ⟨calls ++ calls', ?_, ?_, List.filterMap_append⟩
  · rw [runCalls, List.foldlM_append]
    exact bind_eq_ok.mpr ⟨m₁, hrun, hrun'⟩
  · rw [List.map_append, Clock.upTo_add]
    exact htimes.append htimes'

theorem Informed.mono (h : m.Informed clock n recorded m') (hn : n ≤ n') :
    m.Informed clock n' recorded m' := by
  obtain ⟨calls, hrun, htimes, hrecorded⟩ := h
  exact ⟨calls, hrun, htimes.trans (clock.upTo_sublist hn), hrecorded⟩

theorem informed_perform {i : ℕ} (h : m.perform c = .ok m') (htime : c.time = clock i)
    (hi : i < n) : m.Informed clock n c.recording?.toList m' := by
  refine ⟨[c], (bind_pure _).trans h, ?_, ?_⟩
  · apply List.singleton_sublist.mpr
    exact Clock.mem_upTo.mpr ⟨i, hi, htime.symm⟩
  · cases c <;> rfl

/-- The monitor was told something at readings of a clock with these results among it, and last, at
the next reading, an equity. -/
def Revalued (m : DrawdownMonitor) (clock : Clock) (recorded : List (Instant × Decimal))
    (m' : DrawdownMonitor) : Prop :=
  ∃ n m₁ equity, m.Informed clock n recorded m₁ ∧ m₁.update equity (clock n) = .ok m'

theorem Informed.revalued (h₁ : m.Informed clock n recorded m₁)
    (h₂ : m₁.Revalued (clock.after n) recorded' m') :
    m.Revalued clock (recorded ++ recorded') m' := by
  obtain ⟨k, m₂, equity, hinformed, hupdate⟩ := h₂
  refine ⟨n + k, m₂, equity, h₁.trans hinformed, ?_⟩
  rw [Nat.add_comm]
  exact hupdate

end Informed

end DrawdownMonitor

namespace RiskManager

open DrawdownMonitor (Call)

variable {m m' : RiskManager} {op : Operation} {ops : List Operation}
  {answer : Option (Outcome Approval)} {now : Instant}

/-- What an operation tells the monitor. -/
def Operation.call? : Operation → Option Call
  | .evaluate _ account now => some (.update account.equity now)
  | .updateEquity equity now => some (.update equity now)
  | .recordTrade pnl now => some (.recordPnl pnl now)
  | .halt .. | .reset _ | .takeNewEvents => none

theorem trip_monitor (m : RiskManager) (now : Instant) : (m.trip now).monitor = m.monitor := by
  unfold trip
  split <;> rfl

theorem note_monitor (m : RiskManager) (s : Signal) (now : Instant) (outcome : Outcome Approval) :
    (m.note s now outcome).monitor = m.monitor := by
  unfold note
  split <;> rfl

/-- A result goes to the monitor, whether or not it halts the manager. -/
theorem recordPnl_of_recordTrade {pnl : Decimal} (h : m.recordTrade pnl now = .ok m') :
    m.monitor.recordPnl pnl now = .ok m'.monitor := by
  rw [recordTrade_eq, expireHalt_monitor, bind_eq_ok] at h
  obtain ⟨monitor, hmonitor, hassess⟩ := h
  obtain ⟨-, hmonitor', -⟩ := assess_cases hassess
  rw [hmonitor', trip_monitor]
  exact hmonitor

/-- The equity of an account goes to the monitor, whatever the answer to the signal is. -/
theorem update_of_evaluate {s : Signal} {account : Exposure} {outcome : Outcome Approval}
    (h : m.evaluate s account now = .ok (m', outcome)) :
    m.monitor.update account.equity now = .ok m'.monitor := by
  rw [evaluate_eq, bind_eq_ok] at h
  obtain ⟨⟨m₁, judged⟩, hjudge, hnote⟩ := h
  obtain ⟨rfl, -⟩ := Prod.mk.inj (pure_eq_ok.mp hnote)
  obtain ⟨monitor, hmonitor, ⟨rfl, -⟩ | ⟨reason, rfl, -⟩⟩ := judge_eq_ok hjudge
  · rw [note_monitor]
    exact hmonitor
  · rw [note_monitor]
    exact hmonitor

/-- An operation changes the monitor by what it tells it. -/
theorem runCalls_of_step (h : m.step op = .ok (m', answer)) :
    m.monitor.runCalls op.call?.toList = .ok m'.monitor := by
  have hone (c : Call) : m.monitor.runCalls [c] = m.monitor.perform c := bind_pure _
  cases stepped_of_step h with
  | evaluate evaluate_eq => exact (hone _).trans (update_of_evaluate evaluate_eq)
  | recordTrade recordTrade_eq => exact (hone _).trans (recordPnl_of_recordTrade recordTrade_eq)
  | updateEquity updateEquity_eq => exact (hone _).trans (update_of_updateEquity updateEquity_eq)
  | halt | reset | takeNewEvents => rfl

/-- A run of the manager is a run of its monitor. -/
theorem runCalls_of_run (h : m.run ops = .ok m') :
    m.monitor.runCalls (ops.filterMap Operation.call?) = .ok m'.monitor := by
  induction ops generalizing m with
  | nil =>
    obtain rfl := pure_eq_ok.mp h
    rfl
  | cons op ops ih =>
    obtain ⟨m₁, answer, hstep, hrun⟩ := run_cons.mp h
    have hcalls : (op :: ops).filterMap Operation.call? =
        op.call?.toList ++ ops.filterMap Operation.call? := by
      rw [List.filterMap_cons]
      cases op.call? <;> rfl
    rw [hcalls, DrawdownMonitor.runCalls, List.foldlM_append]
    exact bind_eq_ok.mpr ⟨m₁.monitor, runCalls_of_step hstep, ih hrun⟩

end RiskManager

end SimBroker
