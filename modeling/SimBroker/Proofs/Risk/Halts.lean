import Mathlib.Data.List.Induction
import SimBroker.Proofs.Risk.Log

/-!
# Halts

A halt has a reason, and a time at which it ends if it ends by itself.  Until then no signal, result
or equity changes either of them, and every signal is rejected before anything else is asked of it.

A halt by force is different, because it takes the place of whatever halt there is.  A halt for a
violated invariant has no end, but the halt that takes its place may have one, and then the clock
lifts it.  Without a reset this is the only way out.

## Main definitions

* `RiskManager.Stepped`: what an operation carries out
* `RiskManager.SameHalt`: the halt of a manager, or that there is none, and its limits are as before
* `RiskManager.Operation.Within`: a signal, a result or an equity before the end of a halt
* `RiskManager.ForcedUntil`: the last halt by force ends at some time
* `RiskManager.Outlived`: the last halt by force was over when an operation came

## Main results

* `RiskManager.recordTrade_of_halted`, `RiskManager.updateEquity_of_halted`,
  `RiskManager.evaluate_of_halted`: what the operations do while a halt holds
* `RiskManager.halt_holds`: a halt stays, and rejects every signal, until its end
* `RiskManager.violation_halt_lifted`: how a halt for a violated invariant ends without a reset
-/

namespace SimBroker

open Calc (bind_eq_ok pure_eq_ok foldlM_concat_eq_ok)

theorem Instant.not_le_iff {a b : Instant} : ¬ a ≤ b ↔ b < a := by
  show ¬ (_ ∨ _) ↔ _ ∨ _
  omega

namespace RiskManager

variable {m m' m₁ : RiskManager} {now : Instant} {op : Operation} {ops : List Operation}
  {answer : Option (Outcome Approval)}

/-! ## Operations and runs -/

namespace Operation

/-- The time as of which the manager is told or asked something, if that may end a halt. -/
def time? : Operation → Option Instant
  | .evaluate _ _ now | .recordTrade _ now | .updateEquity _ now => some now
  | .halt .. | .reset _ | .takeNewEvents => none

/-- Neither a halt by force nor a reset. -/
def Passive : Operation → Prop
  | .halt .. | .reset _ => False
  | .evaluate .. | .recordTrade .. | .updateEquity .. | .takeNewEvents => True

/-- A reset. -/
def Resets (op : Operation) : Prop := ∃ now, op = .reset now

/-- Neither a halt by force nor a reset, and not yet at the end of a halt. -/
structure Within (op : Operation) (until? : Option Instant) : Prop where
  passive : op.Passive
  lt : ∀ now ∈ op.time?, ∀ time ∈ until?, now < time

end Operation

theorem fst_step_eq_ok :
    (do return (← m.step op).1) = .ok m' ↔ ∃ answer, m.step op = .ok (m', answer) := by
  rw [bind_eq_ok]
  constructor
  · rintro ⟨⟨m₁, answer⟩, hstep, h⟩
    obtain rfl := pure_eq_ok.mp h
    exact ⟨answer, hstep⟩
  · rintro ⟨answer, hstep⟩
    exact ⟨(m', answer), hstep, rfl⟩

/-- What an operation carries out. -/
inductive Stepped (m : RiskManager) : Operation → RiskManager → Prop
  | evaluate {s : Signal} {account : Exposure} {now : Instant} {m' : RiskManager}
      {outcome : Outcome Approval} (evaluate_eq : m.evaluate s account now = .ok (m', outcome)) :
    Stepped m (.evaluate s account now) m'
  | recordTrade {pnl : Decimal} {now : Instant} {m' : RiskManager}
      (recordTrade_eq : m.recordTrade pnl now = .ok m') : Stepped m (.recordTrade pnl now) m'
  | updateEquity {equity : Decimal} {now : Instant} {m' : RiskManager}
      (updateEquity_eq : m.updateEquity equity now = .ok m') :
      Stepped m (.updateEquity equity now) m'
  | halt (reason : HaltReason) (now : Instant) : Stepped m (.halt reason now) (m.halt reason now)
  | reset (now : Instant) : Stepped m (.reset now) (m.reset now)
  | takeNewEvents : Stepped m .takeNewEvents m.takeNewEvents.2

theorem stepped_of_step (h : m.step op = .ok (m', answer)) : m.Stepped op m' := by
  cases op with
  | evaluate s account now =>
    obtain ⟨⟨m₁, outcome⟩, hevaluate, hanswer⟩ := bind_eq_ok.mp h
    obtain ⟨rfl, -⟩ := Prod.mk.inj (pure_eq_ok.mp hanswer)
    exact .evaluate hevaluate
  | recordTrade pnl now =>
    obtain ⟨m₁, hrecord, hanswer⟩ := bind_eq_ok.mp h
    obtain ⟨rfl, -⟩ := Prod.mk.inj (pure_eq_ok.mp hanswer)
    exact .recordTrade hrecord
  | updateEquity equity now =>
    obtain ⟨m₁, hupdate, hanswer⟩ := bind_eq_ok.mp h
    obtain ⟨rfl, -⟩ := Prod.mk.inj (pure_eq_ok.mp hanswer)
    exact .updateEquity hupdate
  | halt reason now =>
    obtain ⟨rfl, -⟩ := Prod.mk.inj (Except.ok.inj h)
    exact .halt reason now
  | reset now =>
    obtain ⟨rfl, -⟩ := Prod.mk.inj (Except.ok.inj h)
    exact .reset now
  | takeNewEvents =>
    obtain ⟨rfl, -⟩ := Prod.mk.inj (Except.ok.inj h)
    exact .takeNewEvents

theorem run_concat : m.run (ops ++ [op]) = .ok m' ↔
    ∃ m₁ answer, m.run ops = .ok m₁ ∧ m₁.step op = .ok (m', answer) := by
  rw [run, foldlM_concat_eq_ok]
  simp only [fst_step_eq_ok, exists_and_left]
  rfl

theorem run_cons : m.run (op :: ops) = .ok m' ↔
    ∃ m₁ answer, m.step op = .ok (m₁, answer) ∧ m₁.run ops = .ok m' := by
  rw [run, List.foldlM_cons, bind_eq_ok]
  simp only [fst_step_eq_ok, exists_and_right]
  rfl

theorem run_append {ops' : List Operation} : m.run (ops ++ ops') = .ok m' ↔
    ∃ m₁, m.run ops = .ok m₁ ∧ m₁.run ops' = .ok m' := by
  rw [run, List.foldlM_append, bind_eq_ok]
  rfl

/-- What holds at the start of a run of such operations, and is preserved by each of them, holds at
its end.  It may speak about the operations so far. -/
theorem run_induction {P : List Operation → RiskManager → Prop} {Q : Operation → Prop}
    (hops : ∀ op ∈ ops, Q op) (hrun : m.run ops = .ok m') (start : P [] m)
    (step : ∀ {ops op m₁ m₂ answer}, P ops m₁ → Q op → m₁.step op = .ok (m₂, answer) →
      P (ops ++ [op]) m₂) : P ops m' := by
  -- from the end of the run, because `P` speaks about all the operations before the next one
  induction ops using List.reverseRecOn generalizing m' with
  | nil =>
    obtain rfl := pure_eq_ok.mp hrun
    exact start
  | append_singleton ops op ih =>
    obtain ⟨m₁, answer, hrun, hstep⟩ := run_concat.mp hrun
    have hbefore := ih (fun op hop => hops op (List.mem_append_left _ hop)) hrun
    exact step hbefore (hops op List.mem_concat_self) hstep

/-! ## The halt of a manager -/

/-- The limits are the same, and so is the halt, or that there is none. -/
structure SameHalt (m m' : RiskManager) : Prop where
  limits_eq : m'.limits = m.limits
  level_eq : m'.level = m.level
  haltReason_eq : m'.haltReason = m.haltReason
  haltedUntil_eq : m'.haltedUntil = m.haltedUntil

namespace SameHalt

theorem refl (m : RiskManager) : m.SameHalt m := ⟨rfl, rfl, rfl, rfl⟩

theorem trans (h : m.SameHalt m₁) (h' : m₁.SameHalt m') : m.SameHalt m' where
  limits_eq := h'.limits_eq.trans h.limits_eq
  level_eq := h'.level_eq.trans h.level_eq
  haltReason_eq := h'.haltReason_eq.trans h.haltReason_eq
  haltedUntil_eq := h'.haltedUntil_eq.trans h.haltedUntil_eq

theorem isHalted (h : m.SameHalt m') (hhalted : m.isHalted) : m'.isHalted := by
  unfold RiskManager.isHalted
  rw [h.level_eq]
  exact hhalted

end SameHalt

theorem sameHalt_withMonitor (m : RiskManager) (monitor : DrawdownMonitor) :
    m.SameHalt { m with monitor } := ⟨rfl, rfl, rfl, rfl⟩

theorem sameHalt_withResult (m : RiskManager) (monitor : DrawdownMonitor) (pnl : Decimal) :
    m.SameHalt (m.withResult monitor pnl) := ⟨rfl, rfl, rfl, rfl⟩

theorem sameHalt_note (m : RiskManager) (s : Signal) (now : Instant) (outcome : Outcome Approval) :
    m.SameHalt (m.note s now outcome) := by
  unfold note
  split
  · exact ⟨rfl, rfl, rfl, rfl⟩
  · exact .refl m

/-- The end of a halt, if there is one, has not come. -/
def HoldsAt (m : RiskManager) (now : Instant) : Prop := ∀ time ∈ m.haltedUntil, now < time

theorem expireHalt_of_holdsAt (h : m.HoldsAt now) : m.expireHalt now = m := by
  unfold expireHalt
  refine if_neg fun ⟨_, hover⟩ => ?_
  obtain ⟨time, htime, hle⟩ := (Option.any_eq_true ..).mp hover
  exact Instant.not_le_iff.mpr (h time htime) (of_decide_eq_true hle)

theorem assess_of_halted (h : m.isHalted) : m.assess now = .ok m := if_pos h

theorem trip_of_halted (h : m.isHalted) : m.trip now = m := by
  unfold trip
  refine if_neg fun ⟨_, hnot, _⟩ => ?_
  rw [h] at hnot
  exact nomatch hnot

/-! ## While a halt holds -/

section Holds

variable (hhalted : m.isHalted) (hholds : m.HoldsAt now)

include hhalted hholds

/-- Until a halt ends, a result is only recorded. -/
theorem recordTrade_of_halted (pnl : Decimal) :
    m.recordTrade pnl now = do return m.withResult (← m.monitor.recordPnl pnl now) pnl := by
  rw [recordTrade_eq, expireHalt_of_holdsAt hholds]
  refine bind_congr fun monitor => ?_
  have hresult : (m.withResult monitor pnl).isHalted := hhalted
  rw [trip_of_halted hresult, assess_of_halted hresult]
  rfl

/-- Until a halt ends, an equity only goes to the monitor. -/
theorem updateEquity_of_halted (equity : Decimal) :
    m.updateEquity equity now = do return { m with monitor := ← m.monitor.update equity now } := by
  unfold updateEquity
  rw [expireHalt_of_holdsAt hholds]
  exact bind_congr fun monitor => assess_of_halted (m := { m with monitor }) hhalted

/-- Until a halt ends, every signal is rejected because of it, once the equity has gone to the
monitor. -/
theorem evaluate_of_halted (s : Signal) (account : Exposure) :
    m.evaluate s account now = do
      let monitor ← m.monitor.update account.equity now
      let rejected : Outcome Approval := .error (.riskRejected .tradingHalted)
      return (note { m with monitor } s now rejected, rejected) := by
  rw [evaluate_eq]
  unfold judge
  simp only [expireHalt_of_holdsAt hholds, bind_assoc]
  refine bind_congr fun monitor => ?_
  -- the level is asked before the limits and before the signal
  have hhalted' : ({ m with monitor } : RiskManager).isHalted := hhalted
  rw [if_pos hhalted']
  rfl

end Holds

theorem sameHalt_step (hhalted : m.isHalted) (hop : op.Within m.haltedUntil)
    (h : m.step op = .ok (m', answer)) : m.SameHalt m' := by
  -- what a signal, a result or an equity changes is no part of a halt
  cases op with
  | evaluate s account now =>
    simp only [step, evaluate_of_halted hhalted (hop.lt now rfl), bind_assoc] at h
    obtain ⟨monitor, -, h⟩ := bind_eq_ok.mp h
    obtain ⟨rfl, -⟩ := Prod.mk.inj (pure_eq_ok.mp h)
    have hnote := sameHalt_note { m with monitor } s now (.error (.riskRejected .tradingHalted))
    exact (sameHalt_withMonitor m monitor).trans hnote
  | recordTrade pnl now =>
    simp only [step, recordTrade_of_halted hhalted (hop.lt now rfl), bind_assoc] at h
    obtain ⟨monitor, -, h⟩ := bind_eq_ok.mp h
    obtain ⟨rfl, -⟩ := Prod.mk.inj (pure_eq_ok.mp h)
    exact sameHalt_withResult m monitor pnl
  | updateEquity equity now =>
    simp only [step, updateEquity_of_halted hhalted (hop.lt now rfl), bind_assoc] at h
    obtain ⟨monitor, -, h⟩ := bind_eq_ok.mp h
    obtain ⟨rfl, -⟩ := Prod.mk.inj (pure_eq_ok.mp h)
    exact sameHalt_withMonitor m monitor
  | halt reason now => exact hop.passive.elim
  | reset now => exact hop.passive.elim
  | takeNewEvents =>
    obtain ⟨rfl, -⟩ := Prod.mk.inj (Except.ok.inj h)
    exact ⟨rfl, rfl, rfl, rfl⟩

theorem sameHalt_run (hhalted : m.isHalted) (hops : ∀ op ∈ ops, op.Within m.haltedUntil)
    (hrun : m.run ops = .ok m') : m.SameHalt m' := by
  refine run_induction (P := fun _ => m.SameHalt) hops hrun (.refl m) ?_
  intro _ op m₁ m₂ answer hsame hop hstep
  -- the end of the halt is still that of the start
  rw [← hsame.haltedUntil_eq] at hop
  exact hsame.trans (sameHalt_step (hsame.isHalted hhalted) hop hstep)

/-- A halt holds: whatever signals, results and equities come before its end, or at any time if it
has none, trading stays halted for the same reason until the same time, and every signal is rejected
because of the halt. -/
theorem halt_holds (hhalted : m.isHalted) (hops : ∀ op ∈ ops, op.Within m.haltedUntil)
    (hrun : m.run ops = .ok m') :
    (m'.isHalted ∧ m'.haltReason = m.haltReason ∧ m'.haltedUntil = m.haltedUntil) ∧
      ∀ before s account now after, ops = before ++ .evaluate s account now :: after →
        ∃ m₁ m₂, m.run before = .ok m₁ ∧
          m₁.evaluate s account now = .ok (m₂, .error (.riskRejected .tradingHalted)) := by
  refine ⟨?_, ?_⟩
  · have hsame := sameHalt_run hhalted hops hrun
    exact ⟨hsame.isHalted hhalted, hsame.haltReason_eq, hsame.haltedUntil_eq⟩
  · rintro before s account now after rfl
    -- the manager that meets the signal has the same halt still
    obtain ⟨m₁, hbefore, hrun⟩ := run_append.mp hrun
    obtain ⟨m₂, answer, hstep, -⟩ := run_cons.mp hrun
    have hsame : m.SameHalt m₁ :=
      sameHalt_run hhalted (fun op hop => hops op (List.mem_append_left _ hop)) hbefore
    have hholds : m₁.HoldsAt now := by
      unfold HoldsAt
      rw [hsame.haltedUntil_eq]
      exact (hops _ (List.mem_append_right _ List.mem_cons_self)).lt now rfl
    simp only [step, evaluate_of_halted (hsame.isHalted hhalted) hholds, bind_assoc] at hstep
    obtain ⟨monitor, hmonitor, -⟩ := bind_eq_ok.mp hstep
    refine ⟨m₁, note { m₁ with monitor } s now (.error (.riskRejected .tradingHalted)), hbefore, ?_⟩
    rw [evaluate_of_halted (hsame.isHalted hhalted) hholds, hmonitor]
    rfl

/-- A manager that has just halted for a streak of losses. -/
def halted : RiskManager :=
  (new {} (.lit 100000 0) default).halt (.consecutiveLosses 5) default

/-- A signal that makes no sense. -/
def blankSignal : Signal := ⟨"", .long, 0, 0, 0, "", 0, none, default⟩

/-- A gain and a new peak of the equity do not end the halt, and a signal without a symbol is
rejected because of it. -/
theorem halt_holds_blankSignal : ∃ m₁ m₂,
    halted.run [.recordTrade 1 default, .updateEquity (.lit 200000 0) default] = .ok m₁ ∧
    m₁.evaluate blankSignal ⟨.lit 200000 0, 0, []⟩ default =
      .ok (m₂, .error (.riskRejected .tradingHalted)) := by
  let ops : List Operation := [.recordTrade 1 default, .updateEquity (.lit 200000 0) default] ++
    [.evaluate blankSignal ⟨.lit 200000 0, 0, []⟩ default]
  have hend : halted.haltedUntil = some ⟨3600, 0, by decide⟩ := by decide +kernel
  have hops : ∀ op ∈ ops, op.Within halted.haltedUntil := by
    intro op hop
    rw [hend]
    simp only [ops, List.cons_append, List.nil_append, List.mem_cons, List.not_mem_nil,
      or_false] at hop
    rcases hop with rfl | rfl | rfl
    all_goals
      refine ⟨trivial, ?_⟩
      rintro _ ⟨⟩ _ ⟨⟩
      exact .inl (by decide)
  have hruns : ((halted.run ops).toOption.bind fun _ => some ()) = some () := by decide +kernel
  obtain ⟨m', hrun, -⟩ := Calc.exists_eq_ok hruns
  exact (halt_holds rfl hops hrun).2 _ _ _ _ _ rfl

/-! ## Halts without an end -/

/-- Only a halt for a reason other than a violated invariant has an end. -/
theorem haltEnd_eq_some {reason : HaltReason} {time : Instant} :
    m.haltEnd reason now = some time ↔ (∀ message, reason ≠ .invariantViolation message) ∧
      now.addSeconds? m.limits.haltDurationSecs = some time := by
  cases reason with
  | invariantViolation message =>
    constructor
    · exact nofun
    · rintro ⟨hreason, -⟩
      exact absurd rfl (hreason message)
  | _ => exact ⟨fun h => ⟨nofun, h⟩, And.right⟩

/-- The last halt by force among some operations was for a reason other than a violated invariant,
and ends at a time.  No reset comes after it. -/
def ForcedUntil (limits : RiskSettings) (ops : List Operation) (time : Instant) : Prop :=
  ∃ before reason begin after, ops = before ++ .halt reason begin :: after ∧
    (∀ message, reason ≠ .invariantViolation message) ∧
    begin.addSeconds? limits.haltDurationSecs = some time ∧ ∀ op ∈ after, op.Passive

/-- Some operation came when the last halt by force before it was over. -/
def Outlived (limits : RiskSettings) (ops : List Operation) : Prop :=
  ∃ before op after time, ops = before ++ op :: after ∧ ForcedUntil limits before time ∧
    ∃ now ∈ op.time?, time ≤ now

theorem ForcedUntil.concat {limits : RiskSettings} {time : Instant}
    (h : ForcedUntil limits ops time) (hop : op.Passive) :
    ForcedUntil limits (ops ++ [op]) time := by
  obtain ⟨before, reason, begin, after, rfl, hreason, hend, hafter⟩ := h
  refine ⟨before, reason, begin, after ++ [op], ?_, hreason, hend, ?_⟩
  · rw [List.append_assoc, List.cons_append]
  · intro op' hop'
    rcases List.mem_append.mp hop' with hop' | hop'
    · exact hafter op' hop'
    · obtain rfl := List.mem_singleton.mp hop'
      exact hop

theorem Outlived.concat {limits : RiskSettings} (h : Outlived limits ops) (op : Operation) :
    Outlived limits (ops ++ [op]) := by
  obtain ⟨before, op', after, time, rfl, hforced, hnow⟩ := h
  refine ⟨before, op', after ++ [op], time, ?_, hforced, hnow⟩
  rw [List.append_assoc, List.cons_append]

/-- Only a halt by force that has an end can be outlived. -/
theorem Outlived.exists_halt {limits : RiskSettings} (h : Outlived limits ops) :
    ∃ reason begin, .halt reason begin ∈ ops ∧ ∀ message, reason ≠ .invariantViolation message := by
  obtain ⟨_, op, after, time, rfl, ⟨before, reason, begin, between, rfl, hreason, -⟩, -⟩ := h
  refine ⟨reason, begin, ?_, hreason⟩
  exact List.mem_append_left _ (List.mem_append_right _ List.mem_cons_self)

/-- Trading is halted, and the halt has an end only if the last halt by force has it. -/
structure Stuck (limits : RiskSettings) (ops : List Operation) (m : RiskManager) : Prop where
  limits_eq : m.limits = limits
  isHalted : m.isHalted
  forced : ∀ time ∈ m.haltedUntil, ForcedUntil limits ops time

theorem stuck_halt {limits : RiskSettings} (hlimits : m.limits = limits) (reason : HaltReason)
    (now : Instant) : Stuck limits (ops ++ [.halt reason now]) (m.halt reason now) where
  limits_eq := hlimits
  isHalted := rfl
  forced time htime := by
    obtain ⟨hreason, hend⟩ := haltEnd_eq_some.mp htime
    rw [hlimits] at hend
    exact ⟨ops, reason, now, [], rfl, hreason, hend, List.forall_mem_nil _⟩

theorem stuck_violation (m : RiskManager) (message : String) (begin : Instant) :
    Stuck m.limits [] (m.halt (.invariantViolation message) begin) where
  limits_eq := rfl
  isHalted := rfl
  forced time htime := by
    have hend : (m.halt (.invariantViolation message) begin).haltedUntil = none := rfl
    rw [hend] at htime
    exact nomatch htime

/-- One more operation, unless it is a reset, leaves trading halted or comes after the end. -/
theorem Stuck.step {limits : RiskSettings} (h : Stuck limits ops m) (hop : ¬ op.Resets)
    (hstep : m.step op = .ok (m', answer)) :
    Stuck limits (ops ++ [op]) m' ∨ Outlived limits (ops ++ [op]) := by
  by_cases hpassive : op.Passive
  · by_cases hover : ∃ now ∈ op.time?, ∃ time ∈ m.haltedUntil, time ≤ now
    · obtain ⟨now, hnow, time, htime, hle⟩ := hover
      exact .inr ⟨ops, op, [], time, rfl, h.forced time htime, now, hnow, hle⟩
    · -- the end has not come, so the halt stays
      have hwithin : op.Within m.haltedUntil := by
        refine ⟨hpassive, fun now hnow time htime => Instant.not_le_iff.mp fun hle => ?_⟩
        exact hover ⟨now, hnow, time, htime, hle⟩
      have hsame := sameHalt_step h.isHalted hwithin hstep
      refine .inl ⟨hsame.limits_eq.trans h.limits_eq, hsame.isHalted h.isHalted, ?_⟩
      intro time htime
      rw [hsame.haltedUntil_eq] at htime
      exact (h.forced time htime).concat hpassive
  · -- a halt by force replaces the end by its own
    cases op with
    | halt reason now =>
      obtain ⟨rfl, -⟩ := Prod.mk.inj (Except.ok.inj hstep)
      exact .inl (stuck_halt h.limits_eq reason now)
    | reset now => exact absurd ⟨now, rfl⟩ hop
    | _ => exact absurd trivial hpassive

/-- A halt for a violated invariant is not lifted by the clock.  As long as nobody resets the
manager, trading stays halted after every operation, unless a halt by force for another reason takes
the place of the halt, and an operation comes when that one is over. -/
theorem violation_halt_lifted (m : RiskManager) (message : String) (begin : Instant)
    (hops : ∀ op ∈ ops, ¬ op.Resets)
    (hrun : (m.halt (.invariantViolation message) begin).run ops = .ok m') :
    (m'.isHalted ∧ ∀ time ∈ m'.haltedUntil, ForcedUntil m.limits ops time) ∨
      Outlived m.limits ops := by
  have hstuck : Stuck m.limits ops m' ∨ Outlived m.limits ops := by
    refine run_induction (P := fun ops m' => Stuck m.limits ops m' ∨ Outlived m.limits ops) hops
      hrun (.inl (stuck_violation m message begin)) ?_
    intro ops op m₁ m₂ answer hbefore hop hstep
    -- a halt that was outlived stays so, whatever comes
    rcases hbefore with hstuck | houtlived
    · exact hstuck.step hop hstep
    · exact .inr (houtlived.concat op)
  exact hstuck.imp_left fun hstuck => ⟨hstuck.isHalted, hstuck.forced⟩

/-- A manager that has just halted for a violated invariant. -/
def violated : RiskManager :=
  (new {} (.lit 100000 0) default).halt (.invariantViolation "negative balance") default

/-- The halt is still there at the last second of the calendar. -/
theorem violation_halt_lifted_lastSecond : ∃ m',
    violated.run [.updateEquity (.lit 100000 0) ⟨Instant.lastSecond, 0, by decide⟩] = .ok m' ∧
    m'.isHalted := by
  let ops : List Operation :=
    [.updateEquity (.lit 100000 0) ⟨Instant.lastSecond, 0, by decide⟩]
  have hruns : ((violated.run ops).toOption.bind fun _ => some ()) = some () := by decide +kernel
  obtain ⟨m', hrun, -⟩ := Calc.exists_eq_ok hruns
  have hops : ∀ op ∈ ops, ¬ op.Resets := by simp [ops, Operation.Resets]
  refine ⟨m', hrun, ?_⟩
  rcases violation_halt_lifted (new {} (.lit 100000 0) default) "negative balance" default hops hrun
    with ⟨hhalted, -⟩ | houtlived
  · exact hhalted
  · obtain ⟨_, _, hmem, -⟩ := houtlived.exists_halt
    exact nomatch List.mem_singleton.mp hmem

/-- A halt by force for a streak of losses, and an equity an hour later. -/
def replacingOps : List Operation :=
  [.halt (.consecutiveLosses 5) default, .updateEquity (.lit 100000 0) ⟨3600, 0, by decide⟩]

/-- The halt for a streak of losses takes the place of the one for a violated invariant, and the
clock lifts it after an hour.  Nobody has reset the manager. -/
theorem violation_halt_replaced :
    (∀ op ∈ replacingOps, ¬ op.Resets) ∧
      ∃ m', violated.run replacingOps = .ok m' ∧ m'.isHalted = false := by
  refine ⟨by simp [replacingOps, Operation.Resets], ?_⟩
  have hlifted : ((violated.run replacingOps).toOption.bind fun m' => some m'.isHalted) =
      some false := by decide +kernel
  obtain ⟨m', hrun, hhalted⟩ := Calc.exists_eq_ok hlifted
  exact ⟨m', hrun, Option.some.inj hhalted⟩

end RiskManager

end SimBroker
