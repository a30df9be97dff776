import SimBroker.Proofs.Risk.Journal

/-!
# Counters of the risk manager

The manager counts its rejections by reason and its halts by kind, apart from the log in which it
tells of them.  An operation may log several decisions, or none; whichever they are, the counters
grow by those among them that they count.

## Main definitions

* `RiskDecision.rejects`, `RiskDecision.haltsFor`: the decisions that a counter counts
* `RiskManager.Counts`: the counters have grown by some events
* `RiskManager.Tells`: what was logged, whatever it was, was counted

## Main results

* `RiskManager.tells_recordTrade`, `RiskManager.tells_updateEquity`, `RiskManager.tells_evaluate`,
  `RiskManager.tells_halt`, `RiskManager.tells_reset`: every operation counts what it logs
* `RiskManager.Tells.counts_of_events`: with an empty log that is not filled, the log says what was
  counted
* `RiskManager.counts_run`: along every run the counters count the journal
-/

namespace SimBroker

open Calc (bind_eq_ok pure_eq_ok)

namespace HaltReason

/-- The kind of the halts for a violated invariant. -/
def violationKind : String := "invariant_violation"

theorem kind_eq_violationKind_iff {reason : HaltReason} :
    reason.kind = violationKind ↔ ∃ what, reason = .invariantViolation what := by
  cases reason with
  | invariantViolation what => exact iff_of_true rfl ⟨what, rfl⟩
  | _ => exact iff_of_false (by simp [kind, violationKind]) nofun

end HaltReason

namespace RiskDecision

/-- Whether a signal is rejected for a reason. -/
def rejects (reason : RejectReason) : RiskDecision → Bool
  | rejected r _ => r = reason
  | _ => false

/-- Whether trading is halted for a reason of a kind. -/
def haltsFor (kind : String) : RiskDecision → Bool
  | halted r => r.kind = kind
  | _ => false

end RiskDecision

namespace RiskManager

variable {m m' m₁ m₂ : RiskManager} {es es' : List RiskEvent} {now : Instant}
  {decision : RiskDecision} {op : Operation} {ops : List Operation}
  {answer : Option (Outcome Approval)}

/-- The counters have grown by some events: each rejection is counted for its reason, and each halt
for its kind. -/
structure Counts (m : RiskManager) (es : List RiskEvent) (m' : RiskManager) : Prop where
  rejections_eq : ∀ reason, m'.rejections.count reason =
    m.rejections.count reason + es.countP (·.decision.rejects reason)
  halts_eq : ∀ kind, m'.halts.count kind =
    m.halts.count kind + es.countP (·.decision.haltsFor kind)

namespace Counts

theorem of_eq (hrejections : m'.rejections = m.rejections) (hhalts : m'.halts = m.halts) :
    m.Counts [] m' where
  rejections_eq reason := congrArg (Tally.count · reason) hrejections
  halts_eq kind := congrArg (Tally.count · kind) hhalts

theorem trans (h : m.Counts es m₁) (h' : m₁.Counts es' m₂) : m.Counts (es ++ es') m₂ where
  rejections_eq reason := by
    rw [h'.rejections_eq, h.rejections_eq, List.countP_append, Nat.add_assoc]
  halts_eq kind := by
    rw [h'.halts_eq, h.halts_eq, List.countP_append, Nat.add_assoc]

theorem halts_le (h : m.Counts es m') (kind : String) :
    m.halts.count kind ≤ m'.halts.count kind := by
  rw [h.halts_eq]
  exact Nat.le_add_right ..

end Counts

/-- What was logged, whatever it was, was counted. -/
def Tells (m m' : RiskManager) : Prop := ∃ es, m.Records es m' ∧ m.Counts es m'

namespace Tells

theorem refl (m : RiskManager) : m.Tells m := ⟨[], .refl m, .of_eq rfl rfl⟩

theorem trans (h : m.Tells m₁) (h' : m₁.Tells m₂) : m.Tells m₂ := by
  obtain ⟨es, hrecords, hcounts⟩ := h
  obtain ⟨es', hrecords', hcounts'⟩ := h'
  exact ⟨es ++ es', hrecords.trans hrecords', hcounts.trans hcounts'⟩

/-- Equities and results are no part of a log, and are not counted by reason or kind. -/
theorem of_eq (h : m.Tells m₁) (hevents : m'.events = m₁.events) (hlevel : m'.level = m₁.level)
    (hrejections : m'.rejections = m₁.rejections) (hhalts : m'.halts = m₁.halts) : m.Tells m' := by
  obtain ⟨es, hrecords, hcounts⟩ := h
  refine ⟨es, ⟨fun all hall => ?_, ?_⟩, ⟨fun reason => ?_, fun kind => ?_⟩⟩
  · rw [hevents, hrecords.events_eq all hall]
  · rw [hlevel, hrecords.level_eq]
  · rw [hrejections, hcounts.rejections_eq]
  · rw [hhalts, hcounts.halts_eq]

/-- A decision that no counter counts is logged. -/
theorem of_logs (h : m.Logs [⟨decision, now⟩] m') (hrejections : m'.rejections = m.rejections)
    (hhalts : m'.halts = m.halts) (hrejects : ∀ reason, decision.rejects reason = false)
    (hhaltsFor : ∀ kind, decision.haltsFor kind = false) : m.Tells m' := by
  refine ⟨_, h.toRecords, fun reason => ?_, fun kind => ?_⟩
  · rw [hrejections, List.countP_singleton, hrejects]
    rfl
  · rw [hhalts, List.countP_singleton, hhaltsFor]
    rfl

theorem halts_le (h : m.Tells m') (kind : String) : m.halts.count kind ≤ m'.halts.count kind := by
  obtain ⟨_, -, hcounts⟩ := h
  exact hcounts.halts_le kind

/-- Where the log was empty and is not full, the counters have grown by what is in it. -/
theorem counts_of_events (h : m.Tells m') (hempty : m.events = [])
    (hlength : m'.events.length < maxRiskEvents) : m.Counts m'.events m' := by
  obtain ⟨es, hrecords, hcounts⟩ := h
  have hlast : m'.events = lastOf maxRiskEvents es := hrecords.events_eq [] hempty
  -- a log that has dropped an event is full
  have hall : es.length ≤ maxRiskEvents := by
    rw [hlast, lastOf, List.length_drop] at hlength
    omega
  rw [hlast, lastOf_eq_self hall]
  exact hcounts

end Tells

/-! ## The operations -/

theorem counts_halt (m : RiskManager) (reason : HaltReason) (now : Instant) :
    m.Counts [⟨.halted reason, now⟩] (m.halt reason now) where
  rejections_eq _ := rfl
  halts_eq kind := by
    show (m.halts.bump reason.kind).count kind = _
    rw [Tally.count_bump, List.countP_singleton, RiskDecision.haltsFor]
    simp only [decide_eq_true_eq]

theorem tells_halt (m : RiskManager) (reason : HaltReason) (now : Instant) :
    m.Tells (m.halt reason now) :=
  ⟨_, (logs_halt m reason now).toRecords, counts_halt m reason now⟩

theorem tells_reset (m : RiskManager) (now : Instant) : m.Tells (m.reset now) :=
  .of_logs (logs_reset m now) rfl rfl (fun _ => rfl) fun _ => rfl

theorem tells_expireHalt (m : RiskManager) (now : Instant) : m.Tells (m.expireHalt now) := by
  unfold expireHalt
  split
  · exact .of_logs (.push rfl rfl rfl) rfl rfl (fun _ => rfl) fun _ => rfl
  · exact .refl m

theorem tells_leveled (m : RiskManager) (warning : Option RiskWarning) (now : Instant) :
    m.Tells (m.leveled warning now) := by
  unfold leveled
  split
  · exact .of_logs (.push rfl rfl rfl) rfl rfl (fun _ => rfl) fun _ => rfl
  · exact .of_logs (.push rfl rfl rfl) rfl rfl (fun _ => rfl) fun _ => rfl
  · exact .refl m

theorem tells_assess (h : m.assess now = .ok m') : m.Tells m' := by
  cases assessed_of_assess h with
  | halted => exact .refl m
  | breached => exact tells_halt m _ now
  | within => exact tells_leveled m _ now

theorem tells_trip (m : RiskManager) (now : Instant) : m.Tells (m.trip now) := by
  unfold trip
  split
  · exact tells_halt m _ now
  · exact .refl m

theorem tells_recordTrade {pnl : Decimal} (h : m.recordTrade pnl now = .ok m') : m.Tells m' := by
  rw [recordTrade_eq, bind_eq_ok] at h
  obtain ⟨monitor, -, hassess⟩ := h
  have hresult : m.Tells ((m.expireHalt now).withResult monitor pnl) :=
    (tells_expireHalt m now).of_eq rfl rfl rfl rfl
  exact (hresult.trans (tells_trip _ now)).trans (tells_assess hassess)

theorem tells_updateEquity {equity : Decimal} (h : m.updateEquity equity now = .ok m') :
    m.Tells m' := by
  unfold updateEquity at h
  obtain ⟨monitor, -, hassess⟩ := bind_eq_ok.mp h
  have hequity : m.Tells { m.expireHalt now with monitor } :=
    (tells_expireHalt m now).of_eq rfl rfl rfl rfl
  exact hequity.trans (tells_assess hassess)

theorem tells_judge {s : Signal} {account : Exposure} {outcome : Outcome Approval}
    (h : m.judge s account now = .ok (m', outcome)) : m.Tells m' := by
  obtain ⟨monitor, -, hjudged⟩ := judge_eq_ok h
  have hequity : m.Tells { m.expireHalt now with monitor } :=
    (tells_expireHalt m now).of_eq rfl rfl rfl rfl
  rcases hjudged with ⟨rfl, -⟩ | ⟨reason, rfl, -⟩
  · exact hequity
  · exact hequity.trans (tells_halt _ reason now)

/-- A rejection is counted where it is logged. -/
theorem tells_note (m : RiskManager) (s : Signal) (now : Instant) (outcome : Outcome Approval) :
    m.Tells (m.note s now outcome) := by
  unfold note
  split
  · next reason =>
    have hlogs : m.Logs [⟨.rejected reason s.symbol, now⟩]
        ({ m with rejections := m.rejections.bump reason }.push (.rejected reason s.symbol) now) :=
      .push rfl rfl rfl
    refine ⟨_, hlogs.toRecords, fun other => ?_, fun _ => rfl⟩
    show (m.rejections.bump reason).count other = _
    rw [Tally.count_bump, List.countP_singleton, RiskDecision.rejects]
    simp only [decide_eq_true_eq]
  · exact .refl m

theorem tells_evaluate {s : Signal} {account : Exposure} {outcome : Outcome Approval}
    (h : m.evaluate s account now = .ok (m', outcome)) : m.Tells m' := by
  rw [evaluate_eq, bind_eq_ok] at h
  obtain ⟨⟨m₁, judged⟩, hjudge, h⟩ := h
  obtain ⟨rfl, -⟩ := Prod.mk.inj (pure_eq_ok.mp h)
  exact (tells_judge hjudge).trans (tells_note m₁ s now judged)

theorem tells_takeNewEvents (m : RiskManager) : m.Tells m.takeNewEvents.2 :=
  (Tells.refl m).of_eq rfl rfl rfl rfl

/-! ## Runs -/

theorem tells_step (h : m.step op = .ok (m', answer)) : m.Tells m' := by
  cases stepped_of_step h with
  | evaluate hevaluate => exact tells_evaluate hevaluate
  | recordTrade hrecord => exact tells_recordTrade hrecord
  | updateEquity hupdate => exact tells_updateEquity hupdate
  | halt reason now => exact tells_halt m reason now
  | reset now => exact tells_reset m now
  | takeNewEvents => exact tells_takeNewEvents m

/-- An operation counts the events that it emits. -/
theorem counts_emitted (hlog : m.events.length ≤ maxRiskEvents)
    (h : m.step op = .ok (m', answer)) : m.Counts (m.emitted op) m' := by
  obtain ⟨m₁, hstep, rfl⟩ := step_unlogged hlog h
  have hlength : m₁.events.length < maxRiskEvents := by
    by_cases hop : op = .takeNewEvents
    · subst hop
      obtain ⟨rfl, -⟩ := Prod.mk.inj (Except.ok.inj hstep)
      exact Nat.zero_lt_succ _
    · obtain ⟨es, hes, -, hlogs⟩ := emits_step hstep hop
      rw [hlogs.events_eq [] rfl, List.nil_append, lastOf_eq_self (Nat.le_trans hes (by decide))]
      exact Nat.lt_of_le_of_lt hes (by decide)
  have hemitted : m.emitted op = m₁.events := by
    rw [emitted, hstep]
    rfl
  -- neither counters nor what is counted depend on the log
  have hcounts := (tells_step hstep).counts_of_events rfl hlength
  rw [hemitted]
  exact ⟨hcounts.rejections_eq, hcounts.halts_eq⟩

/-- Along every run the counters count the journal. -/
theorem counts_run (hlog : m.events.length ≤ maxRiskEvents) (h : m.run ops = .ok m') :
    m.Counts (m.journal ops) m' := by
  induction ops generalizing m with
  | nil =>
    obtain rfl := pure_eq_ok.mp h
    exact .of_eq rfl rfl
  | cons op ops ih =>
    obtain ⟨m₁, answer, hstep, hrun⟩ := run_cons.mp h
    rw [journal_cons hstep]
    exact (counts_emitted hlog hstep).trans
      (ih ((records_emitted hlog hstep).length_le hlog) hrun)

end RiskManager

end SimBroker
