import SimBroker.Proofs.Risk.Level

/-!
# The journal of the risk manager

All events that are emitted along a run explain the level: each change of the level is an event, and
each event says what the level is from then on.  The manager itself keeps only the last events, in
two bounded logs.  One is read by everybody and loses nothing but its oldest entries, the other is
emptied by whoever takes from it.  Both stay ends of the same journal, in whatever order events are
emitted and taken.

An operation does not look at the log, so the events that it emits are those that it leaves in an
empty one.

## Main definitions

* `RiskLevel.after`, `levelAfter`: the level that a decision leads to, and events in order
* `RiskManager.emitted`, `RiskManager.journal`: what an operation, and what a run, emits
* `RiskManager.takes`: what the takers of a run are given
* `RiskManager.Records`, `RiskManager.Logs`: some events go to the log that is kept, and to both
* `RiskManager.Emits`: a few events that go to both, with what they are

## Main results

* `RiskManager.emits_recordTrade`, `RiskManager.emits_updateEquity`, `RiskManager.emits_evaluate`:
  what the operations emit explains what they do to the level
* `RiskManager.records_run`, `RiskManager.logs_run`: what a run emits, with takes and without
* `RiskManager.journal_explains`: the journal, the level and both logs along every run
-/

namespace SimBroker

open Calc (bind_eq_ok pure_eq_ok)

/-- The level that a decision leads to. -/
def RiskLevel.after (level : RiskLevel) : RiskDecision → RiskLevel
  | .warning .. => .warning
  | .halted _ => .halted
  | .resumed _ | .recovered => .normal
  | .rejected .. => level

/-- The level that events lead to, in order. -/
def levelAfter (level : RiskLevel) (es : List RiskEvent) : RiskLevel :=
  es.foldl (fun level e => level.after e.decision) level

theorem levelAfter_append (level : RiskLevel) (es es' : List RiskEvent) :
    levelAfter level (es ++ es') = levelAfter (levelAfter level es) es' := List.foldl_append

theorem lastOf_sublist {α : Type} (n : Nat) (xs : List α) : (lastOf n xs).Sublist xs :=
  List.drop_sublist ..

theorem lastOf_lastOf {α : Type} (n k : Nat) (xs : List α) :
    lastOf n (lastOf k xs) = lastOf (min n k) xs := by
  rw [lastOf, lastOf, lastOf, List.drop_drop, List.length_drop]
  congr 1
  omega

namespace DrawdownMonitor

/-- The limits on losses and on the drawdown know nothing of a streak. -/
theorem breach?_ne_consecutiveLosses {m : DrawdownMonitor} {limits : RiskSettings} (n : Nat) :
    m.breach? limits ≠ .ok (some (.consecutiveLosses n)) := by
  intro h
  unfold breach? at h
  obtain ⟨daily, -, h⟩ := bind_eq_ok.mp h
  split at h
  · exact nomatch pure_eq_ok.mp h
  obtain ⟨weekly, -, h⟩ := bind_eq_ok.mp h
  split at h
  · exact nomatch pure_eq_ok.mp h
  obtain ⟨drawdown, -, h⟩ := bind_eq_ok.mp h
  split at h
  · exact nomatch pure_eq_ok.mp h
  · exact nomatch pure_eq_ok.mp h

end DrawdownMonitor

namespace RiskManager

variable {m m' m₁ m₂ : RiskManager} {earlier es es' : List RiskEvent} {now : Instant}
  {op : Operation} {ops : List Operation} {answer : Option (Outcome Approval)} {n n' : Nat}
  {P : RiskDecision → Prop}

/-! ## Events and the level -/

/-- Some events go to the log that is kept, and lead from the level before to the level after. -/
structure Records (m : RiskManager) (es : List RiskEvent) (m' : RiskManager) : Prop where
  events_eq : ∀ all, m.events = lastOf maxRiskEvents all →
    m'.events = lastOf maxRiskEvents (all ++ es)
  level_eq : m'.level = levelAfter m.level es

/-- Some events go to both logs, and lead from the level before to the level after. -/
structure Logs (m : RiskManager) (es : List RiskEvent) (m' : RiskManager) : Prop
    extends Records m es m' where
  unpublished_eq : ∀ all, m.unpublished = lastOf maxRiskEvents all →
    m'.unpublished = lastOf maxRiskEvents (all ++ es)

namespace Records

theorem refl (m : RiskManager) : m.Records [] m where
  events_eq all h := by rw [List.append_nil, h]
  level_eq := rfl

theorem trans (h : m.Records es m₁) (h' : m₁.Records es' m₂) : m.Records (es ++ es') m₂ where
  events_eq all hall := by
    rw [← List.append_assoc]
    exact h'.events_eq _ (h.events_eq all hall)
  level_eq := by rw [h'.level_eq, h.level_eq, levelAfter_append]

/-- A log that keeps its bound keeps it. -/
theorem length_le (h : m.Records es m') (hlog : m.events.length ≤ maxRiskEvents) :
    m'.events.length ≤ maxRiskEvents := by
  rw [h.events_eq _ (lastOf_eq_self hlog).symm]
  exact length_lastOf_le ..

end Records

namespace Logs

/-- Nothing of what is logged has changed. -/
theorem of_eq (hevents : m'.events = m.events) (hunpublished : m'.unpublished = m.unpublished)
    (hlevel : m'.level = m.level) : m.Logs [] m' where
  events_eq all h := by rw [hevents, h, List.append_nil]
  level_eq := hlevel
  unpublished_eq all h := by rw [hunpublished, h, List.append_nil]

theorem refl (m : RiskManager) : m.Logs [] m := of_eq rfl rfl rfl

theorem trans (h : m.Logs es m₁) (h' : m₁.Logs es' m₂) : m.Logs (es ++ es') m₂ where
  toRecords := h.toRecords.trans h'.toRecords
  unpublished_eq all hall := by
    rw [← List.append_assoc]
    exact h'.unpublished_eq _ (h.unpublished_eq all hall)

/-- A decision is logged by a manager whose level is already the one that it leads to. -/
theorem push {decision : RiskDecision} (hevents : m₁.events = m.events)
    (hunpublished : m₁.unpublished = m.unpublished) (hlevel : m₁.level = m.level.after decision) :
    m.Logs [⟨decision, now⟩] (m₁.push decision now) where
  events_eq all h := by
    show lastOf maxRiskEvents (m₁.events ++ _) = _
    rw [hevents, h, lastOf_lastOf_append]
  level_eq := hlevel
  unpublished_eq all h := by
    show lastOf maxRiskEvents (m₁.unpublished ++ _) = _
    rw [hunpublished, h, lastOf_lastOf_append]

end Logs

/-- At most `n` such decisions were logged. -/
def Emits (m : RiskManager) (n : Nat) (P : RiskDecision → Prop) (m' : RiskManager) : Prop :=
  ∃ es : List RiskEvent, es.length ≤ n ∧ (∀ e ∈ es, P e.decision) ∧ m.Logs es m'

namespace Emits

theorem of_logs_nil (h : m.Logs [] m') (n : Nat) (P : RiskDecision → Prop) : m.Emits n P m' :=
  ⟨[], Nat.zero_le n, List.forall_mem_nil _, h⟩

theorem refl (m : RiskManager) (n : Nat) (P : RiskDecision → Prop) : m.Emits n P m :=
  of_logs_nil (.refl m) n P

theorem single {decision : RiskDecision} (h : m.Logs [⟨decision, now⟩] m')
    (hP : P decision) : m.Emits 1 P m' :=
  ⟨_, Nat.le_refl _, fun _ he => List.mem_singleton.mp he ▸ hP, h⟩

theorem trans (h : m.Emits n P m₁) (h' : m₁.Emits n' P m₂) : m.Emits (n + n') P m₂ := by
  obtain ⟨es, hlength, hes, hlogs⟩ := h
  obtain ⟨es', hlength', hes', hlogs'⟩ := h'
  refine ⟨es ++ es', ?_, fun e he => ?_, hlogs.trans hlogs'⟩
  · rw [List.length_append]
    exact Nat.add_le_add hlength hlength'
  · exact (List.mem_append.mp he).elim (hes e) (hes' e)

theorem imp {Q : RiskDecision → Prop} (h : m.Emits n P m') (hPQ : ∀ d, P d → Q d) :
    m.Emits n Q m' := by
  obtain ⟨es, hlength, hes, hlogs⟩ := h
  exact ⟨es, hlength, fun e he => hPQ _ (hes e he), hlogs⟩

/-- Equities and results go to the monitor, which is no part of a log. -/
theorem withMonitor (h : m.Emits n P m') (monitor : DrawdownMonitor) :
    m.Emits n P { m' with monitor } := by
  obtain ⟨es, hlength, hes, hlogs⟩ := h
  exact ⟨es, hlength, hes, ⟨hlogs.events_eq, hlogs.level_eq⟩, hlogs.unpublished_eq⟩

end Emits

/-! ## What the operations emit -/

theorem logs_halt (m : RiskManager) (reason : HaltReason) (now : Instant) :
    m.Logs [⟨.halted reason, now⟩] (m.halt reason now) := .push rfl rfl rfl

theorem logs_reset (m : RiskManager) (now : Instant) :
    m.Logs [⟨.resumed true, now⟩] (m.reset now) := .push rfl rfl rfl

theorem emits_expireHalt (m : RiskManager) (now : Instant) :
    m.Emits 1 (· = .resumed false) (m.expireHalt now) := by
  unfold expireHalt
  split
  · exact .single (.push rfl rfl rfl) rfl
  · exact .refl ..

theorem emits_leveled (m : RiskManager) (warning : Option RiskWarning) (now : Instant) :
    m.Emits 1 (∀ reason, · ≠ .halted reason) (m.leveled warning now) := by
  unfold leveled
  split
  · exact .single (.push rfl rfl rfl) fun _ => nofun
  · exact .single (.push rfl rfl rfl) fun _ => nofun
  · exact .refl ..

/-- Bringing the level up to date halts for a limit, and never for a streak of losses. -/
theorem emits_assessed (h : m.Assessed now m') :
    m.Emits 1 (∀ n, · ≠ .halted (.consecutiveLosses n)) m' := by
  cases h with
  | halted => exact .refl ..
  | @breached reason _ breach?_eq =>
    refine .single (logs_halt m reason now) fun n hdecision => ?_
    obtain rfl := RiskDecision.halted.inj hdecision
    exact DrawdownMonitor.breach?_ne_consecutiveLosses n breach?_eq
  | @within warning => exact (emits_leveled m warning now).imp fun d hd n => hd _

/-- A halt for a streak of losses names the streak of the manager, and that is too long. -/
def StreakNamed (m : RiskManager) (decision : RiskDecision) : Prop :=
  ∀ n, decision = .halted (.consecutiveLosses n) →
    m.limits.circuitBreakerEnabled ∧ m.limits.maxConsecutiveLosses ≤ n ∧ n = m.consecutiveLosses

theorem emits_trip (m : RiskManager) (now : Instant) : m.Emits 1 m.StreakNamed (m.trip now) := by
  unfold trip
  split
  · next htripped =>
    obtain ⟨henabled, -, hstreak⟩ := htripped
    refine .single (logs_halt m _ now) fun n hdecision => ?_
    obtain rfl := HaltReason.consecutiveLosses.inj (RiskDecision.halted.inj hdecision)
    exact ⟨henabled, hstreak, rfl⟩
  · exact .refl ..

/-- A result may emit the end of a halt, a halt for the streak of losses that it leads to, and what
the limits call for. -/
theorem emits_recordTrade {pnl : Decimal} (h : m.recordTrade pnl now = .ok m') :
    ∃ monitor, m.Emits 3 ((m.expireHalt now).withResult monitor pnl).StreakNamed m' := by
  rw [recordTrade_eq, bind_eq_ok] at h
  obtain ⟨monitor, -, hassess⟩ := h
  refine ⟨monitor, ?_⟩
  generalize hresult : (m.expireHalt now).withResult monitor pnl = result at hassess ⊢
  have hrecorded : m.Emits 1 result.StreakNamed result := by
    obtain ⟨es, hlength, hes, hlogs⟩ := emits_expireHalt m now
    refine ⟨es, hlength, fun e he n hdecision => ?_, ?_⟩
    · exact nomatch (hes e he).symm.trans hdecision
    · exact hresult ▸ ⟨⟨hlogs.events_eq, hlogs.level_eq⟩, hlogs.unpublished_eq⟩
  have hassessed : (result.trip now).Emits 1 result.StreakNamed m' :=
    (emits_assessed (assessed_of_assess hassess)).imp fun d hd n hdecision => (hd n hdecision).elim
  exact (hrecorded.trans (emits_trip result now)).trans hassessed

theorem emits_updateEquity {equity : Decimal} (h : m.updateEquity equity now = .ok m') :
    m.Emits 2 (fun _ => True) m' := by
  unfold updateEquity at h
  obtain ⟨monitor, -, hassess⟩ := bind_eq_ok.mp h
  have hexpire := ((emits_expireHalt m now).withMonitor monitor).imp fun _ _ => trivial
  exact hexpire.trans ((emits_assessed (assessed_of_assess hassess)).imp fun _ _ => trivial)

theorem emits_judge {s : Signal} {account : Exposure} {outcome : Outcome Approval}
    (h : m.judge s account now = .ok (m', outcome)) : m.Emits 2 (fun _ => True) m' := by
  obtain ⟨monitor, -, hjudged⟩ := judge_eq_ok h
  have hexpire := ((emits_expireHalt m now).withMonitor monitor).imp fun _ _ => trivial
  rcases hjudged with ⟨rfl, -⟩ | ⟨reason, rfl, -⟩
  · exact hexpire.trans (.refl _ 1 _)
  · exact hexpire.trans (.single (logs_halt _ reason now) trivial)

theorem emits_note (m : RiskManager) (s : Signal) (now : Instant) (outcome : Outcome Approval) :
    m.Emits 1 (fun _ => True) (m.note s now outcome) := by
  unfold note
  split
  · exact .single (.push rfl rfl rfl) trivial
  · exact .refl ..

theorem emits_evaluate {s : Signal} {account : Exposure} {outcome : Outcome Approval}
    (h : m.evaluate s account now = .ok (m', outcome)) : m.Emits 3 (fun _ => True) m' := by
  rw [evaluate_eq, bind_eq_ok] at h
  obtain ⟨⟨m₁, judged⟩, hjudge, h⟩ := h
  obtain ⟨rfl, -⟩ := Prod.mk.inj (pure_eq_ok.mp h)
  exact (emits_judge hjudge).trans (emits_note m₁ s now judged)

/-- Every operation logs what it emits, unless it only takes from a log. -/
theorem emits_step (h : m.step op = .ok (m', answer)) (hop : op ≠ .takeNewEvents) :
    m.Emits 3 (fun _ => True) m' := by
  cases stepped_of_step h with
  | evaluate hevaluate => exact emits_evaluate hevaluate
  | recordTrade hrecord =>
    obtain ⟨monitor, hemits⟩ := emits_recordTrade hrecord
    exact hemits.imp fun _ _ => trivial
  | updateEquity hupdate => exact (emits_updateEquity hupdate).trans (.refl _ 1 _)
  | halt reason now => exact (Emits.single (logs_halt m reason now) trivial).trans (.refl _ 2 _)
  | reset now => exact (Emits.single (logs_reset m now) trivial).trans (.refl _ 2 _)
  | takeNewEvents => exact absurd rfl hop

/-! ## The events of an operation -/

/-- The manager with an empty log. -/
def unlogged (m : RiskManager) : RiskManager := { m with events := [] }

/-- The events that an operation emits: those that it leaves in an empty log. -/
def emitted (m : RiskManager) (op : Operation) : List RiskEvent :=
  ((m.unlogged.step op).toOption.map (·.1.events)).getD []

/-- An operation does the same whatever events are in the log. -/
theorem step_behind (op : Operation) :
    (m.behind earlier).step op = Prod.map (behind earlier) id <$> m.step op := by
  cases op with
  | evaluate s account now =>
    show (m.behind earlier).evaluate s account now >>= _ = _ <$> (m.evaluate s account now >>= _)
    rw [evaluate_behind, map_bind, bind_map_left]
    rfl
  | recordTrade pnl now =>
    show (m.behind earlier).recordTrade pnl now >>= _ = _ <$> (m.recordTrade pnl now >>= _)
    rw [recordTrade_behind, map_bind, bind_map_left]
    rfl
  | updateEquity equity now =>
    show (m.behind earlier).updateEquity equity now >>= _ =
      _ <$> (m.updateEquity equity now >>= _)
    rw [updateEquity_behind, map_bind, bind_map_left]
    rfl
  | halt reason now => exact congrArg (fun m => Except.ok (m, none)) (halt_behind reason)
  | reset now => exact congrArg (fun m => Except.ok (m, none)) reset_behind
  | takeNewEvents => rfl

theorem behind_unlogged (hlog : m.events.length ≤ maxRiskEvents) :
    m.unlogged.behind m.events = m := by
  have hevents : lastOf maxRiskEvents (m.events ++ []) = m.events := by
    rw [List.append_nil, lastOf_eq_self hlog]
  exact congrArg (fun events => { m with events }) hevents

/-- An operation does the same with an empty log, apart from what it finds there. -/
theorem step_unlogged (hlog : m.events.length ≤ maxRiskEvents)
    (h : m.step op = .ok (m', answer)) :
    ∃ m₁, m.unlogged.step op = .ok (m₁, answer) ∧ m₁.behind m.events = m' := by
  rw [← behind_unlogged hlog, step_behind] at h
  cases hstep : m.unlogged.step op with
  | error e =>
    rw [hstep] at h
    exact nomatch h
  | ok r =>
    rw [hstep] at h
    obtain ⟨hm', hanswer⟩ := Prod.mk.inj (Except.ok.inj h)
    exact ⟨r.1, congrArg (fun a => Except.ok (r.1, a)) hanswer, hm'⟩

/-- What is logged in an empty log is all that an operation emits. -/
theorem emitted_eq_of_logs (hstep : m.unlogged.step op = .ok (m₁, answer))
    (hlogs : m.unlogged.Logs es m₁) (hlength : es.length ≤ maxRiskEvents) : m.emitted op = es := by
  have hevents : m₁.events = es := by
    rw [hlogs.events_eq [] rfl, List.nil_append, lastOf_eq_self hlength]
  rw [emitted, hstep]
  exact hevents

theorem logs_emitted (hlog : m.events.length ≤ maxRiskEvents)
    (h : m.step op = .ok (m', answer)) (hop : op ≠ .takeNewEvents) : m.Logs (m.emitted op) m' := by
  obtain ⟨m₁, hstep, rfl⟩ := step_unlogged hlog h
  obtain ⟨es, hlength, -, hlogs⟩ := emits_step hstep hop
  rw [emitted_eq_of_logs hstep hlogs (Nat.le_trans hlength (by decide))]
  refine ⟨⟨fun all hall => ?_, hlogs.level_eq⟩, hlogs.unpublished_eq⟩
  -- the events are found behind those that were in the log
  show lastOf maxRiskEvents (m.events ++ m₁.events) = _
  rw [hall, hlogs.events_eq [] rfl, List.nil_append, lastOf_lastOf_append, lastOf_append_lastOf]

/-- Whoever takes from the log for takers leaves the log that is kept, and the level. -/
theorem records_emitted (hlog : m.events.length ≤ maxRiskEvents)
    (h : m.step op = .ok (m', answer)) : m.Records (m.emitted op) m' := by
  by_cases hop : op = .takeNewEvents
  · subst hop
    obtain ⟨rfl, -⟩ := Prod.mk.inj (Except.ok.inj h)
    exact ⟨(Records.refl m).events_eq, rfl⟩
  · exact (logs_emitted hlog h hop).toRecords

/-! ## The events of a run -/

/-- The events that a run emits, in order. -/
def journal : RiskManager → List Operation → List RiskEvent
  | _, [] => []
  | m, op :: ops => m.emitted op ++ ((m.step op).toOption.map fun r => journal r.1 ops).getD []

/-- What the takers of new events are given along a run, in order. -/
def takes : RiskManager → List Operation → List (List RiskEvent)
  | _, [] => []
  | m, op :: ops =>
    let later := ((m.step op).toOption.map fun r => takes r.1 ops).getD []
    match op with
    | .takeNewEvents => m.takeNewEvents.1 :: later
    | _ => later

theorem journal_cons (h : m.step op = .ok (m₁, answer)) :
    m.journal (op :: ops) = m.emitted op ++ m₁.journal ops := by
  rw [journal, h]
  rfl

theorem journal_append {ops' : List Operation} (h : m.run ops = .ok m₁) :
    m.journal (ops ++ ops') = m.journal ops ++ m₁.journal ops' := by
  induction ops generalizing m with
  | nil =>
    obtain rfl := pure_eq_ok.mp h
    rfl
  | cons op ops ih =>
    obtain ⟨m₂, answer, hstep, hrun⟩ := run_cons.mp h
    rw [List.cons_append, journal_cons hstep, journal_cons hstep, ih hrun, List.append_assoc]

theorem takes_cons (h : m.step op = .ok (m₁, answer)) (hop : op ≠ .takeNewEvents) :
    m.takes (op :: ops) = m₁.takes ops := by
  cases op with
  | takeNewEvents => exact absurd rfl hop
  | _ =>
    rw [takes, h]
    · rfl
    · exact nofun

/-- A run keeps the last of its events, and its events lead to the level. -/
theorem records_run (hlog : m.events.length ≤ maxRiskEvents) (h : m.run ops = .ok m') :
    m.Records (m.journal ops) m' := by
  induction ops generalizing m with
  | nil =>
    obtain rfl := pure_eq_ok.mp h
    exact .refl m
  | cons op ops ih =>
    obtain ⟨m₁, answer, hstep, hrun⟩ := run_cons.mp h
    rw [journal_cons hstep]
    have hrecords := records_emitted hlog hstep
    exact hrecords.trans (ih (hrecords.length_le hlog) hrun)

/-- While nobody takes, the last events of a run are in both logs. -/
theorem logs_run (hlog : m.events.length ≤ maxRiskEvents) (hops : .takeNewEvents ∉ ops)
    (h : m.run ops = .ok m') : m.Logs (m.journal ops) m' := by
  induction ops generalizing m with
  | nil =>
    obtain rfl := pure_eq_ok.mp h
    exact .refl m
  | cons op ops ih =>
    obtain ⟨m₁, answer, hstep, hrun⟩ := run_cons.mp h
    rw [journal_cons hstep]
    have hop : op ≠ .takeNewEvents := fun heq => hops (heq ▸ List.mem_cons_self)
    have hlogs := logs_emitted hlog hstep hop
    have hlater := fun hmem => hops (List.mem_cons_of_mem _ hmem)
    exact hlogs.trans (ih (hlogs.length_le hlog) hlater hrun)

/-- What is given to takers, and then what is there for the next one, are events of the run in their
order, behind what was there for the first. -/
theorem takes_sublist (hlog : m.events.length ≤ maxRiskEvents)
    (hunpublished : m.unpublished.length ≤ maxRiskEvents) (h : m.run ops = .ok m') :
    ((m.takes ops).flatten ++ m'.unpublished).Sublist (m.unpublished ++ m.journal ops) := by
  induction ops generalizing m with
  | nil =>
    obtain rfl := pure_eq_ok.mp h
    exact List.sublist_append_left _ _
  | cons op ops ih =>
    obtain ⟨m₁, answer, hstep, hrun⟩ := run_cons.mp h
    have hrecords := records_emitted hlog hstep
    rw [journal_cons hstep]
    by_cases hop : op = .takeNewEvents
    · subst hop
      obtain ⟨rfl, -⟩ := Prod.mk.inj (Except.ok.inj hstep)
      have hlater := ih (hrecords.length_le hlog) (Nat.zero_le _) hrun
      show (m.unpublished ++ (takes m.takeNewEvents.2 ops).flatten ++ m'.unpublished).Sublist _
      rw [List.append_assoc]
      exact (List.Sublist.refl m.unpublished).append hlater
    · -- what leaves the log for takers is never given to one
      have hlogs := logs_emitted hlog hstep hop
      have hnext := hlogs.unpublished_eq _ (lastOf_eq_self hunpublished).symm
      have hbound : m₁.unpublished.length ≤ maxRiskEvents := hnext ▸ length_lastOf_le ..
      rw [takes_cons hstep hop, ← List.append_assoc]
      refine (ih (hrecords.length_le hlog) hbound hrun).trans ?_
      exact (hnext ▸ lastOf_sublist ..).append (List.Sublist.refl _)

/-- The journal explains the level: all events so far, in order, lead from the normal level to the
level that there is.  What is shown as recent are the last events of the journal, and a taker of new
events is given the last of those since the take before, or since the start.  No event is given
twice. -/
theorem journal_explains (limits : RiskSettings) (equity : Decimal) (begin : Instant)
    (hrun : (new limits equity begin).run ops = .ok m) :
    (levelAfter .normal ((new limits equity begin).journal ops) = m.level ∧
      ∀ n, m.recentEvents n =
        lastOf (min n maxRiskEvents) ((new limits equity begin).journal ops)) ∧
    (∀ before since m₁, ops = before ++ since → (∀ op ∈ before.getLast?, op = .takeNewEvents) →
      .takeNewEvents ∉ since → (new limits equity begin).run before = .ok m₁ →
        (new limits equity begin).journal ops =
            (new limits equity begin).journal before ++ m₁.journal since ∧
          m.takeNewEvents.1 = lastOf maxRiskEvents (m₁.journal since)) ∧
    ((new limits equity begin).takes ops).flatten.Sublist
      ((new limits equity begin).journal ops) := by
  have hlog : (new limits equity begin).events.length ≤ maxRiskEvents := Nat.zero_le _
  have hrecords := records_run hlog hrun
  refine ⟨⟨hrecords.level_eq.symm, fun n => ?_⟩, ?_, ?_⟩
  · rw [recentEvents, hrecords.events_eq [] rfl, List.nil_append, lastOf_lastOf]
  · rintro before since m₁ rfl htake hsince hbefore
    refine ⟨journal_append hbefore, ?_⟩
    obtain ⟨m₂, hbefore', hrun⟩ := run_append.mp hrun
    obtain rfl := Except.ok.inj (hbefore'.symm.trans hbefore)
    -- nobody has taken since, and nothing was left for takers then
    have hempty : m₂.unpublished = [] := by
      rcases List.eq_nil_or_concat before with rfl | ⟨earlier, op, rfl⟩
      · obtain rfl := pure_eq_ok.mp hbefore
        rfl
      · rw [List.concat_eq_append] at htake hbefore
        obtain rfl := htake op List.getLast?_concat
        obtain ⟨m₃, answer, -, hstep⟩ := run_concat.mp hbefore
        obtain ⟨rfl, -⟩ := Prod.mk.inj (Except.ok.inj hstep)
        rfl
    have hlogs := logs_run ((records_run hlog hbefore).length_le hlog) hsince hrun
    exact hlogs.unpublished_eq [] hempty
  · exact (List.sublist_append_left _ _).trans (takes_sublist hlog (Nat.zero_le _) hrun)

/-- A drawdown near the limit, and a taker of the warning. -/
def warned : List Operation := [.updateEquity (.lit 87000 0) default, .takeNewEvents]

/-- A drawdown beyond the limit. -/
def fallen : List Operation := [.updateEquity (.lit 80000 0) default]

/-- The journal holds the warning and the halt, and the next taker is given the halt alone. -/
theorem journal_explains_fallen : ∃ m m₁,
    (new {} (.lit 100000 0) default).run (warned ++ fallen) = .ok m ∧
    (new {} (.lit 100000 0) default).run warned = .ok m₁ ∧
    levelAfter .normal ((new {} (.lit 100000 0) default).journal (warned ++ fallen)) = .halted ∧
    m.recentEvents 7 =
      lastOf 7 ((new {} (.lit 100000 0) default).journal (warned ++ fallen)) ∧
    m.takeNewEvents.1 = lastOf maxRiskEvents (m₁.journal fallen) ∧
    m.takeNewEvents.1 = [⟨.halted (.maxDrawdownReached (.lit 20 2)), default⟩] := by
  have hruns : ((new {} (.lit 100000 0) default).run (warned ++ fallen)).toOption.bind (fun m =>
      ((new {} (.lit 100000 0) default).run warned).toOption.bind fun _ =>
        some (m.level, m.takeNewEvents.1)) =
      some (.halted, [⟨.halted (.maxDrawdownReached (.lit 20 2)), default⟩]) := by decide +kernel
  obtain ⟨m, hrun, h⟩ := Calc.exists_eq_ok hruns
  obtain ⟨m₁, hwarned, h⟩ := Calc.exists_eq_ok h
  obtain ⟨hlevel, htaken⟩ := Prod.mk.inj (Option.some.inj h)
  obtain ⟨⟨hexplained, hrecent⟩, hsince, -⟩ := journal_explains {} (.lit 100000 0) default hrun
  have htake : ∀ op ∈ warned.getLast?, op = .takeNewEvents := by simp [warned]
  have hnone : .takeNewEvents ∉ fallen := by simp [fallen]
  obtain ⟨-, hgiven⟩ := hsince warned fallen m₁ rfl htake hnone hwarned
  exact ⟨m, m₁, hrun, hwarned, hexplained.trans hlevel, hrecent 7, hgiven, htaken⟩

end RiskManager

end SimBroker
