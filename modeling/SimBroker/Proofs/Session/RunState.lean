import SimBroker.Proofs.Session.Orders

/-!
# The answers of the run state calls

A change of the run state is answered by the state that it is for, and then `sync` may halt the
session: the answer to `start`, `pause` and `resume` is the run state unless the risk manager is
halted.  A session that was stopped during a halt shows this when it is started again.  A stopped
session is not halted, so `stop` answers what the run state is, and so does
`resetCircuitBreaker`, which looks at the run state last.

## Main results

* `transition_cases`: a change of the run state, and its refusal
* `status_of_answer`: the run state after each of the calls, from the answer to it
* `start_answers_running`: an answer that is not the run state
-/

namespace SimBroker

namespace Session

open Session.Action

variable {s s' : Session} {action : String} {sources : List TradingStatus}
  {target : TradingStatus} {clock : Clock} {answer : Outcome TradingStatus}

/-- A change of the run state from one of its sources is answered by its target, and a halt of the
risk manager halts a session that would go on.  From any other state it is refused. -/
theorem transition_cases (h : (transition action sources target clock).run s = .ok answer s') :
    (answer = .ok target ∧ s'.status =
      if s'.risk.isHalted ∧ (target = .running ∨ target = .paused) then .halted else target) ∨
    sources.contains s.status = false ∧ s' = s ∧
      answer = .error (.invalidState s!"cannot {action} while {s.status.name}") := by
  rcases transition_run h with ⟨-, rfl, hsync⟩ | hrefused
  · exact .inl ⟨rfl, (synced hsync).status_eq⟩
  · exact .inr hrefused

/-- A change to a state that goes on, by a name for it. -/
theorem transition_to_going (htarget : target = .running ∨ target = .paused)
    (h : (transition action sources target clock).run s = .ok answer s') :
    (∀ status, answer = .ok status →
      s'.status = if s'.risk.isHalted then .halted else status) ∧
    ∀ e, answer = .error e → (∃ message, e = .invalidState message) ∧ s' = s := by
  rcases transition_cases h with ⟨rfl, hstatus⟩ | ⟨-, hsame, rfl⟩
  · refine ⟨?_, nofun⟩
    intro status hok
    obtain rfl := Except.ok.inj hok
    simp only [hstatus, htarget, and_true]
  · refine ⟨nofun, ?_⟩
    intro e herror
    obtain rfl := Except.error.inj herror
    exact ⟨⟨_, rfl⟩, hsame⟩

/-- A session is stopped whatever it was, and the answer says so. -/
theorem status_of_stop (h : (stop clock).run s = .ok answer s') :
    answer = .ok .stopped ∧ s'.status = .stopped := by
  rcases transition_cases h with ⟨hanswer, hstatus⟩ | ⟨hsource, -⟩
  · -- a halt changes only a state that goes on
    have hstopped : ¬ (s'.risk.isHalted ∧
        (TradingStatus.stopped = .running ∨ TradingStatus.stopped = .paused)) := by
      rintro ⟨-, hrunning | hpaused⟩
      · exact nomatch hrunning
      · exact nomatch hpaused
    rw [if_neg hstopped] at hstatus
    exact ⟨hanswer, hstatus⟩
  · -- every run state may be left
    cases hs : s.status <;> rw [hs] at hsource <;> exact nomatch hsource

/-- The run state after a call that changes it.  If `start`, `pause` or `resume` is answered by a
run state, then this is the run state unless the risk manager is halted, and if it is, the session
is halted.  If one of them is refused, it says that the state is invalid, and nothing has changed.
`stop` is never refused.  What `stop` and `resetCircuitBreaker` answer is the run state. -/
theorem status_of_answer (s : Session) (clock : Clock) :
    (∀ call ∈ [start clock, pause clock, resume clock], ∀ answer s', call.run s = .ok answer s' →
      (∀ status, answer = .ok status →
        s'.status = if s'.risk.isHalted then .halted else status) ∧
      ∀ e, answer = .error e → (∃ message, e = .invalidState message) ∧ s' = s) ∧
    (∀ answer s', (stop clock).run s = .ok answer s' →
      answer = .ok .stopped ∧ s'.status = .stopped) ∧
    ∀ status s', (resetCircuitBreaker clock).run s = .ok status s' → s'.status = status := by
  refine ⟨?_, fun _ _ => status_of_stop, fun _ _ h => (resetCircuitBreaker_run h).1.symm⟩
  intro call hcall answer s' h
  simp only [List.mem_cons, List.not_mem_nil, or_false] at hcall
  rcases hcall with rfl | rfl | rfl
  · exact transition_to_going (.inl rfl) h
  · exact transition_to_going (.inr rfl) h
  · exact transition_to_going (.inl rfl) h

/-- A new session that does not start by itself is started, and refuses to be started again. -/
theorem status_of_answer_start : ∃ s₀ s s' e,
    new {} (.new 1) default default = .ok s₀ ∧
    (start default).run s₀ = .ok (.ok .running) s ∧ s.status = .running ∧
    (start default).run s = .ok (.error e) s' ∧ s' = s := by
  have hstarted : ((new {} (.new 1) default default).toOption.bind fun s₀ =>
      (ended? (start default) s₀).bind fun s => (answer? (start default) s₀).bind fun answer =>
        (answer? (start default) s).map fun again => (s.risk.isHalted, answer, again.toOption)) =
      some (false, .ok .running, none) := by decide +kernel
  obtain ⟨s₀, hnew, h⟩ := Calc.exists_eq_ok hstarted
  obtain ⟨s, hended, h⟩ := Option.bind_eq_some_iff.mp h
  obtain ⟨answer, hanswer, h⟩ := Option.bind_eq_some_iff.mp h
  obtain ⟨again, hagain, h⟩ := Option.map_eq_some_iff.mp h
  have hstart := run_eq_ok hended hanswer
  obtain ⟨s', hagain⟩ := answer?_eq_some.mp hagain
  simp only [Prod.mk.injEq] at h
  obtain ⟨hhalted, rfl, hrefused⟩ := h
  obtain ⟨hstatus, -⟩ := (status_of_answer s₀ default).1 _ List.mem_cons_self _ _ hstart
  cases again with
  | ok status => exact nomatch hrefused
  | error e =>
    obtain ⟨-, hsame⟩ := (status_of_answer s default).1 _ List.mem_cons_self _ _ hagain
    refine ⟨s₀, s, s', e, hnew, hstart, ?_, hagain, (hsame e rfl).2⟩
    rw [hstatus _ rfl, hhalted]
    rfl

/-- A session that was halted and stopped is started: the answer is that it runs, and it is halted
again. -/
theorem start_answers_running : ∃ s₀ s s',
    new freeSettings (.new 1) default default = .ok s₀ ∧
    (runCalls stoppedCalls).run s₀ = .ok () s ∧
    (start default).run s = .ok (.ok .running) s' ∧ s'.status = .halted := by
  have hstarted : ((new freeSettings (.new 1) default default).toOption.bind fun s₀ =>
      (ended? (runCalls stoppedCalls) s₀).bind fun s => (ended? (start default) s).bind fun s' =>
        (answer? (start default) s).map fun answer => (s'.status, answer)) =
      some (.halted, .ok .running) := by decide +kernel
  obtain ⟨s₀, hnew, h⟩ := Calc.exists_eq_ok hstarted
  obtain ⟨s, hrun, h⟩ := Option.bind_eq_some_iff.mp h
  obtain ⟨s', hended, h⟩ := Option.bind_eq_some_iff.mp h
  obtain ⟨answer, hanswer, h⟩ := Option.map_eq_some_iff.mp h
  obtain ⟨hstatus, rfl⟩ := Prod.mk.inj h
  obtain ⟨⟨⟩, hrun⟩ := ended?_eq_some.mp hrun
  exact ⟨s₀, s, s', hnew, hrun, run_eq_ok hended hanswer, hstatus⟩

end Session

end SimBroker
