import SimBroker.Proofs.Session.Call

/-!
# The run state of a session

A halted risk manager does not let the session run, and a limit that is exceeded at the equity of
the ledger has halted it.  The run state changes along few edges: a halted session goes on when it
is stopped or the halt is lifted by hand, only a running session is paused, and a session runs when
it is told to.

## Main definitions

* `Gated`: a halted manager does not let the session run

## Main results

* `Gated.performed`, `gated_run`: every call leaves the session so
* `Performed.edge`: the edges of the run state
* `exceeded_limit_halts`: the run state after a call of a run
-/

namespace SimBroker

namespace Session

open Session.Action

variable {s s' : Session} {call : Call} {clock : Clock} {limits : RiskSettings}

/-! ## Halts -/

/-- The limits are those of the settings, and a halted manager does not let the session run. -/
structure Gated (limits : RiskSettings) (s : Session) : Prop where
  limits_eq : s.risk.limits = limits
  status_of_halted : s.risk.isHalted → s.status ≠ .running ∧ s.status ≠ .paused

theorem gated_new {settings : Settings} {hub : Hub Message} {firstId : Uuid}
    (h : new settings hub firstId clock = .ok s) : s.Gated settings.risk := by
  simp only [new, Calc.bind_eq_ok, Calc.pure_eq_ok] at h
  obtain ⟨account, -, risk, -, rfl⟩ := h
  exact ⟨rfl, nofun⟩

/-- Every call leaves the session gated. -/
theorem Gated.performed (hs : s.Gated limits) (h : Performed call clock s s') :
    s'.Gated limits := by
  cases h with
  | synced _ acted synced =>
    exact ⟨synced.limits_eq.trans (acted.limits_eq.trans hs.limits_eq), synced.status_of_halted⟩
  | apart _ _ risk_eq status_eq =>
    refine ⟨(congrArg _ risk_eq).trans hs.limits_eq, ?_⟩
    rw [risk_eq, status_eq]
    exact hs.status_of_halted

theorem gated_run {settings : Settings} {hub : Hub Message} {firstId : Uuid} {u : Unit}
    {calls : List (Call × Clock)} {s₀ : Session} (hnew : new settings hub firstId clock = .ok s₀)
    (h : (runCalls calls).run s₀ = .ok u s) : s.Gated settings.risk :=
  runCalls_induction (gated_new hnew) (fun _ _ _ _ hs hcall => hs.performed hcall) h

/-! ## Edges -/

/-- The edges of the run state that a call may take. -/
inductive Edge : Call → TradingStatus → TradingStatus → Prop
  | same (call : Call) (status : TradingStatus) : Edge call status status
  | start : Edge .start .stopped .running
  | pause : Edge .pause .running .paused
  | resume : Edge .resume .paused .running
  | stop (status : TradingStatus) : Edge .stop status .stopped
  | resetCircuitBreaker : Edge .resetCircuitBreaker .halted .running
  | halt (call : Call) (status : TradingStatus) : Edge call status .halted

theorem Call.edge_target {status : TradingStatus} (h : call.endsInSync status) :
    Edge call status (call.target status) := by
  cases call with
  | start =>
    obtain rfl := of_decide_eq_true h
    exact .start
  | pause =>
    obtain rfl := of_decide_eq_true h
    exact .pause
  | resume =>
    obtain rfl := of_decide_eq_true h
    exact .resume
  | stop => exact .stop status
  | resetCircuitBreaker =>
    dsimp only [target]
    split
    · next hhalted =>
      rw [hhalted]
      exact .resetCircuitBreaker
    · exact .same _ status
  | _ => exact .same _ status

section Edges

variable {status : TradingStatus}

/-- A halt is left by a stop or by a reset. -/
theorem Edge.of_halted (h : Edge call .halted status) (hleft : status ≠ .halted) :
    call = .stop ∧ status = .stopped ∨ call = .resetCircuitBreaker := by
  cases h with
  | same | halt => exact absurd rfl hleft
  | stop => exact .inl ⟨rfl, rfl⟩
  | resetCircuitBreaker => exact .inr rfl

/-- Only a run is paused. -/
theorem Edge.of_paused (h : Edge call status .paused) (hnot : status ≠ .paused) :
    call = .pause ∧ status = .running := by
  cases h with
  | same => exact absurd rfl hnot
  | pause => exact ⟨rfl, rfl⟩

/-- A run begins when it is told to. -/
theorem Edge.of_running (h : Edge call status .running) (hnot : status ≠ .running) :
    call = .start ∨ call = .resume ∨ call = .resetCircuitBreaker := by
  cases h with
  | same => exact absurd rfl hnot
  | start => exact .inl rfl
  | resume => exact .inr (.inl rfl)
  | resetCircuitBreaker => exact .inr (.inr rfl)

end Edges

/-- Every call takes an edge. -/
theorem Performed.edge (h : Performed call clock s s') : Edge call s.status s'.status := by
  -- the work of a call may halt the session, and so may `sync` after it
  cases h with
  | apart _ _ _ status_eq =>
    rw [status_eq]
    exact .same call s.status
  | synced hsync acted synced =>
    rcases synced.status_eq_or with hstatus | hhalted
    · rw [hstatus]
      rcases acted.status_eq_or with htarget | hhalted
      · rw [htarget]
        exact Call.edge_target hsync
      · rw [hhalted]
        exact .halt call s.status
    · rw [hhalted]
      exact .halt call s.status

/-! ## Runs -/

/-- After every call of a run a halted risk manager does not let the session run.  After a call that
ends in `sync` the manager knows the equity of the ledger, and if at this equity a limit of the
settings is exceeded, then it is halted and the session is halted or stopped.  A halted session
goes on by a stop or by a reset only, a session is paused from a run only, and it runs after a
start, a resumption or a reset only. -/
theorem exceeded_limit_halts (settings : Settings) (hub : Hub Message) (firstId : Uuid)
    (begin : Clock) (calls : List (Call × Clock)) {s₀ : Session}
    (hnew : new settings hub firstId begin = .ok s₀) (hrun : (runCalls calls).run s₀ = .ok () s)
    (hcall : (perform call clock).run s = .ok () s') :
    (s'.risk.isHalted → s'.status ≠ .running ∧ s'.status ≠ .paused) ∧
    (call.endsInSync s.status →
      s'.ledger.equity = .ok s'.risk.monitor.currentEquity ∧
      (s'.risk.monitor.Exceeds settings.risk →
        s'.risk.isHalted ∧ (s'.status = .halted ∨ s'.status = .stopped))) ∧
    (s.status = .halted → s'.status ≠ .halted →
      call = .stop ∧ s'.status = .stopped ∨ call = .resetCircuitBreaker) ∧
    (s'.status = .paused → s.status ≠ .paused → call = .pause ∧ s.status = .running) ∧
    (s'.status = .running → s.status ≠ .running →
      call = .start ∨ call = .resume ∨ call = .resetCircuitBreaker) := by
  have hperformed := perform_cases hcall
  have hgated := (gated_run hnew hrun).performed hperformed
  have hedge := hperformed.edge
  refine ⟨hgated.status_of_halted, ?_, ?_, ?_, ?_⟩
  · intro hsync
    cases hperformed with
    | apart hapart => exact nomatch hsync.symm.trans hapart
    | synced _ _ synced =>
      refine ⟨synced.equity_eq, ?_⟩
      intro hexceeds
      have hhalted := synced.halted_of_exceeds (hgated.limits_eq ▸ hexceeds)
      obtain ⟨hrunning, hpaused⟩ := hgated.status_of_halted hhalted
      refine ⟨hhalted, ?_⟩
      cases hstatus : s'.status with
      | halted => exact .inl rfl
      | stopped => exact .inr rfl
      | running => exact absurd hstatus hrunning
      | paused => exact absurd hstatus hpaused
  · intro hhalted hleft
    rw [hhalted] at hedge
    exact hedge.of_halted hleft
  · intro hpaused hnot
    rw [hpaused] at hedge
    exact hedge.of_paused hnot
  · intro hrunning hnot
    rw [hrunning] at hedge
    exact hedge.of_running hnot

/-- A running session without costs. -/
def freeSettings : Settings :=
  { account := { commissionRate := 0, slippage := 0 }, session := { autoStart := true } }

/-- Half of the balance is put in a position, which loses a fifth of its value. -/
def losingCalls : List (Call × Clock) :=
  [(.price ⟨"A", .lit 100 0, default⟩, default),
    (.place (.market "A" .buy (.lit 500 0)), default),
    (.price ⟨"A", .lit 80 0, default⟩, default)]

/-- Closing the position realizes a loss of a tenth of the balance, twice what a day may lose. -/
theorem exceeded_limit_halts_day : ∃ s₀ s s',
    new freeSettings (.new 1) default default = .ok s₀ ∧
    (runCalls losingCalls).run s₀ = .ok () s ∧
    (perform (.close 1) default).run s = .ok () s' ∧ s.status = .running ∧
    s'.risk.monitor.Exceeds freeSettings.risk ∧
    s'.risk.isHalted ∧ (s'.status = .halted ∨ s'.status = .stopped) := by
  have hclosed : ((new freeSettings (.new 1) default default).toOption.bind fun s₀ =>
      (ended? (runCalls losingCalls) s₀).bind fun s =>
        (ended? (perform (.close 1) default) s).bind fun s' =>
          s'.risk.monitor.dailyLoss.toOption.bind fun loss =>
            some (s.status, decide (freeSettings.risk.maxDailyLossPct < loss))) =
      some (.running, true) := by decide +kernel
  obtain ⟨s₀, hnew, h⟩ := Calc.exists_eq_ok hclosed
  obtain ⟨s, hrun, h⟩ := Option.bind_eq_some_iff.mp h
  obtain ⟨s', hclose, h⟩ := Option.bind_eq_some_iff.mp h
  obtain ⟨loss, hloss, h⟩ := Calc.exists_eq_ok h
  obtain ⟨⟨⟩, hrun⟩ := ended?_eq_some.mp hrun
  obtain ⟨⟨⟩, hclose⟩ := ended?_eq_some.mp hclose
  obtain ⟨hrunning, hlt⟩ := Prod.mk.inj (Option.some.inj h)
  have hexceeds : s'.risk.monitor.Exceeds freeSettings.risk :=
    .inl ⟨loss, hloss, of_decide_eq_true hlt⟩
  obtain ⟨-, hsync, -⟩ :=
    exceeded_limit_halts freeSettings (.new 1) default default losingCalls hnew hrun hclose
  exact ⟨s₀, s, s', hnew, hrun, hclose, hrunning, hexceeds, (hsync rfl).2 hexceeds⟩

end Session

end SimBroker
