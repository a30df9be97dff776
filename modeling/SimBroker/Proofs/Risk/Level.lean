import SimBroker.Proofs.Risk.Halts

/-!
# The risk level

The level changes by edges: a warning raises it from normal, the end of the warning lowers it again,
a halt takes it over, and the end of a halt puts it back to normal.  After a result or an equity it
is nevertheless a function of the state alone: halted as long as there is a reason to halt, and
otherwise a warning exactly while some metric has reached its share of a limit.

## Main definitions

* `DrawdownMonitor.Nears`: a loss or the drawdown has reached its share of the limit
* `RiskManager.LevelSound`: the level, the reason and the end of a halt fit together

## Main results

* `DrawdownMonitor.warning?_isSome_iff`: there is a warning exactly when a metric nears its limit
* `RiskManager.level_leveled`: the edges lead to the level that the warning calls for
* `RiskManager.LevelSound.step`: every operation keeps level, reason and end fitting together
* `RiskManager.level_exact`: what the level is along every run
-/

namespace SimBroker

open Calc (bind_eq_ok pure_eq_ok)

namespace DrawdownMonitor

variable {m : DrawdownMonitor} {limits : RiskSettings} {warning : Option RiskWarning}

/-- A metric is positive and has reached its share of a limit. -/
def NearLimit (threshold : Decimal) (metric : Calc Decimal) (limit : Decimal) : Prop :=
  ∃ value bound, metric = .ok value ∧ limit.mul threshold = .ok bound ∧ 0 < value ∧ bound ≤ value

/-- A loss or the drawdown has reached its share of the limit. -/
def Nears (m : DrawdownMonitor) (limits : RiskSettings) : Prop :=
  NearLimit limits.warningThreshold m.currentDrawdown limits.maxDrawdownPct ∨
  NearLimit limits.warningThreshold m.dailyLoss limits.maxDailyLossPct ∨
  NearLimit limits.warningThreshold m.weeklyLoss limits.maxWeeklyLossPct

theorem firstWarning?_isSome_iff {threshold : Decimal} {ws : List RiskWarning}
    (h : firstWarning? threshold ws = .ok warning) :
    warning.isSome ↔ ∃ w ∈ ws, NearLimit threshold (.ok w.value) w.limit := by
  induction ws with
  | nil =>
    obtain rfl := pure_eq_ok.mp h
    simp
  | cons w ws ih =>
    simp only [List.mem_cons, exists_eq_or_imp]
    unfold firstWarning? at h
    split at h
    · next hpos =>
      obtain ⟨bound, hbound, h⟩ := bind_eq_ok.mp h
      split at h
      · next hle =>
        obtain rfl := pure_eq_ok.mp h
        exact iff_of_true rfl (.inl ⟨w.value, bound, rfl, hbound, hpos, hle⟩)
      · next hnot =>
        -- the metric is below its share of the limit, so the others decide
        rw [ih h]
        refine (or_iff_right ?_).symm
        rintro ⟨value, bound', hvalue, hbound', -, hle⟩
        obtain rfl := Except.ok.inj hvalue
        obtain rfl := Except.ok.inj (hbound.symm.trans hbound')
        exact hnot hle
    · next hnot =>
      -- a metric that is not positive is no reason to warn, so the others decide
      rw [ih h]
      refine (or_iff_right ?_).symm
      rintro ⟨value, bound, hvalue, -, hpos, -⟩
      obtain rfl := Except.ok.inj hvalue
      exact hnot hpos

/-- There is a warning exactly when a metric nears its limit. -/
theorem warning?_isSome_iff (h : m.warning? limits = .ok warning) :
    warning.isSome ↔ m.Nears limits := by
  unfold warning? at h
  obtain ⟨drawdown, hdrawdown, h⟩ := bind_eq_ok.mp h
  obtain ⟨daily, hdaily, h⟩ := bind_eq_ok.mp h
  obtain ⟨weekly, hweekly, h⟩ := bind_eq_ok.mp h
  rw [firstWarning?_isSome_iff h, Nears, hdrawdown, hdaily, hweekly]
  simp

end DrawdownMonitor

namespace RiskManager

variable {m m' m₁ : RiskManager} {limits : RiskSettings} {now : Instant} {op : Operation}
  {answer : Option (Outcome Approval)}

/-! ## Level, reason and end of a halt -/

/-- The limits are these.  Trading is halted exactly when there is a reason for it, and a halt that
has an end is a halt. -/
structure LevelSound (limits : RiskSettings) (m : RiskManager) : Prop where
  limits_eq : m.limits = limits
  halted_iff : m.level = .halted ↔ m.haltReason.isSome
  halted_of_until : m.haltedUntil.isSome → m.level = .halted

theorem levelSound_new (limits : RiskSettings) (equity : Decimal) (begin : Instant) :
    LevelSound limits (new limits equity begin) :=
  ⟨rfl, iff_of_false nofun nofun, nofun⟩

theorem levelSound_halt (h : m.limits = limits) (reason : HaltReason) (now : Instant) :
    LevelSound limits (m.halt reason now) :=
  ⟨h, iff_of_true rfl rfl, fun _ => rfl⟩

theorem isHalted_iff : m.isHalted ↔ m.level = .halted := beq_iff_eq

namespace LevelSound

theorem of_sameHalt (h : LevelSound limits m) (hsame : m.SameHalt m') : LevelSound limits m' where
  limits_eq := hsame.limits_eq.trans h.limits_eq
  halted_iff := by
    rw [hsame.level_eq, hsame.haltReason_eq]
    exact h.halted_iff
  halted_of_until := by
    rw [hsame.level_eq, hsame.haltedUntil_eq]
    exact h.halted_of_until

theorem reset (h : LevelSound limits m) (now : Instant) : LevelSound limits (m.reset now) :=
  ⟨h.limits_eq, iff_of_false nofun nofun, nofun⟩

theorem expireHalt (h : LevelSound limits m) (now : Instant) :
    LevelSound limits (m.expireHalt now) := by
  unfold RiskManager.expireHalt
  split
  · exact ⟨h.limits_eq, iff_of_false nofun nofun, nofun⟩
  · exact h

theorem trip (h : LevelSound limits m) (now : Instant) : LevelSound limits (m.trip now) := by
  unfold RiskManager.trip
  split
  · exact levelSound_halt h.limits_eq _ now
  · exact h

end LevelSound

/-! ## The edges of the level -/

/-- The edges of the level lead to the level that a warning, or that there is none, calls for. -/
theorem level_leveled (h : ¬ m.isHalted) (warning : Option RiskWarning) (now : Instant) :
    (m.leveled warning now).level = if warning.isSome then .warning else .normal := by
  rw [isHalted_iff] at h
  unfold leveled
  -- two of the four cases are edges, and in the other two the level is the one called for
  cases warning with
  | none =>
    cases hlevel : m.level with
    | normal => exact hlevel
    | warning => rfl
    | halted => exact absurd hlevel h
  | some w =>
    cases hlevel : m.level with
    | normal => rfl
    | warning => exact hlevel
    | halted => exact absurd hlevel h

theorem level_leveled_ne_halted (h : ¬ m.isHalted) (warning : Option RiskWarning) (now : Instant) :
    (m.leveled warning now).level ≠ .halted := by
  rw [level_leveled h]
  split <;> exact nofun

/-- A change of the level leaves the rest of a halt as it is. -/
theorem leveled_eq (m : RiskManager) (warning : Option RiskWarning) (now : Instant) :
    (m.leveled warning now).limits = m.limits ∧ (m.leveled warning now).monitor = m.monitor ∧
      (m.leveled warning now).haltReason = m.haltReason ∧
      (m.leveled warning now).haltedUntil = m.haltedUntil := by
  rcases leveled_cases m warning now with h | ⟨level, decision, h⟩
  · rw [h]
    exact ⟨rfl, rfl, rfl, rfl⟩
  · rw [h]
    exact ⟨rfl, rfl, rfl, rfl⟩

theorem LevelSound.assessed (h : LevelSound limits m) (hassessed : m.Assessed now m') :
    LevelSound limits m' := by
  cases hassessed with
  | halted => exact h
  | breached => exact levelSound_halt h.limits_eq _ now
  | @within warning not_halted =>
    -- no halt before, and none after
    obtain ⟨hlimits, -, hreason, huntil⟩ := leveled_eq m warning now
    have hbefore : m.level ≠ .halted := fun hlevel => not_halted (isHalted_iff.mpr hlevel)
    have hafter := level_leveled_ne_halted not_halted warning now
    refine ⟨hlimits.trans h.limits_eq, ?_, ?_⟩
    · rw [hreason]
      exact iff_of_false hafter fun hsome => hbefore (h.halted_iff.mpr hsome)
    · rw [huntil]
      exact fun hsome => absurd (h.halted_of_until hsome) hbefore

/-- The level is what the monitor says: halted, or below every limit and a warning exactly while a
metric nears its limit. -/
def LevelExact (limits : RiskSettings) (m : RiskManager) : Prop :=
  m.level = .halted ∨
    m.monitor.breach? limits = .ok none ∧ ¬ m.monitor.Exceeds limits ∧
      ∃ warning, m.monitor.warning? limits = .ok warning ∧
        (m.level = .warning ↔ warning.isSome) ∧ (warning.isSome ↔ m.monitor.Nears limits)

theorem levelExact_of_assessed (hlimits : m.limits = limits) (h : m.Assessed now m') :
    LevelExact limits m' := by
  subst hlimits
  cases h with
  | halted halted => exact .inl (isHalted_iff.mp halted)
  | breached => exact .inl rfl
  | @within warning not_halted breach?_eq warning?_eq =>
    obtain ⟨-, hmonitor, -⟩ := leveled_eq m warning now
    unfold LevelExact
    rw [hmonitor, level_leveled not_halted]
    refine .inr ⟨breach?_eq, DrawdownMonitor.not_exceeds_of_breach? breach?_eq, warning,
      warning?_eq, ?_, DrawdownMonitor.warning?_isSome_iff warning?_eq⟩
    cases warning <;> simp

/-! ## Operations and runs -/

/-- Results and equities end in an assessment of a manager whose level, reason and end fit
together. -/
theorem LevelSound.recordTrade (h : LevelSound limits m) {pnl : Decimal}
    (hrecord : m.recordTrade pnl now = .ok m') :
    ∃ m₁, LevelSound limits m₁ ∧ m₁.Assessed now m' := by
  rw [recordTrade_eq, bind_eq_ok] at hrecord
  obtain ⟨monitor, -, hassess⟩ := hrecord
  have hresult := (h.expireHalt now).of_sameHalt (sameHalt_withResult _ monitor pnl)
  exact ⟨_, hresult.trip now, assessed_of_assess hassess⟩

theorem LevelSound.updateEquity (h : LevelSound limits m) {equity : Decimal}
    (hupdate : m.updateEquity equity now = .ok m') :
    ∃ m₁, LevelSound limits m₁ ∧ m₁.Assessed now m' := by
  unfold RiskManager.updateEquity at hupdate
  obtain ⟨monitor, -, hassess⟩ := bind_eq_ok.mp hupdate
  have hmonitor := (h.expireHalt now).of_sameHalt (sameHalt_withMonitor _ monitor)
  exact ⟨_, hmonitor, assessed_of_assess hassess⟩

theorem LevelSound.evaluate (h : LevelSound limits m) {s : Signal} {account : Exposure}
    {outcome : Outcome Approval} (hevaluate : m.evaluate s account now = .ok (m', outcome)) :
    LevelSound limits m' := by
  rw [evaluate_eq, bind_eq_ok] at hevaluate
  obtain ⟨⟨m₁, judged⟩, hjudge, hnote⟩ := hevaluate
  obtain ⟨rfl, -⟩ := Prod.mk.inj (pure_eq_ok.mp hnote)
  refine LevelSound.of_sameHalt ?_ (sameHalt_note m₁ s now judged)
  obtain ⟨monitor, -, hcases⟩ := judge_eq_ok hjudge
  have hsound := (h.expireHalt now).of_sameHalt (sameHalt_withMonitor _ monitor)
  rcases hcases with ⟨rfl, -⟩ | ⟨reason, rfl, -⟩
  · exact hsound
  · exact levelSound_halt hsound.limits_eq reason now

theorem LevelSound.step (h : LevelSound limits m) (hstep : m.step op = .ok (m', answer)) :
    LevelSound limits m' := by
  cases op with
  | evaluate s account now =>
    obtain ⟨⟨m₁, outcome⟩, hevaluate, hanswer⟩ := bind_eq_ok.mp hstep
    obtain ⟨rfl, -⟩ := Prod.mk.inj (pure_eq_ok.mp hanswer)
    exact h.evaluate hevaluate
  | recordTrade pnl now =>
    obtain ⟨m₁, hrecord, hanswer⟩ := bind_eq_ok.mp hstep
    obtain ⟨rfl, -⟩ := Prod.mk.inj (pure_eq_ok.mp hanswer)
    obtain ⟨m₂, hsound, hassessed⟩ := h.recordTrade hrecord
    exact hsound.assessed hassessed
  | updateEquity equity now =>
    obtain ⟨m₁, hupdate, hanswer⟩ := bind_eq_ok.mp hstep
    obtain ⟨rfl, -⟩ := Prod.mk.inj (pure_eq_ok.mp hanswer)
    obtain ⟨m₂, hsound, hassessed⟩ := h.updateEquity hupdate
    exact hsound.assessed hassessed
  | halt reason now =>
    obtain ⟨rfl, -⟩ := Prod.mk.inj (Except.ok.inj hstep)
    exact levelSound_halt h.limits_eq reason now
  | reset now =>
    obtain ⟨rfl, -⟩ := Prod.mk.inj (Except.ok.inj hstep)
    exact h.reset now
  | takeNewEvents =>
    obtain ⟨rfl, -⟩ := Prod.mk.inj (Except.ok.inj hstep)
    exact h.of_sameHalt ⟨rfl, rfl, rfl, rfl⟩

/-- Along every run trading is halted exactly when there is a reason for it, and only a halt has an
end.  After a result or an equity trading is halted, or no limit is exceeded and the level is a
warning exactly while a metric nears its limit; so a limit that is exceeded then halts trading. -/
theorem level_exact (limits : RiskSettings) (equity : Decimal) (begin : Instant)
    {ops : List Operation} (hrun : (new limits equity begin).run ops = .ok m) :
    ((m.level = .halted ↔ m.haltReason.isSome) ∧ (m.haltedUntil.isSome → m.level = .halted)) ∧
      ∀ m', (∃ pnl now, m.recordTrade pnl now = .ok m') ∨
          (∃ equity now, m.updateEquity equity now = .ok m') →
        LevelExact limits m' ∧ (m'.monitor.Exceeds limits → m'.level = .halted) := by
  have hsound : LevelSound limits m :=
    run_induction (P := fun _ => LevelSound limits) (Q := fun _ => True) (fun _ _ => trivial) hrun
      (levelSound_new limits equity begin) fun h _ hstep => h.step hstep
  refine ⟨⟨hsound.halted_iff, hsound.halted_of_until⟩, fun m' hnext => ?_⟩
  have hexact : LevelExact limits m' := by
    rcases hnext with ⟨pnl, now, hrecord⟩ | ⟨equity, now, hupdate⟩
    · obtain ⟨m₁, hsound₁, hassessed⟩ := hsound.recordTrade hrecord
      exact levelExact_of_assessed hsound₁.limits_eq hassessed
    · obtain ⟨m₁, hsound₁, hassessed⟩ := hsound.updateEquity hupdate
      exact levelExact_of_assessed hsound₁.limits_eq hassessed
  refine ⟨hexact, fun hexceeds => ?_⟩
  rcases hexact with hhalted | ⟨-, hwithin, -⟩
  · exact hhalted
  · exact absurd hexceeds hwithin

/-- A drawdown of thirteen parts in a hundred is a warning, and one of twenty halts trading. -/
theorem level_exact_drawdown : ∃ m m',
    (new {} (.lit 100000 0) default).run [.updateEquity (.lit 87000 0) default] = .ok m ∧
    m.level = .warning ∧ m.updateEquity (.lit 80000 0) default = .ok m' ∧
    m'.monitor.Exceeds {} ∧ m'.level = .halted := by
  have hfalls : (((new {} (.lit 100000 0) default).run
      [.updateEquity (.lit 87000 0) default]).toOption.bind fun m =>
        (m.updateEquity (.lit 80000 0) default).toOption.bind fun m' =>
          m'.monitor.currentDrawdown.toOption.bind fun drawdown =>
            some (m.level, decide (RiskSettings.maxDrawdownPct {} < drawdown))) =
      some (.warning, true) := by decide +kernel
  obtain ⟨m, hrun, h⟩ := Calc.exists_eq_ok hfalls
  obtain ⟨m', hupdate, h⟩ := Calc.exists_eq_ok h
  obtain ⟨drawdown, hdrawdown, h⟩ := Calc.exists_eq_ok h
  obtain ⟨hwarning, hlt⟩ := Prod.mk.inj (Option.some.inj h)
  have hexceeds : m'.monitor.Exceeds {} :=
    .inr (.inr ⟨drawdown, hdrawdown, of_decide_eq_true hlt⟩)
  obtain ⟨-, hnext⟩ := level_exact {} (.lit 100000 0) default hrun
  obtain ⟨-, hhalts⟩ := hnext m' (.inr ⟨_, _, hupdate⟩)
  exact ⟨m, m', hrun, hwarning, hupdate, hexceeds, hhalts hexceeds⟩

end RiskManager

end SimBroker
