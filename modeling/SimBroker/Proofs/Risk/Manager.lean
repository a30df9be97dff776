import SimBroker.Proofs.Calc
import SimBroker.Risk.Manager

/-!
# What the risk manager does

The operations of the manager end in few ways, which are stated once here.  Taking a new equity
leaves the manager halted, or with every loss within its limit.  The limits themselves are never
changed.

## Main definitions

* `DrawdownMonitor.Exceeds`: a loss or the drawdown exceeds its limit
* `RiskManager.Assessed`: how the level is brought up to date
* `RiskManager.note`: the manager after it has logged the answer to a signal

## Main results

* `DrawdownMonitor.not_exceeds_of_breach?`: where no limit is reported, none is exceeded
* `RiskManager.assessed_of_assess`, `RiskManager.judge_eq_ok`: the ways in which these end
* `RiskManager.updateEquity_cases`: what the manager is like after it has taken an equity
-/

namespace SimBroker

open Calc (bind_eq_ok pure_eq_ok)

namespace DrawdownMonitor

variable {m m' : DrawdownMonitor} {limits : RiskSettings} {equity : Decimal} {now : Instant}

/-- A loss or the drawdown exceeds its limit. -/
def Exceeds (m : DrawdownMonitor) (limits : RiskSettings) : Prop :=
  (∃ loss, m.dailyLoss = .ok loss ∧ limits.maxDailyLossPct < loss) ∨
  (∃ loss, m.weeklyLoss = .ok loss ∧ limits.maxWeeklyLossPct < loss) ∨
  ∃ drawdown, m.currentDrawdown = .ok drawdown ∧ limits.maxDrawdownPct < drawdown

theorem not_exceeds_of_breach? (h : m.breach? limits = .ok none) : ¬ m.Exceeds limits := by
  -- the first limit that is exceeded is reported, so all three were compared
  unfold breach? at h
  obtain ⟨daily, hdaily, h⟩ := bind_eq_ok.mp h
  split at h
  · exact nomatch pure_eq_ok.mp h
  next hd =>
  obtain ⟨weekly, hweekly, h⟩ := bind_eq_ok.mp h
  split at h
  · exact nomatch pure_eq_ok.mp h
  next hw =>
  obtain ⟨drawdown, hdrawdown, h⟩ := bind_eq_ok.mp h
  split at h
  · exact nomatch pure_eq_ok.mp h
  next hdd =>
  rintro (⟨x, hx, hlt⟩ | ⟨x, hx, hlt⟩ | ⟨x, hx, hlt⟩)
  · exact hd (Except.ok.inj (hdaily.symm.trans hx) ▸ hlt)
  · exact hw (Except.ok.inj (hweekly.symm.trans hx) ▸ hlt)
  · exact hdd (Except.ok.inj (hdrawdown.symm.trans hx) ▸ hlt)

theorem currentEquity_update (h : m.update equity now = .ok m') : m'.currentEquity = equity := by
  unfold update at h
  obtain ⟨drawdown, -, h⟩ := bind_eq_ok.mp h
  obtain rfl := pure_eq_ok.mp h
  rw [apply_ite currentEquity]
  exact ite_self _

end DrawdownMonitor

namespace RiskManager

variable {m m' : RiskManager} {equity : Decimal} {now : Instant}

theorem expireHalt_limits (m : RiskManager) (now : Instant) :
    (m.expireHalt now).limits = m.limits := by
  unfold expireHalt
  split <;> rfl

theorem expireHalt_monitor (m : RiskManager) (now : Instant) :
    (m.expireHalt now).monitor = m.monitor := by
  unfold expireHalt
  split <;> rfl

/-- The manager with the level that a warning, or that there is none, calls for; a change of the
level is logged. -/
def leveled (m : RiskManager) (warning : Option RiskWarning) (now : Instant) : RiskManager :=
  match warning, m.level with
  | some w, .normal => { m with level := .warning }.push (.warning w.metric w.value w.limit) now
  | none, .warning => { m with level := .normal }.push .recovered now
  | _, _ => m

/-- Bringing the level up to date: the manager is halted and stays so, a limit that is exceeded
halts it, or no limit is exceeded and the metrics say whether to warn. -/
inductive Assessed (m : RiskManager) (now : Instant) : RiskManager → Prop
  | halted (halted : m.isHalted) : Assessed m now m
  | breached {reason : HaltReason} (not_halted : ¬ m.isHalted)
      (breach?_eq : m.monitor.breach? m.limits = .ok (some reason)) :
    Assessed m now (m.halt reason now)
  | within {warning : Option RiskWarning} (not_halted : ¬ m.isHalted)
      (breach?_eq : m.monitor.breach? m.limits = .ok none)
      (warning?_eq : m.monitor.warning? m.limits = .ok warning) :
    Assessed m now (m.leveled warning now)

theorem assessed_of_assess (h : m.assess now = .ok m') : m.Assessed now m' := by
  unfold assess at h
  split at h
  · next hhalted =>
    obtain rfl := pure_eq_ok.mp h
    exact .halted hhalted
  · next hhalted =>
    obtain ⟨breach, hbreach, h⟩ := bind_eq_ok.mp h
    cases breach with
    | some reason =>
      obtain rfl := pure_eq_ok.mp h
      exact .breached hhalted hbreach
    | none =>
      obtain ⟨warning, hwarning, h⟩ := bind_eq_ok.mp h
      have hleveled : m.leveled warning now = m' := by
        rw [← pure_eq_ok, ← h]
        unfold leveled
        cases warning <;> cases m.level <;> rfl
      exact hleveled ▸ .within hhalted hbreach hwarning

theorem leveled_cases (m : RiskManager) (warning : Option RiskWarning) (now : Instant) :
    m.leveled warning now = m ∨
      ∃ level decision, m.leveled warning now = { m with level }.push decision now := by
  unfold leveled
  split
  · exact .inr ⟨_, _, rfl⟩
  · exact .inr ⟨_, _, rfl⟩
  · exact .inl rfl

/-- The ways in which the level is brought up to date: the manager is halted and stays so, it halts,
or no limit is exceeded and a change of the level is logged. -/
theorem assess_eq_ok (h : m.assess now = .ok m') :
    (m.isHalted ∧ m' = m) ∨ (∃ reason, m' = m.halt reason now) ∨
      ¬ m.monitor.Exceeds m.limits ∧
        (m' = m ∨ ∃ level decision, m' = { m with level }.push decision now) := by
  cases assessed_of_assess h with
  | halted halted => exact .inl ⟨halted, rfl⟩
  | breached => exact .inr (.inl ⟨_, rfl⟩)
  | within _ breach?_eq =>
    exact .inr (.inr ⟨DrawdownMonitor.not_exceeds_of_breach? breach?_eq, leveled_cases ..⟩)

/-- Bringing the level up to date leaves the manager halted, or no limit exceeded. -/
theorem assess_cases (h : m.assess now = .ok m') :
    m'.limits = m.limits ∧ m'.monitor = m.monitor ∧
      (m'.isHalted ∨ ¬ m.monitor.Exceeds m.limits) := by
  rcases assess_eq_ok h with ⟨hhalted, rfl⟩ | ⟨_, rfl⟩ | ⟨hwithin, rfl | ⟨_, _, rfl⟩⟩
  · exact ⟨rfl, rfl, .inl hhalted⟩
  · exact ⟨rfl, rfl, .inl rfl⟩
  · exact ⟨rfl, rfl, .inr hwithin⟩
  · exact ⟨rfl, rfl, .inr hwithin⟩

/-- What the manager is like after it has taken an equity. -/
theorem updateEquity_cases (h : m.updateEquity equity now = .ok m') :
    m'.limits = m.limits ∧ m'.monitor.currentEquity = equity ∧
      (m'.isHalted ∨ ¬ m'.monitor.Exceeds m'.limits) := by
  unfold updateEquity at h
  obtain ⟨monitor, hmonitor, h⟩ := bind_eq_ok.mp h
  obtain ⟨hlimits, hmonitor', hwithin⟩ := assess_cases h
  rw [hmonitor', hlimits]
  exact ⟨expireHalt_limits m now, DrawdownMonitor.currentEquity_update hmonitor, hwithin⟩

/-- The monitor takes the equity, whether or not that halts the manager. -/
theorem update_of_updateEquity (h : m.updateEquity equity now = .ok m') :
    m.monitor.update equity now = .ok m'.monitor := by
  unfold updateEquity at h
  obtain ⟨monitor, hmonitor, h⟩ := bind_eq_ok.mp h
  obtain ⟨-, hmonitor', -⟩ := assess_cases h
  rw [hmonitor', ← expireHalt_monitor m now]
  exact hmonitor

/-- The ways in which a signal is judged: the manager takes the equity, and halts for it, is halted
already, or screens the signal. -/
theorem judge_eq_ok {s : Signal} {account : Exposure} {outcome : Outcome Approval}
    (h : m.judge s account now = .ok (m', outcome)) :
    ∃ monitor, m.monitor.update account.equity now = .ok monitor ∧
      ((m' = { m.expireHalt now with monitor } ∧
        (outcome = .error (.riskRejected .tradingHalted) ∨ m'.screen s account = .ok outcome)) ∨
      ∃ reason, m' = halt { m.expireHalt now with monitor } reason now ∧
        outcome = .error (.circuitBreakerTripped reason)) := by
  unfold judge at h
  obtain ⟨monitor, hmonitor, h⟩ := bind_eq_ok.mp h
  rw [expireHalt_monitor] at hmonitor
  refine ⟨monitor, hmonitor, ?_⟩
  dsimp only at h
  split at h
  · obtain ⟨rfl, rfl⟩ := Prod.mk.inj (pure_eq_ok.mp h)
    exact .inl ⟨rfl, .inl rfl⟩
  · obtain ⟨breach, -, h⟩ := bind_eq_ok.mp h
    cases breach with
    | some reason =>
      obtain ⟨rfl, rfl⟩ := Prod.mk.inj (pure_eq_ok.mp h)
      exact .inr ⟨reason, rfl, rfl⟩
    | none =>
      obtain ⟨screened, hscreen, h⟩ := bind_eq_ok.mp h
      obtain ⟨rfl, rfl⟩ := Prod.mk.inj (pure_eq_ok.mp h)
      exact .inl ⟨rfl, .inr hscreen⟩

/-- The manager after it has logged the answer to a signal, if that is a rejection. -/
def note (m : RiskManager) (s : Signal) (now : Instant) : Outcome Approval → RiskManager
  | .error (.riskRejected reason) =>
    { m with rejections := m.rejections.bump reason }.push (.rejected reason s.symbol) now
  | _ => m

/-- The steps of an evaluation. -/
theorem evaluate_eq (m : RiskManager) (s : Signal) (account : Exposure) (now : Instant) :
    m.evaluate s account now = do
      let (m, answer) ← m.judge s account now
      return (m.note s now answer, answer) := by
  refine bind_congr fun ⟨m, answer⟩ => ?_
  match answer with
  | .ok _ => rfl
  | .error e => cases e <;> rfl

end RiskManager

end SimBroker
