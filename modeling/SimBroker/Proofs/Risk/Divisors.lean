import SimBroker.Proofs.Risk.Caps
import SimBroker.Proofs.Risk.Evaluate
import SimBroker.Proofs.Risk.Halts
import SimBroker.Proofs.Risk.Kelly

/-!
# The divisors of an evaluation

An evaluation divides in about ten places.  In all of them but one it has asked before whether the
divisor is positive; the one is the Kelly fraction, and an ordinary signal gets there.

## Main definitions

* `RiskSettings.Admits`: what a signal has passed before it is sized
* `RiskManager.ComesToSize`: an evaluation comes to the sizing of its signal
* `RiskManager.Bounded`: the history of a manager is no longer than its limits say

## Main results

* `RiskManager.proposeSize_eq_error_iff`, `RiskManager.screen_eq_error_iff`,
  `RiskManager.judge_eq_error_iff`, `RiskManager.evaluate_eq_error_iff`: when the parts of an
  evaluation divide by zero
* `RiskManager.divides_by_zero_iff`: when an evaluation divides by zero, along every run
-/

namespace SimBroker

open Calc (DividesSafely bind_eq_ok ite_pure_eq_error ok_bind pure_eq_ok)
open Decimal

namespace DrawdownMonitor

variable {m : DrawdownMonitor}

theorem dividesSafely_currentDrawdown (m : DrawdownMonitor) : m.currentDrawdown.DividesSafely := by
  unfold currentDrawdown
  split
  · exact .pure 0
  · next hpeak =>
    refine .bind (dividesSafely_sub ..) fun difference => ?_
    exact .bind (dividesSafely_div_of_not_le hpeak) fun _ => .pure _

theorem dividesSafely_lossFraction (pnl base : Decimal) :
    (lossFraction pnl base).DividesSafely := by
  unfold lossFraction
  split
  · exact .pure 0
  · next h => exact dividesSafely_div_of_not_le fun hbase => h (.inl hbase)

theorem dividesSafely_update (m : DrawdownMonitor) (equity : Decimal) (now : Instant) :
    (m.update equity now).DividesSafely :=
  .bind (dividesSafely_currentDrawdown _) fun _ => .pure _

theorem dividesSafely_breach? (m : DrawdownMonitor) (limits : RiskSettings) :
    (m.breach? limits).DividesSafely := by
  -- both losses and the drawdown are calculated, as long as no limit is exceeded
  refine .bind (dividesSafely_lossFraction ..) fun daily => ?_
  split
  · exact .pure _
  refine .bind (dividesSafely_lossFraction ..) fun weekly => ?_
  split
  · exact .pure _
  refine .bind (dividesSafely_currentDrawdown m) fun drawdown => ?_
  split
  · exact .pure _
  · exact .pure _

end DrawdownMonitor

theorem Signal.dividesSafely_riskReward (s : Signal) : s.riskReward.DividesSafely := by
  refine .bind (.bind (dividesSafely_sub ..) fun _ => dividesSafely_mul ..) fun risk => ?_
  split
  · exact .pure none
  · next hrisk =>
    refine .bind (.bind (dividesSafely_sub ..) fun _ => dividesSafely_mul ..) fun reward => ?_
    exact .bind (dividesSafely_div_of_not_le hrisk) fun _ => .pure _

namespace Sizing

theorem dividesSafely_zero (direction : Direction) (entry stop : Decimal) :
    (zero direction entry stop).DividesSafely := by
  refine .bind (dividesSafely_sub ..) fun difference => ?_
  refine .bind (dividesSafely_mul ..) fun value => ?_
  exact .bind (dividesSafely_mul ..) fun _ => .pure _

theorem dividesSafely_withSize (s : Sizing) (size : Decimal) :
    (s.withSize size).DividesSafely := by
  refine .bind (dividesSafely_mul ..) fun value => ?_
  exact .bind (dividesSafely_mul ..) fun _ => .pure _

end Sizing

namespace RiskSettings

variable {limits : RiskSettings} {equity entry stop : Decimal} {direction : Direction}

/-! ## Sizes -/

theorem dividesSafely_sizeByRisk (limits : RiskSettings) (equity entry stop : Decimal)
    (direction : Direction) : (limits.sizeByRisk equity entry stop direction).DividesSafely := by
  refine .bind (Sizing.dividesSafely_zero ..) fun zero => ?_
  split
  · exact .pure zero
  · next h =>
    rw [not_or, not_or] at h
    refine .bind (dividesSafely_mul ..) fun risk => ?_
    exact .bind (dividesSafely_div_of_not_le h.2.2) fun _ => Sizing.dividesSafely_withSize ..

theorem dividesSafely_sizeByAtr (limits : RiskSettings) (equity entry atr multiplier : Decimal)
    (direction : Direction) :
    (limits.sizeByAtr equity entry atr multiplier direction).DividesSafely := by
  refine .bind (dividesSafely_mul ..) fun offset => ?_
  have hrest (stop : Decimal) : DividesSafely (if offset ≤ 0 then Sizing.zero direction entry stop
      else limits.sizeByRisk equity entry stop direction) := by
    split
    · exact Sizing.dividesSafely_zero ..
    · exact dividesSafely_sizeByRisk ..
  cases direction with
  | long => exact .bind (dividesSafely_sub ..) hrest
  | short => exact .bind (dividesSafely_add ..) hrest

theorem dividesSafely_sizeByFraction (equity fraction entry stop : Decimal)
    (direction : Direction) :
    (sizeByFraction equity fraction entry stop direction).DividesSafely := by
  refine .bind (Sizing.dividesSafely_zero ..) fun zero => ?_
  split
  · exact .pure zero
  · next h =>
    rw [not_or, not_or] at h
    refine .bind (dividesSafely_mul ..) fun value => ?_
    exact .bind (dividesSafely_div_of_not_le h.2.1) fun _ => Sizing.dividesSafely_withSize ..

theorem dividesSafely_cap {s : Sizing} (hentry : 0 < s.entryPrice) (limit : SizeLimit) :
    (limits.cap equity s limit).DividesSafely ∧
      ∀ s', limits.cap equity s limit = .ok s' → 0 < s'.entryPrice := by
  -- a cap divides by the entry price or by the distance to the stop, and keeps both
  constructor
  · refine .bind ?_ fun most => ?_
    · cases limit with
      | positionValue => exact .pure _
      | _ => exact dividesSafely_mul ..
    · split
      · next h =>
        refine .bind (dividesSafely_div_of_pos (h.1.price_pos hentry)) fun size => ?_
        exact .bind (Sizing.dividesSafely_withSize ..) fun _ => .pure _
      · exact .pure s
  · intro s' h
    obtain ⟨most, -, ⟨-, rfl⟩ | ⟨-, -, z, -, hcut⟩⟩ := cap_eq_ok h
    · exact hentry
    · obtain ⟨s₁, hs₁, hs'⟩ := bind_eq_ok.mp hcut
      obtain rfl := pure_eq_ok.mp hs'
      obtain ⟨-, heq, -⟩ := Sizing.withSize_eq_ok hs₁
      rw [show _ = s.entryPrice from heq]
      exact hentry

theorem dividesSafely_applyLimits (limits : RiskSettings) (s : Sizing) (equity : Decimal) :
    (limits.applyLimits s equity).DividesSafely := by
  by_cases h : equity ≤ 0 ∨ s.entryPrice ≤ 0
  · rw [applyLimits, if_pos h]
    exact Sizing.dividesSafely_withSize ..
  · rw [not_or, not_le_iff, not_le_iff] at h
    rw [applyLimits_eq_foldlM h.1 h.2]
    exact .foldlM (fun _ limit hentry => dividesSafely_cap hentry limit) h.2 _

theorem dividesSafely_scaleByStrength (size strength : Decimal) :
    (scaleByStrength size strength).DividesSafely := by
  refine .bind (dividesSafely_mul ..) fun part => ?_
  exact .bind (dividesSafely_add ..) fun _ => dividesSafely_mul ..

theorem dividesSafely_roundToStep (size step : Decimal) :
    (roundToStep size step).DividesSafely := by
  unfold roundToStep
  split
  · exact .pure size
  · next hstep =>
    refine .bind (dividesSafely_div_of_not_le hstep) fun quotient => ?_
    exact .bind (dividesSafely_floor quotient) fun _ => dividesSafely_mul ..

/-! ## Fractions of equity -/

theorem least?_neg {pnls : List Decimal} {loss : Decimal}
    (h : least? (pnls.filter fun p => decide (p < 0)) = some loss) : loss < 0 := by
  have hneg : ∀ p ∈ pnls.filter fun p => decide (p < 0), p < 0 := fun p hp =>
    of_decide_eq_true (List.mem_filter.mp hp).2
  generalize pnls.filter (fun p => decide (p < 0)) = losses at h hneg
  cases losses with
  | nil => exact nomatch h
  | cons x xs =>
    obtain rfl := Option.some.inj h
    have hfirst := hneg x List.mem_cons_self
    refine List.foldlRecOn (motive := (· < 0)) xs Decimal.min hfirst fun a ha b hb => ?_
    rw [min_eq]
    split
    · exact hneg b (List.mem_cons_of_mem x hb)
    · exact ha

theorem dividesSafely_optimalFraction (limits : RiskSettings) (pnls : List Decimal) :
    (limits.optimalFraction pnls).DividesSafely := by
  unfold optimalFraction
  split
  · exact .pure _
  · next loss hloss =>
    have hneg := lt_iff.mp (least?_neg hloss)
    have hdivisor : ¬ loss.abs.isZero = true := fun hzero => by
      have hzero : loss.isZero = true := hzero
      rw [isZero_iff.mp hzero, toRat_zero] at hneg
      exact lt_irrefl _ hneg
    refine .bind (dividesSafely_mul ..) fun win => ?_
    exact .bind (dividesSafely_div hdivisor) fun _ => .pure _

/-- A signal makes sense, and no limit that does not depend on its size refuses it. -/
structure Admits (limits : RiskSettings) (s : Signal) (account : Exposure) : Prop where
  ratio : ∃ ratio, RiskManager.checkSignal s = .ok (.ok ratio) ∧ ¬ ratio < limits.minRiskReward
  positions : ¬ limits.maxOpenPositions <
    account.openPositions + (if account.openSymbols.contains s.symbol then 0 else 1)
  symbol : ¬ limits.maxPositionsPerSymbol <
    (if account.openSymbols.contains s.symbol then 2 else 1)

end RiskSettings

namespace RiskManager

open RiskSettings (VanishingRatio averageWin averageLoss)

variable {limits : RiskSettings} {m m' : RiskManager} {s : Signal} {account : Exposure}
  {equity : Decimal} {now : Instant} {ops : List Operation}

/-! ## Sizing a signal -/

theorem proposeSize_eq_error_iff (s : Signal) (equity : Decimal)
    (hlength : m.pnlHistory.length < coefficientBound) :
    m.proposeSize s equity = .error .divisionByZero ↔
      m.limits.sizingMethod = .kelly ∧ VanishingRatio m.pnlHistory := by
  have hfraction (fraction : Decimal) : (RiskSettings.sizeByFraction equity fraction s.entryPrice
      s.stopLoss s.direction).DividesSafely := RiskSettings.dividesSafely_sizeByFraction ..
  unfold proposeSize
  -- only the Kelly fraction is not safe, and what is done with a fraction is
  cases hmethod : m.limits.sizingMethod with
  | kelly =>
    rw [and_iff_right rfl, ← RiskSettings.kellyOfHistory_eq_error_iff hlength]
    exact DividesSafely.bind_eq_error_left hfraction
  | risk =>
    refine iff_of_false (DividesSafely.ne_error ?_) (fun h => nomatch h.1)
    exact RiskSettings.dividesSafely_sizeByRisk ..
  | atr =>
    refine iff_of_false (DividesSafely.ne_error ?_) (fun h => nomatch h.1)
    cases s.atr with
    | none => exact RiskSettings.dividesSafely_sizeByRisk ..
    | some atr => exact RiskSettings.dividesSafely_sizeByAtr ..
  | optimalF =>
    refine iff_of_false (DividesSafely.ne_error ?_) (fun h => nomatch h.1)
    exact .bind (RiskSettings.dividesSafely_optimalFraction ..) hfraction

/-- A signal is sized without a division by zero, but for the Kelly fraction. -/
theorem sizeSignal_eq_error_iff {ratio : Decimal}
    (hlength : m.pnlHistory.length < coefficientBound) :
    m.sizeSignal s equity ratio = .error .divisionByZero ↔
      m.limits.sizingMethod = .kelly ∧ VanishingRatio m.pnlHistory := by
  rw [← proposeSize_eq_error_iff s equity hlength]
  refine DividesSafely.bind_eq_error_left fun proposal => ?_
  refine .bind (RiskSettings.dividesSafely_scaleByStrength ..) fun scaled => ?_
  refine .bind (Sizing.dividesSafely_withSize ..) fun first => ?_
  refine .bind (RiskSettings.dividesSafely_applyLimits ..) fun limited => ?_
  refine .bind (RiskSettings.dividesSafely_roundToStep ..) fun size => ?_
  split
  · exact .pure _
  · exact .bind (Sizing.dividesSafely_withSize ..) fun _ => .pure _

theorem dividesSafely_checkSignal (s : Signal) : (checkSignal s).DividesSafely := by
  unfold checkSignal
  dsimp only
  -- the symbol and the three prices are checked before the ratio is calculated
  split
  · exact .ok _
  · split
    · exact .ok _
    · split
      · exact .ok _
      · split
        · exact .ok _
        · refine .bind s.dividesSafely_riskReward fun ratio? => ?_
          cases ratio? with
          | none => exact .pure _
          | some ratio => exact .pure _

/-! ## Evaluating a signal -/

theorem screen_eq_error_iff (hlength : m.pnlHistory.length < coefficientBound) :
    m.screen s account = .error .divisionByZero ↔
      m.limits.Admits s account ∧ m.limits.sizingMethod = .kelly ∧ VanishingRatio m.pnlHistory := by
  unfold screen
  rw [(dividesSafely_checkSignal s).bind_eq_error]
  constructor
  · rintro ⟨checked, hcheck, h⟩
    cases checked with
    | error e => exact absurd h (DividesSafely.pure _).ne_error
    | ok ratio =>
      simp only [ite_pure_eq_error, sizeSignal_eq_error_iff hlength] at h
      obtain ⟨hratio, hpositions, hsymbol, h⟩ := h
      exact ⟨⟨⟨ratio, hcheck, hratio⟩, hpositions, hsymbol⟩, h⟩
  · rintro ⟨⟨⟨ratio, hcheck, hratio⟩, hpositions, hsymbol⟩, h⟩
    refine ⟨.ok ratio, hcheck, ?_⟩
    simp only [ite_pure_eq_error, sizeSignal_eq_error_iff hlength]
    exact ⟨hratio, hpositions, hsymbol, h⟩

/-- A signal comes to its sizing: trading is not halted, no loss exceeds its limit, and the signal
is not refused. -/
structure ComesToSize (m : RiskManager) (s : Signal) (account : Exposure) (now : Instant) :
    Prop where
  not_halted : ¬ (m.expireHalt now).isHalted
  within : ∃ monitor, m.monitor.update account.equity now = .ok monitor ∧
    monitor.breach? m.limits = .ok none
  admits : m.limits.Admits s account

theorem judge_eq_error_iff (hlength : m.pnlHistory.length < coefficientBound) :
    m.judge s account now = .error .divisionByZero ↔ m.ComesToSize s account now ∧
      m.limits.sizingMethod = .kelly ∧ VanishingRatio m.pnlHistory := by
  have hsame (monitor : DrawdownMonitor) : m.SameScreen { m.expireHalt now with monitor } :=
    ⟨expireHalt_limits m now, expireHalt_pnlHistory m now⟩
  have hscreen {m₁ : RiskManager} (hsame : m.SameScreen m₁) :
      m₁.screen s account = .error .divisionByZero ↔
        m.limits.Admits s account ∧ m.limits.sizingMethod = .kelly ∧
          VanishingRatio m.pnlHistory := by
    rw [← hsame.limits_eq, ← hsame.pnlHistory_eq]
    exact screen_eq_error_iff (hsame.pnlHistory_eq ▸ hlength)
  unfold judge
  dsimp only
  -- the equity is taken first, and then the halt and the limits are asked
  rw [expireHalt_monitor, (m.monitor.dividesSafely_update ..).bind_eq_error]
  constructor
  · rintro ⟨monitor, hmonitor, h⟩
    obtain ⟨hhalted, h⟩ := ite_pure_eq_error.mp h
    obtain ⟨breach, hbreach, h⟩ := (monitor.dividesSafely_breach? _).bind_eq_error.mp h
    rw [expireHalt_limits] at hbreach
    cases breach with
    | some reason => exact absurd h (DividesSafely.pure _).ne_error
    | none =>
      obtain ⟨hadmits, h⟩ := (hscreen (hsame monitor)).mp
        ((DividesSafely.bind_eq_error_left fun _ => .pure _).mp h)
      exact ⟨⟨hhalted, ⟨monitor, hmonitor, hbreach⟩, hadmits⟩, h⟩
  · rintro ⟨⟨hhalted, ⟨monitor, hmonitor, hbreach⟩, hadmits⟩, h⟩
    rw [← expireHalt_limits m now] at hbreach
    refine ⟨monitor, hmonitor, ite_pure_eq_error.mpr ⟨hhalted, ?_⟩⟩
    rw [hbreach, ok_bind]
    exact (DividesSafely.bind_eq_error_left fun _ => .pure _).mpr
      ((hscreen (hsame monitor)).mpr ⟨hadmits, h⟩)

theorem evaluate_eq_error_iff (hlength : m.pnlHistory.length < coefficientBound) :
    m.evaluate s account now = .error .divisionByZero ↔ m.ComesToSize s account now ∧
      m.limits.sizingMethod = .kelly ∧ VanishingRatio m.pnlHistory := by
  rw [evaluate_eq, DividesSafely.bind_eq_error_left fun _ => .pure _]
  exact judge_eq_error_iff hlength

/-! ## Along a run -/

/-- The limits of a manager are these, and its history has no more results than they say. -/
structure Bounded (limits : RiskSettings) (m : RiskManager) : Prop where
  limits_eq : m.limits = limits
  length_le : m.pnlHistory.length ≤ max limits.tradeHistory 1

namespace Bounded

theorem tracked {results : List Decimal} {n : Nat} (h : Bounded limits m)
    (htracked : m.Tracked results n m') : Bounded limits m' where
  limits_eq := htracked.limits_eq.trans h.limits_eq
  length_le := by
    have hlength := h.length_le
    rw [← h.limits_eq] at hlength ⊢
    rw [htracked.pnlHistory_eq m.pnlHistory (lastOf_eq_self hlength).symm]
    exact length_lastOf_le ..

theorem step {op : Operation} {answer : Option (Outcome Approval)} (h : Bounded limits m)
    (hstep : m.step op = .ok (m', answer)) : Bounded limits m' := by
  cases stepped_of_step hstep with
  | evaluate evaluate_eq => exact h.tracked (tracked_evaluate evaluate_eq)
  | recordTrade recordTrade_eq => exact h.tracked (tracked_recordTrade recordTrade_eq)
  | updateEquity updateEquity_eq => exact h.tracked (tracked_updateEquity updateEquity_eq)
  | halt reason now => exact h.tracked (tracked_halt m reason now)
  | reset now => exact h.tracked (tracked_reset m now)
  | takeNewEvents => exact ⟨h.limits_eq, h.length_le⟩

end Bounded

theorem bounded_of_run {start : Decimal} {begin : Instant}
    (h : (new limits start begin).run ops = .ok m) : Bounded limits m :=
  run_induction (P := fun _ m => Bounded limits m) (Q := fun _ => True) (fun _ _ => trivial) h
    ⟨rfl, Nat.zero_le _⟩ fun h _ hstep => h.step hstep

/-- Along every run an evaluation divides by zero exactly if a signal comes to be sized by the Kelly
fraction of a history in which the ratio of the averages vanishes.  The average profit is then one
part in `2 * 10 ^ 28` of the average loss at most.  The bound of the history is a 64-bit number, so
that the number of results in it is within the format. -/
theorem divides_by_zero_iff (limits : RiskSettings) (start : Decimal) (begin : Instant)
    {ops : List Operation} (hrun : (new limits start begin).run ops = .ok m)
    (hhistory : limits.tradeHistory < UInt64.size) (s : Signal) (account : Exposure)
    (now : Instant) :
    (m.evaluate s account now = .error .divisionByZero ↔
      m.ComesToSize s account now ∧ limits.sizingMethod = .kelly ∧ VanishingRatio m.pnlHistory) ∧
    (VanishingRatio m.pnlHistory → ∃ win loss, averageWin m.pnlHistory = .ok win ∧
      averageLoss m.pnlHistory = .ok loss ∧ 0 < win ∧
        2 * 10 ^ 28 * win.toRat ≤ loss.abs.toRat) := by
  have hbounded := bounded_of_run hrun
  have hlength : m.pnlHistory.length < coefficientBound := by
    have hle := hbounded.length_le
    have hsize : UInt64.size < coefficientBound := by decide
    omega
  constructor
  · rw [evaluate_eq_error_iff hlength, hbounded.limits_eq]
  · exact RiskSettings.VanishingRatio.average_le

/-- Sizes by the Kelly fraction, and all else by default. -/
def kellySettings : RiskSettings := { sizingMethod := .kelly }

/-- A signal to buy that offers two and a half times its risk. -/
def plainSignal : Signal :=
  ⟨"A", .long, .lit 2000 0, .lit 1960 0, .lit 2100 0, "t", .lit 1 0, none, default⟩

/-- An account without positions. -/
def plainAccount : Exposure := ⟨.lit 100000 0, 0, []⟩

/-- A profit of one in the last place, and a loss of two: the ratio is half of the last place, which
goes to the even neighbour. -/
theorem divides_by_zero_iff_half : ∃ m,
    (new kellySettings (.lit 100000 0) default).run
      [.recordTrade (.lit 1 28) default, .recordTrade (-.lit 2 0) default] = .ok m ∧
    kellySettings.tradeHistory < UInt64.size ∧
    m.evaluate plainSignal plainAccount default = .error .divisionByZero ∧
    m.ComesToSize plainSignal plainAccount default ∧ VanishingRatio m.pnlHistory ∧
    ∃ win loss, averageWin m.pnlHistory = .ok win ∧ averageLoss m.pnlHistory = .ok loss ∧
      0 < win ∧ 2 * 10 ^ 28 * win.toRat ≤ loss.abs.toRat := by
  have hfault : ((new kellySettings (.lit 100000 0) default).run
      [.recordTrade (.lit 1 28) default, .recordTrade (-.lit 2 0) default]).toOption.bind (fun m =>
        Calc.fault? (m.evaluate plainSignal plainAccount default)) = some .divisionByZero := by
    decide +kernel
  obtain ⟨m, hrun, hfault⟩ := Calc.exists_eq_ok hfault
  have herror := Calc.fault?_eq_some.mp hfault
  have hhistory : kellySettings.tradeHistory < UInt64.size := by decide
  obtain ⟨hiff, hbound⟩ := divides_by_zero_iff _ _ _ hrun hhistory plainSignal plainAccount default
  obtain ⟨hcomes, -, hvanishing⟩ := hiff.mp herror
  exact ⟨m, hrun, hhistory, herror, hcomes, hvanishing, hbound hvanishing⟩

/-- A profit of one in the last place and a loss of three make an ordinary signal divide by zero. -/
theorem evaluate_divides_by_zero : ∃ m,
    (new kellySettings (.lit 100000 0) default).run
      [.recordTrade (.lit 1 28) default, .recordTrade (-.lit 3 0) default] = .ok m ∧
    m.evaluate plainSignal plainAccount default = .error .divisionByZero := by
  have hfault : ((new kellySettings (.lit 100000 0) default).run
      [.recordTrade (.lit 1 28) default, .recordTrade (-.lit 3 0) default]).toOption.bind (fun m =>
        Calc.fault? (m.evaluate plainSignal plainAccount default)) = some .divisionByZero := by
    decide +kernel
  obtain ⟨m, hrun, hfault⟩ := Calc.exists_eq_ok hfault
  exact ⟨m, hrun, Calc.fault?_eq_some.mp hfault⟩

end RiskManager

end SimBroker
