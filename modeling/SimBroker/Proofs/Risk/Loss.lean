import SimBroker.Proofs.Risk.Evaluate
import SimBroker.Proofs.Risk.Sizing

/-!
# What an approval may lose

An approval is sized for a stop, and what it loses there is at most the fraction of the equity that
one trade may lose, up to rounding in the last places.  The order that it becomes carries the stop
of the signal.  This is the stop that it was sized for, unless the size was found by the average
true range.

## Main definitions

* `RiskSettings.allowance`: what one trade may lose
* `RiskSettings.sizingStop`: the stop that a signal is sized for
* `Approval.lossAt`: what an approval loses at a stop
* `Sizing.Between`: a sizing between an entry and a stop

## Main results

* `RiskManager.proposeSize_eq_ok`: a proposal is for the stop that the signal is sized for
* `RiskManager.loss_at_sizing_stop`: what an approval loses at the stop that it was sized for
* `RiskManager.loss_at_order_stop`: an approval that loses more than that at the stop of its order
-/

namespace SimBroker

open Calc (bind_eq_ok pure_eq_ok)

namespace Sizing

variable {s s' : Sizing} {entry stop size : Decimal} {direction : Direction}

/-- A sizing between an entry and a stop. -/
structure Between (entry stop : Decimal) (s : Sizing) : Prop where
  entryPrice_eq : s.entryPrice = entry
  stopPrice_eq : s.stopPrice = stop
  distance_eq : ∃ x, entry.sub stop = .ok x ∧ s.stopDistance = x.abs

theorem between_zero (h : Sizing.zero direction entry stop = .ok s) :
    s.Between entry stop ∧ s.size.toRat = 0 := by
  simp only [Sizing.zero, bind_eq_ok, pure_eq_ok] at h
  obtain ⟨x, hx, value, -, risk, -, rfl⟩ := h
  exact ⟨⟨rfl, rfl, x, hx, rfl⟩, Decimal.toRat_zero⟩

theorem Between.withSize (hs : s.Between entry stop) (h : s.withSize size = .ok s') :
    s'.Between entry stop := by
  obtain ⟨-, hentry, hstop, hdistance, -⟩ := withSize_eq_ok h
  exact ⟨hentry.trans hs.entryPrice_eq, hstop.trans hs.stopPrice_eq, hdistance ▸ hs.distance_eq⟩

theorem Between.cut (hs : s.Between entry stop) (h : s.Cut s') : s'.Between entry stop :=
  ⟨h.entryPrice_eq.trans hs.entryPrice_eq, h.stopPrice_eq.trans hs.stopPrice_eq,
    h.stopDistance_eq ▸ hs.distance_eq⟩

/-- The distance is zero only between prices of one value. -/
theorem Between.stopDistance_pos (hs : s.Between entry stop) (h : entry.toRat ≠ stop.toRat) :
    0 < s.stopDistance := by
  obtain ⟨x, hx, hdistance⟩ := hs.distance_eq
  rw [Decimal.pos_iff, hdistance, Decimal.toRat_abs, abs_pos]
  intro hzero
  have := ((Decimal.faithful_sub hx).eq_zero_iff (Decimal.whole_sub entry stop)).mp hzero
  exact h (sub_eq_zero.mp this)

/-- The distance is rounded once. -/
theorem Between.abs_stopDistance_sub (hs : s.Between entry stop) :
    |s.stopDistance.toRat - (|entry.toRat - stop.toRat|)| ≤
      |entry.toRat - stop.toRat| / 10 ^ 28 := by
  obtain ⟨x, hx, hdistance⟩ := hs.distance_eq
  rw [hdistance, Decimal.toRat_abs]
  exact (abs_abs_sub_abs_le _ _).trans
    ((Decimal.nearest_sub hx).abs_sub_le_of_whole (Decimal.whole_sub entry stop))

/-- What is lost at the stop by a size that rounding to steps leaves of a sizing within a cap. -/
theorem Between.loss_le {most : Decimal} (hs : s.Between entry stop) (hvalued : s.Valued)
    (hwithin : s.Within most) (hpos : 0 < s.size.toRat) (hapart : 0 < s.stopDistance)
    (hsize : size.toRat ≤ s.size.toRat + (1 + 5 * s.size.toRat) / 10 ^ 28) :
    size.toRat * |entry.toRat - stop.toRat| ≤ most.toRat +
      (1 + most.toRat + |entry.toRat - stop.toRat|) / (5 * 10 ^ 26) := by
  obtain ⟨hmost, hloss⟩ := hwithin.le hvalued hpos (Decimal.pos_iff.mp hapart)
  obtain ⟨hlo, hhi⟩ := abs_le.mp hs.abs_stopDistance_sub
  have hdistance := abs_nonneg (entry.toRat - stop.toRat)
  generalize |entry.toRat - stop.toRat| = distance at hlo hhi hdistance ⊢
  -- the loss of the capped size at the distance before rounding
  have hcap : s.size.toRat * (distance * (1 - 1 / 10 ^ 28)) ≤
      s.size.toRat * s.stopDistance.toRat :=
    mul_le_mul_of_nonneg_left (by linarith) hpos.le
  have hsize := mul_le_mul_of_nonneg_right hsize hdistance
  generalize s.size.toRat * s.stopDistance.toRat = loss at hloss hcap
  linarith

end Sizing

namespace RiskSettings

variable {limits : RiskSettings} {equity entry stop fraction atr : Decimal} {direction : Direction}
  {s : Sizing}

/-- What one trade of an account may lose. -/
def allowance (limits : RiskSettings) (equity : Decimal) : ℚ :=
  equity.toRat * limits.maxRiskPerTrade.toRat

/-- The stop that a signal is sized for. -/
def sizingStop (limits : RiskSettings) (s : Signal) : Calc Decimal :=
  match limits.sizingMethod, s.atr with
  | .atr, some atr => do
    let offset ← atr.mul limits.atrMultiplier
    match s.direction with
    | .long => s.entryPrice.sub offset
    | .short => s.entryPrice.add offset
  | _, _ => .ok s.stopLoss

/-- A signal that is not sized by the average true range is sized for its own stop. -/
theorem sizingStop_eq {s : Signal} (h : limits.sizingMethod = .atr → s.atr = none) :
    limits.sizingStop s = .ok s.stopLoss := by
  unfold sizingStop
  split
  · next hmethod hatr => exact nomatch hatr.symm.trans (h hmethod)
  · rfl

theorem between_sizeByRisk (h : limits.sizeByRisk equity entry stop direction = .ok s) :
    s.Between entry stop ∧ (s.stopDistance ≤ 0 → s.size.toRat = 0) := by
  obtain ⟨zero, hzero, h⟩ := bind_eq_ok.mp h
  obtain ⟨hbetween, hsize⟩ := Sizing.between_zero hzero
  split at h
  · obtain rfl := pure_eq_ok.mp h
    exact ⟨hbetween, fun _ => hsize⟩
  · -- the distance is the divisor here, so it was found to be positive
    next hpositive =>
    simp only [bind_eq_ok] at h
    obtain ⟨risk, -, quotient, -, h⟩ := h
    refine ⟨hbetween.withSize h, fun hdistance => ?_⟩
    rw [(Sizing.withSize_eq_ok h).2.2.2.1] at hdistance
    exact absurd (.inr (.inr hdistance)) hpositive

theorem between_sizeByAtr {multiplier : Decimal}
    (h : limits.sizeByAtr equity entry atr multiplier direction = .ok s) :
    ∃ offset stop, atr.mul multiplier = .ok offset ∧
      (match direction with
        | .long => entry.sub offset
        | .short => entry.add offset) = .ok stop ∧
      s.Between entry stop ∧ (s.stopDistance ≤ 0 → s.size.toRat = 0) := by
  have hsized {offset stop : Decimal}
      (h : (if offset ≤ 0 then Sizing.zero direction entry stop
        else limits.sizeByRisk equity entry stop direction) = .ok s) :
      s.Between entry stop ∧ (s.stopDistance ≤ 0 → s.size.toRat = 0) := by
    split at h
    · obtain ⟨hbetween, hsize⟩ := Sizing.between_zero h
      exact ⟨hbetween, fun _ => hsize⟩
    · exact between_sizeByRisk h
  -- the stop is on the losing side, so it is computed by another operation for each direction
  obtain ⟨offset, hoffset, h⟩ := bind_eq_ok.mp h
  cases direction with
  | long | short =>
    obtain ⟨stop, hstop, h⟩ := bind_eq_ok.mp h
    exact ⟨offset, stop, hoffset, hstop, hsized h⟩

theorem between_sizeByFraction
    (h : RiskSettings.sizeByFraction equity fraction entry stop direction = .ok s) :
    s.Between entry stop := by
  obtain ⟨zero, hzero, h⟩ := bind_eq_ok.mp h
  obtain ⟨hbetween, -⟩ := Sizing.between_zero hzero
  split at h
  · obtain rfl := pure_eq_ok.mp h
    exact hbetween
  · simp only [bind_eq_ok] at h
    obtain ⟨value, -, quotient, -, h⟩ := h
    exact hbetween.withSize h

end RiskSettings

/-- What an approval loses at a stop. -/
def Approval.lossAt (a : Approval) (stop : Decimal) : ℚ :=
  a.size.toRat * |a.signal.entryPrice.toRat - stop.toRat|

namespace RiskManager

variable {m m' : RiskManager} {signal : Signal} {account : Exposure} {now : Instant}
  {equity : Decimal} {proposal : Sizing} {approval : Approval}

/-- A proposal is for the stop that the signal is sized for; it is zero without a distance to the
stop, if this is not the signal's own. -/
theorem proposeSize_eq_ok (h : m.proposeSize signal equity = .ok proposal) :
    ∃ stop, m.limits.sizingStop signal = .ok stop ∧ proposal.Between signal.entryPrice stop ∧
      (stop = signal.stopLoss ∨ (proposal.stopDistance ≤ 0 → proposal.size.toRat = 0)) := by
  unfold proposeSize at h
  unfold RiskSettings.sizingStop
  dsimp only at h
  cases hmethod : m.limits.sizingMethod with
  | risk =>
    simp only [hmethod] at h ⊢
    obtain ⟨hbetween, hzero⟩ := RiskSettings.between_sizeByRisk h
    exact ⟨signal.stopLoss, rfl, hbetween, .inl rfl⟩
  | kelly | optimalF =>
    simp only [hmethod, bind_eq_ok] at h ⊢
    obtain ⟨fraction, -, h⟩ := h
    exact ⟨signal.stopLoss, rfl, RiskSettings.between_sizeByFraction h, .inl rfl⟩
  | atr =>
    cases hatr : signal.atr with
    | none =>
      simp only [hmethod, hatr] at h ⊢
      obtain ⟨hbetween, hzero⟩ := RiskSettings.between_sizeByRisk h
      exact ⟨signal.stopLoss, rfl, hbetween, .inl rfl⟩
    | some atr =>
      simp only [hmethod, hatr] at h ⊢
      obtain ⟨offset, stop, hoffset, hstop, hbetween, hzero⟩ := RiskSettings.between_sizeByAtr h
      exact ⟨stop, bind_eq_ok.mpr ⟨offset, hoffset, hstop⟩, hbetween, .inr hzero⟩

/-- A signal that makes sense has its stop apart from its entry. -/
theorem entry_ne_stop_of_checkSignal {ratio : Decimal}
    (h : checkSignal signal = .ok (.ok ratio)) :
    signal.entryPrice.toRat ≠ signal.stopLoss.toRat := by
  obtain ⟨ratio, hratio⟩ : ∃ ratio, signal.riskReward = .ok (some ratio) := by
    rcases checkSignal_cases h with ⟨_, herror⟩ | ⟨ratio, hratio, -⟩
    · exact nomatch herror
    · exact ⟨ratio, hratio⟩
  obtain ⟨risk, hrisk, hratio⟩ := bind_eq_ok.mp hratio
  intro heq
  -- the risk would be a multiple of no distance
  obtain ⟨distance, hdistance, hrisk⟩ := bind_eq_ok.mp hrisk
  have hzero : distance.toRat = 0 := by
    rw [(Decimal.faithful_sub hdistance).eq_zero_iff (Decimal.whole_sub _ _), heq, sub_self]
  have hle : risk ≤ 0 := by
    rw [Decimal.le_iff]
    exact (Decimal.faithful_mul hrisk).le (by rw [hzero, zero_mul, Decimal.toRat_zero])
  rw [if_pos hle] at hratio
  exact nomatch pure_eq_ok.mp hratio

theorem scaleByStrength_nonpos {size strength scaled : Decimal}
    (h : RiskSettings.scaleByStrength size strength = .ok scaled) (hsize : size.toRat = 0) :
    scaled.toRat ≤ 0 := by
  simp only [RiskSettings.scaleByStrength, bind_eq_ok] at h
  obtain ⟨product, -, factor, -, h⟩ := h
  rw [← Decimal.toRat_zero]
  exact (Decimal.faithful_mul h).le (by rw [hsize, zero_mul, Decimal.toRat_zero])

/-- What is left of a sized signal after the cap on the risk, and that its size is no greater than
this, up to rounding to steps. -/
theorem Sized.capped (h : m.Sized signal equity approval)
    (hentry : signal.entryPrice.toRat ≠ signal.stopLoss.toRat) :
    m.limits.sizingStop signal = .ok approval.sizing.stopPrice ∧
      ∃ (most : Decimal) (s : Sizing), equity.mul m.limits.maxRiskPerTrade = .ok most ∧
        s.Between signal.entryPrice approval.sizing.stopPrice ∧ s.Valued ∧ s.Within most ∧
        0 < s.size.toRat ∧ 0 < s.stopDistance ∧
        approval.size.toRat ≤ s.size.toRat + (1 + 5 * s.size.toRat) / 10 ^ 28 := by
  obtain ⟨proposal, scaled, first, limited, hproposal, hscaled, hfirst, hlimited, hround,
    hsizing⟩ := h.steps
  -- scaling, caps and steps change the size only, never the prices
  obtain ⟨stop, hstop, hproposed, hzero⟩ := proposeSize_eq_ok hproposal
  have hbetween := hproposed.withSize hfirst
  obtain ⟨hvalued, -, -, hdistance, hfirstSize⟩ := Sizing.withSize_eq_ok hfirst
  obtain ⟨hlimitedValued, hcut, hcapped⟩ := RiskSettings.applyLimits_eq_ok hvalued hlimited
  obtain ⟨hlimitedPos, hround⟩ :=
    RiskSettings.roundToStep_le hround hlimitedValued.size_nonneg (Decimal.pos_iff.mp h.pos)
  obtain rfl : approval.sizing.stopPrice = stop :=
    (Sizing.withSize_eq_ok hsizing).2.2.1.trans (hbetween.cut hcut).stopPrice_eq
  have hapart : 0 < first.stopDistance := by
    rcases hzero with heq | hzero
    · exact hbetween.stopDistance_pos (heq ▸ hentry)
    · -- without a distance nothing would be proposed, and the caps add nothing to it
      rw [← Decimal.not_le_iff]
      intro hle
      have := scaleByStrength_nonpos hscaled (hzero (hdistance ▸ hle))
      rw [max_eq_right this] at hfirstSize
      linarith [hcut.size_le]
  obtain ⟨most, s, hmost, hs, hfirstCut, hcut, hwithin⟩ := hcapped hlimitedPos hapart
  have hle := hcut.size_le
  exact ⟨hstop, most, s, hmost, hbetween.cut hfirstCut, hs, hwithin, hlimitedPos.trans_le hle,
    hfirstCut.stopDistance_eq ▸ hapart, by linarith⟩

/-- What a sized signal loses at the stop that it is sized for. -/
theorem Sized.loss_le (h : m.Sized signal equity approval)
    (hentry : signal.entryPrice.toRat ≠ signal.stopLoss.toRat) :
    approval.lossAt approval.sizing.stopPrice ≤ m.limits.allowance equity +
      (1 + |m.limits.allowance equity| +
        |signal.entryPrice.toRat - approval.sizing.stopPrice.toRat|) / 10 ^ 26 := by
  obtain ⟨-, most, s, hmost, hbetween, hs, hwithin, hpos, hapart, hsize⟩ := h.capped hentry
  have hloss := hbetween.loss_le hs hwithin hpos hapart hsize
  have hmost := (abs_le.mp (Decimal.nearest_mul hmost).abs_sub_le).2
  have hdistance := abs_nonneg (signal.entryPrice.toRat - approval.sizing.stopPrice.toRat)
  have hnonneg := abs_nonneg (m.limits.allowance equity)
  have hle := le_abs_self (m.limits.allowance equity)
  rw [Approval.lossAt, h.signal_eq]
  rw [RiskSettings.allowance] at hnonneg hle ⊢
  linarith

/-- An approval is sized for the stop of its signal, unless it is sized by the average true range,
and loses there no more than one trade may lose, up to rounding.  The order that it becomes carries
the stop of the signal in every case, so there it loses no more than that, up to one part in
`10 ^ 20`, if this was the stop that it was sized for and the amounts are not too small. -/
theorem loss_at_sizing_stop (h : m.evaluate signal account now = .ok (m', .ok approval)) :
    approval.signal = signal ∧ approval.toOrderRequest.quantity = approval.size ∧
    approval.toOrderRequest.stopLoss = some signal.stopLoss ∧
    m.limits.sizingStop signal = .ok approval.sizing.stopPrice ∧
    approval.lossAt approval.sizing.stopPrice ≤ m.limits.allowance account.equity +
      (1 + |m.limits.allowance account.equity| +
        |signal.entryPrice.toRat - approval.sizing.stopPrice.toRat|) / 10 ^ 26 ∧
    ((m.limits.sizingMethod = .atr → signal.atr = none) →
      approval.sizing.stopPrice = signal.stopLoss ∧
      (1 + |signal.entryPrice.toRat - signal.stopLoss.toRat| ≤
          10 ^ 5 * m.limits.allowance account.equity →
        approval.lossAt signal.stopLoss ≤
          m.limits.allowance account.equity * (1 + 1 / 10 ^ 20))) := by
  obtain ⟨-, m₁, ratio, hsame, hcheck, hsized⟩ := evaluate_ok h
  have hentry := entry_ne_stop_of_checkSignal hcheck
  -- the halts before the screen leave the limits, so the bounds are those of `m`
  obtain ⟨hstop, -⟩ := hsized.capped hentry
  have hloss := hsized.loss_le hentry
  rw [hsame.limits_eq] at hstop hloss
  refine ⟨hsized.signal_eq, rfl, ?_, hstop, hloss, fun hmethod => ?_⟩
  · show some approval.signal.stopLoss = _
    rw [hsized.signal_eq]
  have hstop : approval.sizing.stopPrice = signal.stopLoss := by
    rw [RiskSettings.sizingStop_eq hmethod] at hstop
    exact (Except.ok.inj hstop).symm
  refine ⟨hstop, fun hamounts => ?_⟩
  rw [hstop] at hloss
  have hdistance := abs_nonneg (signal.entryPrice.toRat - signal.stopLoss.toRat)
  rw [abs_of_nonneg (by linarith)] at hloss
  linarith

/-- A signal with a stop a twentieth below its entry, whose average true range puts a stop much
closer. -/
def rangedSignal : Signal :=
  ⟨"A", .long, .lit 2000 0, .lit 1900 0, .lit 2200 0, "t", .lit 1 0, some (.lit 10 0), default⟩

/-- The approval of the signal by a new manager with these limits. -/
def approval? (limits : RiskSettings) : Option Approval :=
  ((new limits (.lit 100000 0) default).evaluate rangedSignal ⟨.lit 100000 0, 0, []⟩
    default).toOption.bind fun answer => answer.2.toOption

theorem approval?_eq_some {limits : RiskSettings} (h : approval? limits = some approval) :
    ∃ m', (new limits (.lit 100000 0) default).evaluate rangedSignal ⟨.lit 100000 0, 0, []⟩
      default = .ok (m', .ok approval) := by
  obtain ⟨⟨m', outcome⟩, hevaluate, h⟩ := Calc.exists_eq_ok h
  cases outcome with
  | error e => exact nomatch h
  | ok approval' =>
    obtain rfl := Option.some.inj h
    exact ⟨m', hevaluate⟩

/-- By default a size loses at the stop of the signal no more than a fiftieth of the equity. -/
theorem loss_at_sizing_stop_fixedRisk : ∃ m' approval,
    (new {} (.lit 100000 0) default).evaluate rangedSignal ⟨.lit 100000 0, 0, []⟩ default =
      .ok (m', .ok approval) ∧
    approval.lossAt (.lit 1900 0) ≤ 2000 * (1 + 1 / 10 ^ 20) := by
  have hsome : (approval? {}).isSome = true := by decide +kernel
  obtain ⟨approval, happroval⟩ := Option.isSome_iff_exists.mp hsome
  obtain ⟨m', h⟩ := approval?_eq_some happroval
  obtain ⟨-, -, -, -, -, hloss⟩ := loss_at_sizing_stop h
  have hallowance : RiskSettings.allowance {} (.lit 100000 0) = 2000 := by decide +kernel
  have hdistance : rangedSignal.entryPrice.toRat - rangedSignal.stopLoss.toRat = 100 := by
    decide +kernel
  obtain ⟨-, hloss⟩ := hloss nofun
  rw [← hallowance]
  refine ⟨m', approval, h, hloss ?_⟩
  show 1 + _ ≤ 10 ^ 5 * RiskSettings.allowance {} (.lit 100000 0)
  rw [hdistance, hallowance]
  norm_num

/-- Settings that size by the average true range, with positions of as much as the equity. -/
def rangeSettings : Settings where
  risk := { sizingMethod := .atr, maxPositionSize := 1 }

/-- An approval that is sized by the average true range.  At the stop of its order, which is not the
one it was sized for, it loses more than twice what one trade may lose. -/
theorem loss_at_order_stop :
    rangeSettings.fault? = none ∧ ∃ m' approval stop,
      (new rangeSettings.risk (.lit 100000 0) default).evaluate rangedSignal
        ⟨.lit 100000 0, 0, []⟩ default = .ok (m', .ok approval) ∧
      approval.toOrderRequest.stopLoss = some stop ∧
      rangeSettings.risk.allowance (.lit 100000 0) * (1 + 1 / 10 ^ 20) < approval.lossAt stop := by
  have hlarge : ((approval? rangeSettings.risk).map fun approval =>
      decide (Decimal.lit 50 0 ≤ approval.size)) = some true := by decide +kernel
  obtain ⟨approval, happroval, hsize⟩ := Option.map_eq_some_iff.mp hlarge
  obtain ⟨m', h⟩ := approval?_eq_some happroval
  refine ⟨by decide +kernel, m', approval, _, h, rfl, ?_⟩
  obtain ⟨-, m₁, ratio, -, -, hsized⟩ := evaluate_ok h
  rw [Approval.lossAt, hsized.signal_eq]
  have hsize := Decimal.le_iff.mp (of_decide_eq_true hsize)
  have hallowance : rangeSettings.risk.allowance (.lit 100000 0) = 2000 := by decide +kernel
  have hfifty : (Decimal.lit 50 0).toRat = 50 := by decide +kernel
  have hdistance : rangedSignal.entryPrice.toRat - rangedSignal.stopLoss.toRat = 100 := by
    decide +kernel
  rw [hfifty] at hsize
  rw [hallowance, hdistance, abs_of_pos (by norm_num)]
  linarith

end RiskManager

end SimBroker
