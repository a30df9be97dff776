import SimBroker.Proofs.Decimal.Value
import SimBroker.Proofs.Risk.Manager

/-!
# Evaluations of signals

The ways in which an evaluation ends: trading is halted, a limit on losses is exceeded, the signal
makes no sense, a limit on the signal itself refuses it, or it is sized.

## Main definitions

* `RiskManager.Admits`: the limits on the number of positions, for a signal
* `RiskManager.Sized`: how the size of an approval is found

## Main results

* `RiskManager.evaluate_cases`, `RiskManager.screen_cases`, `RiskManager.sizeSignal_cases`: the ways
  in which an evaluation ends
* `RiskManager.evaluate_ok`: what an approval has passed
-/

namespace SimBroker

open Calc (bind_eq_ok pure_eq_ok)

namespace RiskManager

variable {m m' : RiskManager} {s : Signal} {account : Exposure} {now : Instant}
  {outcome : Outcome Approval}

theorem expireHalt_pnlHistory (m : RiskManager) (now : Instant) :
    (m.expireHalt now).pnlHistory = m.pnlHistory := by
  unfold expireHalt
  split <;> rfl

/-- What a screen looks at is as it was: the limits and the results of the last trades. -/
structure SameScreen (m m' : RiskManager) : Prop where
  limits_eq : m'.limits = m.limits
  pnlHistory_eq : m'.pnlHistory = m.pnlHistory

theorem judge_cases (h : m.judge s account now = .ok (m', outcome)) :
    m.SameScreen m' ∧
      (outcome = .error (.riskRejected .tradingHalted) ∨
        (∃ reason, outcome = .error (.circuitBreakerTripped reason)) ∨
        m'.screen s account = .ok outcome) := by
  have hsame (monitor : DrawdownMonitor) : m.SameScreen { m.expireHalt now with monitor } :=
    ⟨expireHalt_limits m now, expireHalt_pnlHistory m now⟩
  obtain ⟨monitor, -, ⟨rfl, rfl | hscreen⟩ | ⟨reason, rfl, rfl⟩⟩ := judge_eq_ok h
  · exact ⟨hsame monitor, .inl rfl⟩
  · exact ⟨hsame monitor, .inr (.inr hscreen)⟩
  · exact ⟨⟨(hsame monitor).limits_eq, (hsame monitor).pnlHistory_eq⟩, .inr (.inl ⟨reason, rfl⟩)⟩

/-- Logging a rejection leaves what a screen looks at. -/
theorem SameScreen.note (h : m.SameScreen m') : m.SameScreen (m'.note s now outcome) := by
  unfold RiskManager.note
  split
  · exact ⟨h.limits_eq, h.pnlHistory_eq⟩
  · exact h

/-- The ways in which an evaluation ends. -/
theorem evaluate_cases (h : m.evaluate s account now = .ok (m', outcome)) :
    m.SameScreen m' ∧
      (outcome = .error (.riskRejected .tradingHalted) ∨
        (∃ reason, outcome = .error (.circuitBreakerTripped reason)) ∨
        ∃ m₁, m.SameScreen m₁ ∧ m₁.screen s account = .ok outcome) := by
  rw [evaluate_eq, bind_eq_ok] at h
  obtain ⟨⟨m₁, judged⟩, hjudge, h⟩ := h
  obtain ⟨rfl, rfl⟩ := Prod.mk.inj (pure_eq_ok.mp h)
  obtain ⟨hsame, hcases⟩ := judge_cases hjudge
  exact ⟨hsame.note, hcases.imp_right (.imp_right fun hscreen => ⟨m₁, hsame, hscreen⟩)⟩

/-- The limits on the number of positions admit an order for the signal. -/
structure Admits (m : RiskManager) (s : Signal) (account : Exposure) : Prop where
  open_le : account.openPositions + (if account.openSymbols.contains s.symbol then 0 else 1) ≤
    m.limits.maxOpenPositions
  symbol_le : (if account.openSymbols.contains s.symbol then 2 else 1) ≤
    m.limits.maxPositionsPerSymbol

theorem Admits.of_limits_eq (h : m.Admits s account) (hlimits : m'.limits = m.limits) :
    m'.Admits s account :=
  ⟨hlimits ▸ h.open_le, hlimits ▸ h.symbol_le⟩

/-- The ways in which a screen ends. -/
theorem screen_cases (h : m.screen s account = .ok outcome) :
    (∃ e, checkSignal s = .ok (.error e) ∧ outcome = .error e) ∨
    ∃ ratio, checkSignal s = .ok (.ok ratio) ∧
      (ratio < m.limits.minRiskReward ∧ outcome = .error (.riskRejected .belowMinRiskReward) ∨
        m.limits.maxOpenPositions <
            account.openPositions + (if account.openSymbols.contains s.symbol then 0 else 1) ∧
          outcome = .error (.riskRejected .positionLimitExceeded) ∨
        m.limits.maxPositionsPerSymbol <
            (if account.openSymbols.contains s.symbol then 2 else 1) ∧
          outcome = .error (.riskRejected .symbolLimitExceeded) ∨
        m.Admits s account ∧ m.sizeSignal s account.equity ratio = .ok outcome) := by
  unfold screen at h
  obtain ⟨checked, hcheck, h⟩ := bind_eq_ok.mp h
  cases checked with
  | error e => exact .inl ⟨e, hcheck, (pure_eq_ok.mp h).symm⟩
  | ok ratio =>
    refine .inr ⟨ratio, hcheck, ?_⟩
    dsimp only at h
    have hadmits : _ → _ → m.Admits s account := Admits.mk
    generalize account.openPositions + (if account.openSymbols.contains s.symbol then 0 else 1) =
      positions at h hadmits ⊢
    generalize (if account.openSymbols.contains s.symbol then 2 else 1 : Nat) = entries
      at h hadmits ⊢
    split at h
    · next hratio => exact .inl ⟨hratio, (pure_eq_ok.mp h).symm⟩
    · split at h
      · next hopen => exact .inr (.inl ⟨hopen, (pure_eq_ok.mp h).symm⟩)
      · next hopen =>
        split at h
        · next hsymbol => exact .inr (.inr (.inl ⟨hsymbol, (pure_eq_ok.mp h).symm⟩))
        · next hsymbol =>
          exact .inr (.inr (.inr ⟨hadmits (Nat.not_lt.mp hopen) (Nat.not_lt.mp hsymbol), h⟩))

/-- A check of a signal ends in an invalid input, or in what the signal offers for its risk. -/
theorem checkSignal_cases {checked : Outcome Decimal} (h : checkSignal s = .ok checked) :
    (∃ message, checked = .error (.invalidInput message)) ∨
      ∃ ratio, s.riskReward = .ok (some ratio) ∧ checked = .ok ratio := by
  unfold checkSignal at h
  dsimp only at h
  -- the symbol and the three prices are checked before the ratio
  split at h
  · cases h
    exact .inl ⟨_, rfl⟩
  · split at h
    · cases h
      exact .inl ⟨_, rfl⟩
    · split at h
      · cases h
        exact .inl ⟨_, rfl⟩
      · split at h
        · cases h
          exact .inl ⟨_, rfl⟩
        · obtain ⟨ratio?, hratio, h⟩ := bind_eq_ok.mp h
          cases ratio? with
          | some ratio => exact .inr ⟨ratio, hratio, (pure_eq_ok.mp h).symm⟩
          | none => exact .inl ⟨_, (pure_eq_ok.mp h).symm⟩

theorem checkSignal_error {e : TradingError} (h : checkSignal s = .ok (.error e)) :
    ∃ message, e = .invalidInput message := by
  rcases checkSignal_cases h with ⟨message, he⟩ | ⟨_, -, he⟩
  · exact ⟨message, Except.error.inj he⟩
  · exact nomatch he

/-- A signal is sized by a proposal, which is scaled, cut to the caps and rounded to steps, and
something is left of it. -/
structure Sized (m : RiskManager) (s : Signal) (equity : Decimal) (approval : Approval) : Prop where
  signal_eq : approval.signal = s
  pos : 0 < approval.size
  steps : ∃ proposal scaled first limited, m.proposeSize s equity = .ok proposal ∧
    RiskSettings.scaleByStrength proposal.size s.strength = .ok scaled ∧
    proposal.withSize scaled = .ok first ∧ m.limits.applyLimits first equity = .ok limited ∧
    RiskSettings.roundToStep limited.size m.limits.stepSize = .ok approval.size ∧
    limited.withSize approval.size = .ok approval.sizing

theorem sizeSignal_cases {equity riskReward : Decimal}
    (h : m.sizeSignal s equity riskReward = .ok outcome) :
    outcome = .error (.riskRejected .zeroSize) ∨
      ∃ approval, outcome = .ok approval ∧ m.Sized s equity approval := by
  simp only [sizeSignal, bind_eq_ok] at h
  obtain ⟨proposal, hproposal, scaled, hscaled, first, hfirst, limited, hlimited, size, hsize, h⟩ :=
    h
  split at h
  · exact .inl (pure_eq_ok.mp h).symm
  · next hpos =>
    obtain ⟨sizing, hsizing, h⟩ := bind_eq_ok.mp h
    exact .inr ⟨_, (pure_eq_ok.mp h).symm, rfl, Decimal.not_le_iff.mp hpos, proposal, scaled, first,
      limited, hproposal, hscaled, hfirst, hlimited, hsize, hsizing⟩

/-- An approval is of the signal, which the limits have admitted and which was sized. -/
theorem evaluate_ok {approval : Approval}
    (h : m.evaluate s account now = .ok (m', .ok approval)) :
    m.Admits s account ∧ ∃ m₁ ratio, m.SameScreen m₁ ∧ checkSignal s = .ok (.ok ratio) ∧
      m₁.Sized s account.equity approval := by
  obtain ⟨-, hhalted | ⟨reason, hreason⟩ | ⟨m₁, hsame, hscreen⟩⟩ := evaluate_cases h
  · exact nomatch hhalted
  · exact nomatch hreason
  · rcases screen_cases hscreen with ⟨e, -, he⟩ | ⟨ratio, hcheck, ⟨-, he⟩ | ⟨-, he⟩ | ⟨-, he⟩ |
      ⟨hadmits, hsize⟩⟩
    · exact nomatch he
    · exact nomatch he
    · exact nomatch he
    · exact nomatch he
    · rcases sizeSignal_cases hsize with herror | ⟨approval, happroval, hsized⟩
      · exact nomatch herror
      · cases happroval
        exact ⟨hadmits.of_limits_eq hsame.limits_eq.symm, m₁, ratio, hsame, hcheck, hsized⟩

end RiskManager

end SimBroker
