import Mathlib.Order.Bounds.Defs
import SimBroker.Proofs.Decimal.Monotone
import SimBroker.Proofs.Risk.Monitor
import SimBroker.Proofs.Risk.Sizing

/-!
# The peak and the worst drawdown

The monitor keeps the peak of the equity and the worst drawdown from it, and brings them up to date
with every equity that it is told.  They are what the whole history says: the greatest equity, and
the greatest of the drawdowns of all equities, each measured from the peak up to it.

## Main definitions

* `DrawdownMonitor.peakOf`: the greatest of some equities
* `DrawdownMonitor.drawdownOf`: how far an equity is below a peak
* `DrawdownMonitor.IsDrawdown`: the drawdown of one of some equities, from the peak up to it
* `DrawdownMonitor.Follows`: a monitor shows what the equities say

## Main results

* `DrawdownMonitor.isGreatest_peakOf`: the peak is the greatest equity
* `DrawdownMonitor.Follows.perform`, `DrawdownMonitor.follows_runCalls`: every call keeps the
  monitor in step with the equities
* `RiskManager.peak_and_drawdown_of_equities`: the peak and the worst drawdown along every run
-/

namespace SimBroker

open Calc (bind_eq_ok ok_bind pure_eq_ok)

namespace Decimal

variable {a b c : Decimal}

theorem le_self (a : Decimal) : a ≤ a := le_iff.mpr le_rfl

theorem le_of_le_of_le (h : a ≤ b) (h' : b ≤ c) : a ≤ c :=
  le_iff.mpr ((le_iff.mp h).trans (le_iff.mp h'))

theorem left_le_max (a b : Decimal) : a ≤ a.max b := by
  rw [le_iff, toRat_max]
  exact le_max_left ..

theorem right_le_max (a b : Decimal) : b ≤ a.max b := by
  rw [le_iff, toRat_max]
  exact le_max_right ..

/-- The greatest of some decimals and one more. -/
theorem isGreatest_max {s t : Set Decimal} (ha : IsGreatest s a)
    (ht : ∀ d, d ∈ t ↔ d ∈ s ∨ d = b) : IsGreatest t (a.max b) := by
  obtain ⟨hmem, hle⟩ := ha
  refine ⟨?_, fun d hd => ?_⟩
  · rw [ht]
    unfold Decimal.max
    split
    · exact .inr rfl
    · exact .inl hmem
  · rcases (ht d).mp hd with hd | rfl
    · exact le_of_le_of_le (hle hd) (left_le_max a b)
    · exact right_le_max a d

end Decimal

namespace DrawdownMonitor

variable {m m' : DrawdownMonitor} {start equity peak d : Decimal} {es : List Decimal}
  {now : Instant} {c : Call} {calls : List Call}

/-! ## What the equities say -/

/-- The greatest of some equities, of equal ones the first. -/
def peakOf (start : Decimal) (es : List Decimal) : Decimal := es.foldl Decimal.max start

theorem peakOf_concat (start : Decimal) (es : List Decimal) (equity : Decimal) :
    peakOf start (es ++ [equity]) = (peakOf start es).max equity := by
  rw [peakOf, List.foldl_append]
  rfl

/-- The peak is the greatest equity. -/
theorem isGreatest_peakOf (start : Decimal) (es : List Decimal) :
    IsGreatest {e | e ∈ start :: es} (peakOf start es) := by
  -- from the end, because the last equity is the one that the peak takes last
  induction es using List.reverseRecOn with
  | nil =>
    refine ⟨List.mem_singleton_self start, fun e he => ?_⟩
    rw [List.mem_singleton.mp he]
    exact Decimal.le_self start
  | append_singleton es equity ih =>
    rw [peakOf_concat]
    refine Decimal.isGreatest_max ih fun e => ?_
    show e ∈ start :: (es ++ [equity]) ↔ e ∈ start :: es ∨ e = equity
    rw [← List.cons_append, List.mem_append, List.mem_singleton]

/-- How far an equity is below a peak, as a fraction of the peak; none without a positive peak. -/
def drawdownOf (peak equity : Decimal) : Calc Decimal := do
  if peak ≤ 0 then return 0 else return (← (← peak.sub equity).div peak).max 0

theorem currentDrawdown_eq (m : DrawdownMonitor) :
    m.currentDrawdown = drawdownOf m.peakEquity m.currentEquity := rfl

theorem drawdownOf_nonneg (h : drawdownOf peak equity = .ok d) : 0 ≤ d := by
  unfold drawdownOf at h
  split at h
  · obtain rfl := pure_eq_ok.mp h
    exact Decimal.le_self 0
  · obtain ⟨difference, -, h⟩ := bind_eq_ok.mp h
    obtain ⟨quotient, -, h⟩ := bind_eq_ok.mp h
    obtain rfl := pure_eq_ok.mp h
    exact Decimal.right_le_max quotient 0

/-- An equity at its peak has no drawdown. -/
theorem drawdownOf_self (equity : Decimal) : drawdownOf equity equity = .ok 0 := by
  unfold drawdownOf
  split
  · rfl
  · next hpos =>
    have hpos := Decimal.pos_iff.mp (Decimal.not_le_iff.mp hpos)
    -- the difference is calculated and zero, though it may have places
    have hzero : equity.toRat - equity.toRat = 0 := sub_self _
    obtain ⟨difference, hsub, hdifference⟩ := Decimal.exists_sub_of_rounded (a := equity)
      (b := equity) (c := 0) (.of_eq (by rw [hzero, Decimal.toRat_zero]))
    rw [Decimal.toRat_zero, ← Decimal.isZero_iff] at hdifference
    have hdivisor : ¬ equity.isZero = true := fun h => hpos.ne' (Decimal.isZero_iff.mp h)
    have hdiv : difference.div equity = .ok 0 := by
      rw [Decimal.div, if_neg hdivisor, if_pos hdifference]
    rw [hsub, ok_bind, hdiv, ok_bind]
    rfl

/-- The drawdown of one of some equities, from the peak up to it. -/
def IsDrawdown (start : Decimal) (es : List Decimal) (d : Decimal) : Prop :=
  ∃ before equity, before ++ [equity] <+: es ∧
    drawdownOf (peakOf start (before ++ [equity])) equity = .ok d

theorem isDrawdown_concat : IsDrawdown start (es ++ [equity]) d ↔
    IsDrawdown start es d ∨ drawdownOf (peakOf start (es ++ [equity])) equity = .ok d := by
  constructor
  · rintro ⟨before, e, hprefix, hd⟩
    -- the drawdown is that of the last equity, or of one before it
    rcases List.prefix_concat_iff.mp hprefix with heq | hprefix
    · obtain ⟨rfl, he⟩ := List.append_inj' heq rfl
      obtain rfl := List.singleton_inj.mp he
      exact .inr hd
    · exact .inl ⟨before, e, hprefix, hd⟩
  · rintro (⟨before, e, hprefix, hd⟩ | hd)
    · exact ⟨before, e, hprefix.trans (List.prefix_append es [equity]), hd⟩
    · exact ⟨es, equity, List.prefix_rfl, hd⟩

/-! ## What the calls do -/

/-- The equities that the monitor shows are the same. -/
structure SameEquity (m m' : DrawdownMonitor) : Prop where
  peakEquity_eq : m'.peakEquity = m.peakEquity
  currentEquity_eq : m'.currentEquity = m.currentEquity
  maxDrawdown_eq : m'.maxDrawdown = m.maxDrawdown

/-- Another day or week changes no equity. -/
theorem sameEquity_roll (m : DrawdownMonitor) (now : Instant) : m.SameEquity (m.roll now) := by
  unfold roll rollWeek rollDay
  split <;> split <;> exact ⟨rfl, rfl, rfl⟩

theorem sameEquity_recordPnl {pnl : Decimal} (h : m.recordPnl pnl now = .ok m') :
    m.SameEquity m' := by
  obtain ⟨daily, -, h⟩ := bind_eq_ok.mp h
  obtain ⟨weekly, -, h⟩ := bind_eq_ok.mp h
  obtain rfl := pure_eq_ok.mp h
  obtain ⟨hpeak, hcurrent, hmax⟩ := sameEquity_roll m now
  exact ⟨hpeak, hcurrent, hmax⟩

/-- A new equity may be a new peak, and its drawdown may be the worst. -/
theorem update_eq_ok (h : m.update equity now = .ok m') :
    m'.peakEquity = m.peakEquity.max equity ∧ ∃ drawdown, m'.currentDrawdown = .ok drawdown ∧
      drawdownOf (m.peakEquity.max equity) equity = .ok drawdown ∧
      m'.maxDrawdown = m.maxDrawdown.max drawdown := by
  obtain ⟨hpeak, -, hmax⟩ := sameEquity_roll m now
  unfold update at h
  obtain ⟨drawdown, hdrawdown, h⟩ := bind_eq_ok.mp h
  obtain rfl := pure_eq_ok.mp h
  rw [currentDrawdown_eq, hpeak] at hdrawdown
  have hdrawdown : drawdownOf (m.peakEquity.max equity) equity = .ok drawdown := hdrawdown
  rw [currentDrawdown_eq, hpeak, hmax]
  split
  · next hlt => exact ⟨rfl, drawdown, hdrawdown, hdrawdown, (if_pos hlt).symm⟩
  · next hlt => exact ⟨rfl, drawdown, hdrawdown, hdrawdown, (if_neg hlt).symm⟩

/-- No call lowers the peak or the worst drawdown. -/
theorem le_of_perform (h : m.perform c = .ok m') :
    m.peakEquity ≤ m'.peakEquity ∧ m.maxDrawdown ≤ m'.maxDrawdown := by
  cases c with
  | update equity now =>
    obtain ⟨hpeak, drawdown, -, -, hmax⟩ := update_eq_ok h
    rw [hpeak, hmax]
    exact ⟨Decimal.left_le_max .., Decimal.left_le_max ..⟩
  | recordPnl pnl now =>
    obtain ⟨hpeak, -, hmax⟩ := sameEquity_recordPnl h
    rw [hpeak, hmax]
    exact ⟨Decimal.le_self _, Decimal.le_self _⟩

/-- A monitor shows what the equities say: their peak, the worst of their drawdowns, which is zero
at least, and a drawdown that is not worse. -/
structure Follows (start : Decimal) (es : List Decimal) (m : DrawdownMonitor) : Prop where
  peak_eq : m.peakEquity = peakOf start es
  worst : IsGreatest {d | d = 0 ∨ IsDrawdown start es d} m.maxDrawdown
  current : ∃ d, m.currentDrawdown = .ok d ∧ 0 ≤ d ∧ d ≤ m.maxDrawdown

theorem follows_new (start : Decimal) (now : Instant) : Follows start [] (new start now) where
  peak_eq := rfl
  worst := by
    refine ⟨.inl rfl, ?_⟩
    rintro d (rfl | ⟨before, equity, hprefix, -⟩)
    · exact Decimal.le_self 0
    · exact absurd (List.prefix_nil.mp hprefix) (by simp)
  current := ⟨0, drawdownOf_self start, Decimal.le_self 0, Decimal.le_self 0⟩

namespace Follows

theorem of_sameEquity (h : Follows start es m) (hsame : m.SameEquity m') :
    Follows start es m' where
  peak_eq := hsame.peakEquity_eq.trans h.peak_eq
  worst := hsame.maxDrawdown_eq ▸ h.worst
  current := by
    rw [currentDrawdown_eq, hsame.peakEquity_eq, hsame.currentEquity_eq, hsame.maxDrawdown_eq]
    exact h.current

theorem update (h : Follows start es m) (hupdate : m.update equity now = .ok m') :
    Follows start (es ++ [equity]) m' := by
  obtain ⟨hpeak, drawdown, hcurrent, hdrawdown, hmax⟩ := update_eq_ok hupdate
  -- the new peak is that of all equities, so the drawdown is one of theirs
  rw [h.peak_eq, ← peakOf_concat] at hpeak hdrawdown
  refine ⟨hpeak, ?_, drawdown, hcurrent, drawdownOf_nonneg hdrawdown, ?_⟩
  · rw [hmax]
    refine Decimal.isGreatest_max h.worst fun d => ?_
    show d = 0 ∨ IsDrawdown start (es ++ [equity]) d ↔
      (d = 0 ∨ IsDrawdown start es d) ∨ d = drawdown
    rw [isDrawdown_concat, hdrawdown, Except.ok.injEq, or_assoc, eq_comm (a := drawdown)]
  · rw [hmax]
    exact Decimal.right_le_max ..

/-- A call keeps the monitor in step with the equities. -/
theorem perform (h : Follows start es m) (hperform : m.perform c = .ok m') :
    Follows start (es ++ c.equity?.toList) m' := by
  cases c with
  | update equity now => exact h.update hperform
  | recordPnl pnl now =>
    rw [show (Call.recordPnl pnl now).equity?.toList = [] from rfl, List.append_nil]
    exact h.of_sameEquity (sameEquity_recordPnl hperform)

end Follows

/-- Along every run a monitor shows what the equities say. -/
theorem follows_runCalls (h : (new start now).runCalls calls = .ok m) :
    Follows start (equities calls) m := by
  induction calls using List.reverseRecOn generalizing m with
  | nil =>
    obtain rfl := pure_eq_ok.mp h
    exact follows_new start now
  | append_singleton calls c ih =>
    obtain ⟨m₁, hcalls, hcall⟩ := runCalls_concat.mp h
    have hequities : equities (calls ++ [c]) = equities calls ++ c.equity?.toList := by
      rw [equities, List.filterMap_append]
      cases c <;> rfl
    rw [hequities]
    exact (ih hcalls).perform hcall

end DrawdownMonitor

namespace RiskManager

open DrawdownMonitor (IsDrawdown equities peakOf)

variable {m : RiskManager}

/-- The equities that some operations feed: those of the accounts of signals, and those marked. -/
def equitiesOf (ops : List Operation) : List Decimal := equities (ops.filterMap Operation.call?)

/-- Along every run the peak is the greatest of the equities, the first among them that at which the
manager starts.  The worst drawdown is the greatest of zero and the drawdowns of the equities, each
from the peak up to it, and the current drawdown lies between zero and the worst.  No operation
lowers the peak or the worst drawdown. -/
theorem peak_and_drawdown_of_equities (limits : RiskSettings) (start : Decimal) (begin : Instant)
    {ops : List Operation} (hrun : (new limits start begin).run ops = .ok m) :
    (m.monitor.peakEquity = peakOf start (equitiesOf ops) ∧
      IsGreatest {e | e ∈ start :: equitiesOf ops} (peakOf start (equitiesOf ops))) ∧
    IsGreatest {d | d = 0 ∨ IsDrawdown start (equitiesOf ops) d} m.monitor.maxDrawdown ∧
    (∃ d, m.monitor.currentDrawdown = .ok d ∧ 0 ≤ d ∧ d ≤ m.monitor.maxDrawdown) ∧
    ∀ op m' answer, m.step op = .ok (m', answer) →
      m.monitor.peakEquity ≤ m'.monitor.peakEquity ∧
        m.monitor.maxDrawdown ≤ m'.monitor.maxDrawdown := by
  obtain ⟨hpeak, hworst, hcurrent⟩ := DrawdownMonitor.follows_runCalls (runCalls_of_run hrun)
  refine ⟨⟨hpeak, DrawdownMonitor.isGreatest_peakOf ..⟩, hworst, hcurrent, ?_⟩
  intro op m' answer hstep
  have hcalls := runCalls_of_step hstep
  -- an operation that tells the monitor nothing leaves it as it is
  cases hcall : op.call? with
  | none =>
    rw [hcall] at hcalls
    obtain heq := pure_eq_ok.mp hcalls
    rw [← heq]
    exact ⟨Decimal.le_self _, Decimal.le_self _⟩
  | some c =>
    rw [hcall] at hcalls
    exact DrawdownMonitor.le_of_perform ((bind_pure _).symm.trans hcalls)

/-- A fall by a fifth of the peak halts trading.  Neither a reset nor a recovery makes the peak and
the worst drawdown any less. -/
theorem peak_and_drawdown_of_fall : ∃ m,
    (new {} (.lit 1000 0) default).run [.updateEquity (.lit 1100 0) default,
      .recordTrade (-.lit 5 0) default, .updateEquity (.lit 880 0) default, .reset default,
      .updateEquity (.lit 1045 0) default] = .ok m ∧
    IsGreatest {e | e ∈ [.lit 1000 0, .lit 1100 0, .lit 880 0, .lit 1045 0]}
      m.monitor.peakEquity ∧
    m.monitor.peakEquity = .lit 1100 0 ∧ m.monitor.maxDrawdown = .lit 20 2 ∧
    m.monitor.currentDrawdown = .ok (.lit 5 2) := by
  have hfalls : (((new {} (.lit 1000 0) default).run [.updateEquity (.lit 1100 0) default,
      .recordTrade (-.lit 5 0) default, .updateEquity (.lit 880 0) default, .reset default,
      .updateEquity (.lit 1045 0) default]).toOption.bind fun m =>
        m.monitor.currentDrawdown.toOption.bind fun d =>
          some (m.monitor.maxDrawdown, d)) = some (.lit 20 2, .lit 5 2) := by decide +kernel
  obtain ⟨m, hrun, h⟩ := Calc.exists_eq_ok hfalls
  obtain ⟨d, hd, h⟩ := Calc.exists_eq_ok h
  obtain ⟨hmax, rfl⟩ := Prod.mk.inj (Option.some.inj h)
  obtain ⟨⟨hpeak, hgreatest⟩, -⟩ := peak_and_drawdown_of_equities _ _ _ hrun
  refine ⟨m, hrun, ?_, hpeak.trans (by decide +kernel), hmax, hd⟩
  rw [hpeak]
  exact hgreatest

end RiskManager

end SimBroker
