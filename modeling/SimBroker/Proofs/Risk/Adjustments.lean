import Mathlib.Algebra.BigOperators.Group.List.Basic
import Mathlib.Algebra.Order.BigOperators.Group.List
import SimBroker.Proofs.Risk.Kelly

/-!
# Adjustments of a size, in any order

A size is scaled by the strength of a signal, shrunk when the market is too volatile, and shrunk
when the position is correlated with others.  Each of the three takes a share of the size that does
not depend on the size, so the exact size after all of them does not depend on their order.  But
each product is rounded, and what is rounded is another product in another order.

## Main definitions

* `Adjustment`, `RiskSettings.adjust`, `RiskSettings.adjustAll`: adjustments of a size
* `RiskSettings.share`: the share of a size that an adjustment leaves
* `RiskSettings.growth`: how much a size may grow under way

## Main results

* `RiskSettings.adjust_eq_ok`: an adjustment rounds the share of the size
* `RiskSettings.adjustAll_error`: the error after some adjustments
* `RiskSettings.adjustAll_exact`: there is none if all exact sizes under way are decimals
* `RiskSettings.exists_adjustAll`: adjustments that only shrink a size do not overflow
* `RiskSettings.adjustments_in_any_order`: the three adjustments in two orders
-/

namespace SimBroker

open Calc (ok_bind bind_eq_ok pure_eq_ok foldlM_concat_eq_ok)
open Decimal

/-- An adjustment of a size. -/
inductive Adjustment where
  | strength (strength : Decimal)
  | volatility (volatility target : Decimal)
  | correlation (correlation : Decimal)

/-- An adjustment leaves every size as it is. -/
def Adjustment.Idle : Adjustment → Prop
  | .volatility measured target => measured ≤ 0 ∨ target ≤ 0
  | .strength _ | .correlation _ => False

namespace RiskSettings

variable {limits : RiskSettings} {size a b c f : Decimal} {adj : Adjustment}
  {adjs adjs' : List Adjustment}

/-- The size after an adjustment. -/
def adjust (limits : RiskSettings) (size : Decimal) : Adjustment → Calc Decimal
  | .strength strength => scaleByStrength size strength
  | .volatility volatility target => adjustForVolatility size volatility target
  | .correlation correlation => limits.adjustForCorrelation size correlation

/-- The size after some adjustments, one after the other. -/
def adjustAll (limits : RiskSettings) (size : Decimal) (adjs : List Adjustment) : Calc Decimal :=
  adjs.foldlM limits.adjust size

/-! ## The share that is left -/

/-- The factor of an adjustment. -/
def factor (limits : RiskSettings) : Adjustment → Calc Decimal
  | .strength strength => do half.add (← half.mul ((strength.max 0).min 1))
  | .volatility volatility target =>
    if volatility ≤ 0 ∨ target ≤ 0 then return 1 else return (← target.div volatility).min 1
  | .correlation correlation => do
    let correlation := ((correlation.max (-1)).min 1).max 0
    return (← Decimal.sub 1 (← correlation.mul limits.correlationPenalty)).max 0

/-- An adjustment calculates its factor, and multiplies the size with it unless it is idle. -/
theorem adjust_eq (hidle : ¬ adj.Idle) :
    limits.adjust size adj = (do size.mul (← limits.factor adj)) := by
  cases adj with
  | strength => simp only [adjust, scaleByStrength, factor, bind_assoc]
  | volatility =>
    simp only [adjust, adjustForVolatility, factor, if_neg (show ¬ (_ ∨ _) from hidle), bind_assoc,
      pure_bind]
  | correlation => simp only [adjust, adjustForCorrelation, factor, bind_assoc, pure_bind]

theorem adjust_of_idle (limits : RiskSettings) (size : Decimal) (hidle : adj.Idle) :
    limits.adjust size adj = .ok size ∧ limits.factor adj = .ok 1 := by
  cases adj with
  | volatility => exact ⟨if_pos hidle, if_pos hidle⟩
  | strength | correlation => exact hidle.elim

/-- The share of a size that an adjustment leaves, nothing if its factor is not calculated. -/
def share (limits : RiskSettings) (adj : Adjustment) : ℚ :=
  (limits.factor adj).toOption.elim 0 toRat

theorem share_eq (h : limits.factor adj = .ok f) : limits.share adj = f.toRat := by
  rw [share, h]
  rfl

/-- An adjustment rounds the share of the size. -/
theorem adjust_eq_ok (h : limits.adjust size adj = .ok c) :
    Rounded (size.toRat * limits.share adj) c := by
  by_cases hidle : adj.Idle
  · obtain ⟨hsize, hfactor⟩ := limits.adjust_of_idle size hidle
    obtain rfl := Except.ok.inj (hsize.symm.trans h)
    rw [share_eq hfactor, toRat_one, mul_one]
    exact .of_eq rfl
  · rw [adjust_eq hidle, bind_eq_ok] at h
    obtain ⟨f, hfactor, hmul⟩ := h
    rw [share_eq hfactor]
    exact rounded_mul hmul

/-- An adjustment that leaves no more than the size does not overflow. -/
theorem exists_adjust (size : Decimal) (hfactor : limits.factor adj = .ok f) (hf : |f.toRat| ≤ 1) :
    ∃ c, limits.adjust size adj = .ok c := by
  by_cases hidle : adj.Idle
  · exact ⟨size, (limits.adjust_of_idle size hidle).1⟩
  · rw [adjust_eq hidle, hfactor, ok_bind]
    -- the product is no greater than the size, which has a place in the format
    refine exists_mul_of_abs_le (Rounded.of_eq (c := size) rfl) ?_
    rw [abs_mul]
    exact mul_le_of_le_one_right (abs_nonneg _) hf

theorem toRat_half : half.toRat = 1 / 2 := by decide +kernel

/-- The factor for a strength is between one half and one. -/
theorem strength_factor {strength : Decimal} (h : limits.factor (.strength strength) = .ok f) :
    1 / 2 ≤ f.toRat ∧ f.toRat ≤ 1 := by
  obtain ⟨x, hx, hf⟩ := bind_eq_ok.mp h
  have hlower : 0 ≤ ((strength.max 0).min 1).toRat := by
    rw [toRat_min, toRat_max, toRat_zero, toRat_one]
    exact le_min (le_max_right _ _) zero_le_one
  have hupper : ((strength.max 0).min 1).toRat ≤ 1 := by
    rw [toRat_min, toRat_one]
    exact min_le_right _ _
  have hx0 : 0 ≤ x.toRat := (faithful_mul hx).nonneg (by rw [toRat_half]; positivity)
  have hx1 : x.toRat ≤ half.toRat := (faithful_mul hx).le (by rw [toRat_half]; linarith)
  constructor
  · rw [← toRat_half]
    exact (faithful_add hf).ge (by linarith)
  · rw [← toRat_one]
    exact (faithful_add hf).le (by rw [toRat_one]; rw [toRat_half] at hx1 ⊢; linarith)

theorem volatility_factor {volatility target : Decimal}
    (h : limits.factor (.volatility volatility target) = .ok f) :
    0 ≤ f.toRat ∧ f.toRat ≤ 1 := by
  simp only [factor] at h
  split at h
  · obtain rfl := pure_eq_ok.mp h
    rw [toRat_one]
    exact ⟨zero_le_one, le_rfl⟩
  · next hskip =>
    obtain ⟨q, hq, h⟩ := bind_eq_ok.mp h
    obtain rfl := pure_eq_ok.mp h
    obtain ⟨hvolatility, htarget⟩ := not_or.mp hskip
    rw [not_le_iff, pos_iff] at hvolatility htarget
    have hq0 : 0 ≤ q.toRat := (faithful_div hq).nonneg (by positivity)
    rw [toRat_min, toRat_one]
    exact ⟨le_min hq0 zero_le_one, min_le_right _ _⟩

theorem correlation_factor {correlation : Decimal}
    (h : limits.factor (.correlation correlation) = .ok f) :
    0 ≤ f.toRat ∧ (0 ≤ limits.correlationPenalty → f.toRat ≤ 1) := by
  simp only [factor, bind_eq_ok, pure_eq_ok] at h
  obtain ⟨x, hx, d, hd, rfl⟩ := h
  rw [toRat_max, toRat_zero]
  refine ⟨le_max_right _ _, fun hpenalty => max_le ?_ zero_le_one⟩
  rw [nonneg_iff] at hpenalty
  have hcorrelation : 0 ≤ (((correlation.max (-1)).min 1).max 0).toRat := by
    rw [toRat_max, toRat_zero]
    exact le_max_right _ _
  have hx0 : 0 ≤ x.toRat := (faithful_mul hx).nonneg (by positivity)
  rw [← toRat_one]
  exact (faithful_sub hd).le (by linarith)

theorem share_cases (limits : RiskSettings) (adj : Adjustment) :
    limits.share adj = 0 ∨ ∃ f, limits.factor adj = .ok f ∧ limits.share adj = f.toRat := by
  cases h : limits.factor adj with
  | error e =>
    left
    rw [share, h]
    rfl
  | ok f => exact .inr ⟨f, rfl, share_eq h⟩

theorem share_nonneg (limits : RiskSettings) (adj : Adjustment) : 0 ≤ limits.share adj := by
  rcases limits.share_cases adj with h | ⟨f, hf, h⟩
  · exact h.ge
  · rw [h]
    cases adj with
    | strength => linarith [(strength_factor hf).1]
    | volatility => exact (volatility_factor hf).1
    | correlation => exact (correlation_factor hf).1

/-- Only a negative penalty makes a size grow. -/
theorem share_le_one (h : ∀ correlation, adj = .correlation correlation →
    0 ≤ limits.correlationPenalty) : limits.share adj ≤ 1 := by
  rcases limits.share_cases adj with hzero | ⟨f, hf, heq⟩
  · rw [hzero]
    exact zero_le_one
  · rw [heq]
    cases adj with
    | strength => exact (strength_factor hf).2
    | volatility => exact (volatility_factor hf).2
    | correlation correlation => exact (correlation_factor hf).2 (h correlation rfl)

/-! ## Errors -/

/-- The exact size after some adjustments. -/
def exactSize (limits : RiskSettings) (size : Decimal) (adjs : List Adjustment) : ℚ :=
  size.toRat * (adjs.map limits.share).prod

/-- How much a size may grow while it is adjusted. -/
def growth (limits : RiskSettings) (adjs : List Adjustment) : ℚ :=
  (adjs.map fun adj => max (limits.share adj) 1).prod

theorem exactSize_concat (limits : RiskSettings) (size : Decimal) (adjs : List Adjustment)
    (adj : Adjustment) :
    limits.exactSize size (adjs ++ [adj]) = limits.exactSize size adjs * limits.share adj := by
  rw [exactSize, exactSize, List.map_append, List.prod_append, List.map_singleton,
    List.prod_singleton, mul_assoc]

theorem growth_concat (limits : RiskSettings) (adjs : List Adjustment) (adj : Adjustment) :
    limits.growth (adjs ++ [adj]) = limits.growth adjs * max (limits.share adj) 1 := by
  rw [growth, growth, List.map_append, List.prod_append, List.map_singleton, List.prod_singleton]

theorem exactSize_perm (h : adjs.Perm adjs') :
    limits.exactSize size adjs = limits.exactSize size adjs' := by
  rw [exactSize, exactSize, (h.map _).prod_eq]

theorem growth_perm (h : adjs.Perm adjs') : limits.growth adjs = limits.growth adjs' :=
  (h.map _).prod_eq

theorem one_le_growth (limits : RiskSettings) (adjs : List Adjustment) :
    1 ≤ limits.growth adjs := by
  induction adjs with
  | nil => exact le_rfl
  | cons adj adjs ih =>
    rw [growth, List.map_cons, List.prod_cons]
    exact one_le_mul_of_one_le_of_one_le (le_max_right _ _) ih

theorem exactSize_le (hsize : 0 ≤ size.toRat) :
    limits.exactSize size adjs ≤ size.toRat * limits.growth adjs := by
  induction adjs using List.reverseRecOn with
  | nil => exact le_rfl
  | append_singleton adjs adj ih =>
    rw [exactSize_concat, growth_concat, ← mul_assoc]
    exact mul_le_mul ih (le_max_left _ _) (limits.share_nonneg adj)
      (mul_nonneg hsize (zero_le_one.trans (limits.one_le_growth adjs)))

/-- A product with a factor `f` of a number `d` that is in error, rounded: the error grows with the
factor, and is greater by that of rounding. -/
theorem abs_sub_mul_le {size exact d x f g G u : ℚ} {n : ℕ} (hu : 0 ≤ u) (hsize : 0 ≤ size)
    (hG : 1 ≤ G) (hg : 1 ≤ g) (hf : 0 ≤ f) (hfg : f ≤ g) (hexact : exact ≤ size * G)
    (herror : |d - exact| ≤ (1 + size) * G * ((1 + u) ^ n - 1))
    (hround : |x - d * f| ≤ (1 + d * f) * u) :
    |x - exact * f| ≤ (1 + size) * (G * g) * ((1 + u) ^ (n + 1) - 1) := by
  generalize hE : (1 + size) * G * ((1 + u) ^ n - 1) = E at herror
  have hE0 : 0 ≤ E := (abs_nonneg _).trans herror
  have hsizeG : 0 ≤ size * G := mul_nonneg hsize (zero_le_one.trans hG)
  have hcarried : |(d - exact) * f| ≤ E * g := by
    rw [abs_mul, abs_of_nonneg hf]
    exact mul_le_mul herror hfg hf hE0
  have hgrown : exact * f ≤ size * G * g :=
    (mul_le_mul_of_nonneg_right hexact hf).trans (mul_le_mul_of_nonneg_left hfg hsizeG)
  have hproduct : d * f ≤ size * G * g + E * g := by
    have := (le_abs_self _).trans hcarried
    linarith
  have hGg : 1 ≤ G * g := one_le_mul_of_one_le_of_one_le hG hg
  calc |x - exact * f| = |(x - d * f) + (d - exact) * f| := by rw [sub_mul, sub_add_sub_cancel]
    _ ≤ |x - d * f| + |(d - exact) * f| := abs_add_le _ _
    _ ≤ (1 + (size * G * g + E * g)) * u + E * g := by
      refine add_le_add (hround.trans ?_) hcarried
      gcongr
    _ ≤ (G * g + (size * G * g + E * g)) * u + E * g := by gcongr
    _ = (1 + size) * (G * g) * ((1 + u) ^ (n + 1) - 1) := by
      rw [← hE]
      ring

/-- The error after some adjustments is a few units of the last places. -/
theorem adjustAll_error (hsize : 0 ≤ size) (h : limits.adjustAll size adjs = .ok c) :
    0 ≤ c.toRat ∧ |c.toRat - limits.exactSize size adjs| ≤
      (1 + size.toRat) * limits.growth adjs * ((1 + 1 / 10 ^ 28) ^ adjs.length - 1) := by
  rw [nonneg_iff] at hsize
  induction adjs using List.reverseRecOn generalizing c with
  | nil =>
    obtain rfl : size = c := pure_eq_ok.mp h
    simp [exactSize, growth, hsize]
  | append_singleton adjs adj ih =>
    obtain ⟨d, hd, hc⟩ := foldlM_concat_eq_ok.mp h
    obtain ⟨hd0, herror⟩ := ih hd
    have hrounded := adjust_eq_ok hc
    have hshare := mul_nonneg hd0 (limits.share_nonneg adj)
    refine ⟨hrounded.nearest.faithful.nonneg hshare, ?_⟩
    rw [exactSize_concat, growth_concat, List.length_append, List.length_singleton]
    have hround := hrounded.nearest.abs_sub_le
    rw [abs_of_nonneg hshare, div_eq_mul_one_div] at hround
    exact abs_sub_mul_le (by norm_num) hsize (limits.one_le_growth adjs) (le_max_right _ _)
      (limits.share_nonneg adj) (le_max_left _ _) (exactSize_le hsize) herror hround

/-- If the exact sizes under way are decimals, no size under way is in error. -/
theorem adjustAll_exact (h : limits.adjustAll size adjs = .ok c)
    (hdecimal : ∀ before, before <+: adjs → ∃ d : Decimal, d.toRat = limits.exactSize size before) :
    c.toRat = limits.exactSize size adjs := by
  induction adjs using List.reverseRecOn generalizing c with
  | nil =>
    obtain rfl : size = c := pure_eq_ok.mp h
    rw [exactSize, List.map_nil, List.prod_nil, mul_one]
  | append_singleton adjs adj ih =>
    obtain ⟨d, hd, hc⟩ := foldlM_concat_eq_ok.mp h
    have hexact := ih hd fun before hbefore =>
      hdecimal before (hbefore.trans (List.prefix_append ..))
    obtain ⟨e, he⟩ := hdecimal _ (List.prefix_refl _)
    rw [exactSize_concat, ← hexact] at he ⊢
    -- a number that is a decimal is rounded to itself
    rw [← he]
    exact (adjust_eq_ok hc).unique (he ▸ .of_eq rfl)

/-- Without a negative penalty, adjustments whose factors are calculated do not overflow. -/
theorem exists_adjustAll (size : Decimal) (hpenalty : 0 ≤ limits.correlationPenalty)
    (hfactor : ∀ adj ∈ adjs, ∃ f, limits.factor adj = .ok f) :
    ∃ c, limits.adjustAll size adjs = .ok c := by
  induction adjs generalizing size with
  | nil => exact ⟨size, rfl⟩
  | cons adj adjs ih =>
    obtain ⟨f, hf⟩ := hfactor adj List.mem_cons_self
    have hshare : |f.toRat| ≤ 1 := by
      rw [← share_eq hf, abs_of_nonneg (limits.share_nonneg adj)]
      exact share_le_one fun _ _ => hpenalty
    obtain ⟨d, hd⟩ := exists_adjust size hf hshare
    obtain ⟨c, hc⟩ := ih d fun adj hadj => hfactor adj (List.mem_cons_of_mem _ hadj)
    refine ⟨c, ?_⟩
    rw [adjustAll, List.foldlM_cons, hd, ok_bind]
    exact hc

/-! ## The three adjustments -/

/-- The three adjustments of a size. -/
def adjustments (strength volatility target correlation : Decimal) : List Adjustment :=
  [.strength strength, .volatility volatility target, .correlation correlation]

variable {strength volatility target correlation : Decimal}

/-- Only the share for the correlation may be more than one. -/
theorem growth_adjustments : limits.growth (adjustments strength volatility target correlation) =
    max (limits.share (.correlation correlation)) 1 := by
  have hstrength : limits.share (.strength strength) ≤ 1 := share_le_one nofun
  have hvolatility : limits.share (.volatility volatility target) ≤ 1 := share_le_one nofun
  simp [growth, adjustments, max_eq_right hstrength, max_eq_right hvolatility]

/-- The three adjustments in any order give the exact size within four units of the last places. -/
theorem adjustments_error (hsize : 0 ≤ size)
    (hadjs : adjs.Perm (adjustments strength volatility target correlation))
    (h : limits.adjustAll size adjs = .ok c) :
    |c.toRat - limits.exactSize size (adjustments strength volatility target correlation)| ≤
      4 * (1 + size.toRat) * max (limits.share (.correlation correlation)) 1 / 10 ^ 28 := by
  have herror := (adjustAll_error hsize h).2
  rw [exactSize_perm hadjs, growth_perm hadjs, growth_adjustments, hadjs.length_eq] at herror
  refine herror.trans ?_
  rw [nonneg_iff] at hsize
  have hthree : ((1 + 1 / 10 ^ 28) ^ 3 - 1 : ℚ) ≤ 4 / 10 ^ 28 := by norm_num
  calc _ ≤ (1 + size.toRat) * max (limits.share (.correlation correlation)) 1 * (4 / 10 ^ 28) :=
        mul_le_mul_of_nonneg_left hthree (by positivity)
    _ = _ := by ring

/-- For every sizer, every size that is not negative and every strength, volatility, target and
correlation: in whatever two orders the three adjustments are applied, without overflow,

* either result is the exact size but for four units of the last places of a number, which is the
  size itself, or what a negative penalty makes of it, and one more;
* so the two results differ by eight of these units at most;
* they are equal if the exact sizes under way are decimals. -/
theorem adjustments_in_any_order (limits : RiskSettings) (hsize : 0 ≤ size)
    (hadjs : adjs.Perm (adjustments strength volatility target correlation))
    (hadjs' : adjs'.Perm (adjustments strength volatility target correlation))
    (ha : limits.adjustAll size adjs = .ok a) (hb : limits.adjustAll size adjs' = .ok b) :
    |a.toRat - limits.exactSize size (adjustments strength volatility target correlation)| ≤
      4 * (1 + size.toRat) * max (limits.share (.correlation correlation)) 1 / 10 ^ 28 ∧
    |a.toRat - b.toRat| ≤
      8 * (1 + size.toRat) * max (limits.share (.correlation correlation)) 1 / 10 ^ 28 ∧
    ((∀ before, before <+: adjs ∨ before <+: adjs' →
      ∃ d : Decimal, d.toRat = limits.exactSize size before) → a.SameValue b) := by
  have herror := adjustments_error hsize hadjs ha
  have herror' := adjustments_error hsize hadjs' hb
  refine ⟨herror, ?_, fun hdecimal => ?_⟩
  · rw [abs_sub_comm] at herror'
    refine (abs_sub_le _ _ _).trans ((add_le_add herror herror').trans ?_)
    linarith
  · have hexact := adjustAll_exact ha fun before h => hdecimal before (.inl h)
    have hexact' := adjustAll_exact hb fun before h => hdecimal before (.inr h)
    rw [sameValue_iff, hexact, hexact', exactSize_perm hadjs, exactSize_perm hadjs']

/-- A strength of 0.8, a volatility of 0.03 for a target of 0.02, and a correlation of 0.7. -/
def sampleAdjustments : List Adjustment :=
  adjustments (.lit 8 1) (.lit 3 2) (.lit 2 2) (.lit 7 1)

/-- The same adjustments, with the strength at the end. -/
def strengthLast : List Adjustment := sampleAdjustments.rotate 1

/-- One unit after some adjustments. -/
def unitAfter? (adjs : List Adjustment) : Option Decimal :=
  (({} : RiskSettings).adjustAll 1 adjs).toOption.bind some

/-- One unit after the same three adjustments, in two orders. -/
theorem unit_adjusted : ∃ a b, ({} : RiskSettings).adjustAll 1 sampleAdjustments = .ok a ∧
    ({} : RiskSettings).adjustAll 1 strengthLast = .ok b ∧
    a = .lit 3900000000000000000000000000 28 ∧ b = .lit 3900000000000000000000000001 28 := by
  have hfirst : unitAfter? sampleAdjustments = some (.lit 3900000000000000000000000000 28) := by
    decide +kernel
  have hlast : unitAfter? strengthLast = some (.lit 3900000000000000000000000001 28) := by
    decide +kernel
  obtain ⟨a, ha, haeq⟩ := Calc.exists_eq_ok hfirst
  obtain ⟨b, hb, hbeq⟩ := Calc.exists_eq_ok hlast
  exact ⟨a, b, ha, hb, Option.some.inj haeq, Option.some.inj hbeq⟩

/-- The order of the adjustments makes a difference in the last place. -/
theorem adjustments_differ : ∃ a b,
    strengthLast.Perm sampleAdjustments ∧
    ({} : RiskSettings).adjustAll 1 sampleAdjustments = .ok a ∧
    ({} : RiskSettings).adjustAll 1 strengthLast = .ok b ∧ ¬ a.SameValue b := by
  obtain ⟨a, b, ha, hb, rfl, rfl⟩ := unit_adjusted
  exact ⟨_, _, List.rotate_perm _ _, ha, hb, by decide +kernel⟩

/-- The difference is within the bounds. -/
theorem adjustments_in_any_order_unit : ∃ a b,
    strengthLast.Perm sampleAdjustments ∧
    ({} : RiskSettings).adjustAll 1 sampleAdjustments = .ok a ∧
    ({} : RiskSettings).adjustAll 1 strengthLast = .ok b ∧
    |a.toRat - b.toRat| ≤
      8 * (1 + (1 : Decimal).toRat) *
        max (({} : RiskSettings).share (.correlation (.lit 7 1))) 1 / 10 ^ 28 := by
  obtain ⟨a, b, ha, hb, -, -⟩ := unit_adjusted
  have hperm : strengthLast.Perm sampleAdjustments := List.rotate_perm _ _
  exact ⟨a, b, hperm, ha, hb,
    (adjustments_in_any_order {} (by decide +kernel) (.refl _) hperm ha hb).2.1⟩

end RiskSettings

end SimBroker
