import SimBroker.Proofs.Decimal.Monotone
import SimBroker.Proofs.Risk.Sizing

/-!
# Caps that are applied again

The four caps on a size are one rule: where the amount that a cap limits is more than the cap
allows, the size becomes the quotient of that and the price which makes a size this amount.  The
quotient is rounded, and may be rounded up; then the amount is still more than the cap allows, and
the same cap cuts the size again when it is applied again, to the same quotient.  So applying all
caps again changes nothing, although an amount may be a rounding error above its cap.

## Main definitions

* `SizeLimit.amount`, `SizeLimit.price`: what a cap limits, and what makes a size this amount
* `RiskSettings.allowed`: what a cap allows
* `RiskSettings.cap`: one cap
* `Sizing.Derived`: the value and the risk of a sizing have the values that follow from its size
* `Sizing.Shrunk`: the same trade in the same direction with no greater size
* `RiskSettings.Kept`: a cap is kept, or the size is its quotient

## Main results

* `RiskSettings.applyLimits_eq_foldlM`: the caps are applied one after the other
* `RiskSettings.applyLimits_idempotent`: sizes do not grow, and applying all caps again changes
  nothing
* `RiskSettings.applyLimits_amount_le`: an amount is more than a cap allows only by the rounding
  error of a quotient that was rounded up
-/

namespace SimBroker

open Calc (bind_eq_ok pure_eq_ok ok_bind)
open Decimal (faithful_div faithful_mul)

variable {limits : RiskSettings} {equity most z : Decimal} {s s' s'' l : Sizing}
  {limit : SizeLimit} {caps : List SizeLimit}

/-! ## What a cap limits -/

namespace SizeLimit

/-- The caps in the order in which they are applied. -/
def inOrder : List SizeLimit := [positionSize, positionValue, riskPerTrade, leverage]

theorem mem_inOrder (limit : SizeLimit) : limit ∈ inOrder := by cases limit <;> decide

/-- What a cap limits: what is lost at the stop, or the value. -/
def amount (limit : SizeLimit) (s : Sizing) : Decimal :=
  match limit with
  | riskPerTrade => s.riskAmount
  | _ => s.value

/-- The price that makes a size this amount. -/
def price (limit : SizeLimit) (s : Sizing) : Decimal :=
  match limit with
  | riskPerTrade => s.stopDistance
  | _ => s.entryPrice

/-- A cap on what is lost at the stop asks for a distance to the stop. -/
def Applies (limit : SizeLimit) (s : Sizing) : Prop := limit = riskPerTrade → 0 < s.stopDistance

instance : Decidable (limit.Applies s) := inferInstanceAs (Decidable (_ → _))

theorem Applies.price_pos (h : limit.Applies s) (hentry : 0 < s.entryPrice) :
    0 < limit.price s := by
  cases limit with
  | riskPerTrade => exact h rfl
  | _ => exact hentry

end SizeLimit

namespace Sizing

/-- The value and the risk of a sizing have the values that follow from its size. -/
structure Derived (s : Sizing) : Prop where
  value : ∃ v, s.size.mul s.entryPrice = .ok v ∧ s.value.SameValue v
  riskAmount : ∃ v, s.size.mul s.stopDistance = .ok v ∧ s.riskAmount.SameValue v

theorem Valued.derived (h : s.Valued) : s.Derived :=
  ⟨⟨_, h.value_eq, .refl _⟩, ⟨_, h.riskAmount_eq, .refl _⟩⟩

/-- An amount is the size times its price. -/
theorem Derived.amount (h : s.Derived) (limit : SizeLimit) :
    ∃ v, s.size.mul (limit.price s) = .ok v ∧ (limit.amount s).toRat = v.toRat := by
  simp only [← Decimal.sameValue_iff]
  cases limit with
  | riskPerTrade => exact h.riskAmount
  | _ => exact h.value

/-- A size that is not more than the exact quotient of a cap keeps the cap. -/
theorem Derived.amount_le (hs : s.Derived) (hprice : 0 < limit.price s)
    (h : s.size.toRat ≤ most.toRat / (limit.price s).toRat) : limit.amount s ≤ most := by
  obtain ⟨v, hv, hamount⟩ := hs.amount limit
  rw [Decimal.le_iff, hamount]
  refine (faithful_mul hv).le ?_
  rwa [← le_div_iff₀ (Decimal.pos_iff.mp hprice)]

/-- The rounded quotient of a cap makes the cap up to rounding. -/
theorem Derived.amount_le_add (hs : s.Derived) (hprice : 0 < limit.price s)
    (hmost : 0 ≤ most.toRat) (hz : most.div (limit.price s) = .ok z)
    (hsize : s.size.toRat = z.toRat) :
    (limit.amount s).toRat ≤
      most.toRat + (1 + 2 * (limit.price s).toRat + 3 * most.toRat) / 10 ^ 28 := by
  obtain ⟨v, hv, hamount⟩ := hs.amount limit
  have hprice := Decimal.pos_iff.mp hprice
  have hquotient : 0 ≤ most.toRat / (limit.price s).toRat := div_nonneg hmost hprice.le
  have hsize_nonneg := hsize ▸ (faithful_div hz).nonneg hquotient
  have hdiv := (abs_le.mp (Decimal.nearest_div hz).abs_sub_le).2
  have hmul := (abs_le.mp (Decimal.nearest_mul hv).abs_sub_le).2
  rw [abs_of_nonneg hquotient, ← hsize] at hdiv
  rw [abs_of_nonneg (mul_nonneg hsize_nonneg hprice.le)] at hmul
  -- the error of the quotient is multiplied by the price
  have hmul_div : most.toRat / (limit.price s).toRat * (limit.price s).toRat = most.toRat :=
    div_mul_cancel₀ _ hprice.ne'
  have hdiv := mul_le_mul_of_nonneg_right hdiv hprice.le
  rw [sub_mul, hmul_div, div_mul_eq_mul_div, add_mul, one_mul, hmul_div] at hdiv
  rw [hamount]
  linarith

/-- The same trade in the same direction with no greater size. -/
structure Shrunk (s s' : Sizing) : Prop extends s.Cut s' where
  direction_eq : s'.direction = s.direction

namespace Shrunk

theorem refl (s : Sizing) : s.Shrunk s := ⟨.refl s, rfl⟩

theorem trans (h : s.Shrunk s') (h' : s'.Shrunk s'') : s.Shrunk s'' :=
  ⟨h.toCut.trans h'.toCut, h'.direction_eq.trans h.direction_eq⟩

theorem price_eq (h : s.Shrunk s') (limit : SizeLimit) : limit.price s' = limit.price s := by
  cases limit with
  | riskPerTrade => exact h.stopDistance_eq
  | _ => exact h.entryPrice_eq

theorem applies_iff (h : s.Shrunk s') : limit.Applies s' ↔ limit.Applies s := by
  rw [SizeLimit.Applies, SizeLimit.Applies, h.stopDistance_eq]

theorem entryPrice_pos (h : s.Shrunk s') (hentry : 0 < s.entryPrice) : 0 < s'.entryPrice := by
  rwa [h.entryPrice_eq]

/-- A smaller size has smaller amounts. -/
theorem amount_le (h : s.Shrunk s') (hs : s.Derived) (hs' : s'.Derived)
    (hprice : 0 < limit.price s) : limit.amount s' ≤ limit.amount s := by
  obtain ⟨v, hv, hamount⟩ := hs.amount limit
  obtain ⟨v', hv', hamount'⟩ := hs'.amount limit
  rw [h.price_eq] at hv'
  rw [Decimal.le_iff, hamount, hamount']
  exact Decimal.mul_le_mul_of_le hv' hv h.size_le (Decimal.pos_iff.mp hprice).le

/-- What a cut leaves depends on the trade, and not on the size that is cut. -/
theorem cut_eq (h : s.Shrunk s') (z : Decimal) (limit : SizeLimit) :
    s'.cut z limit = s.cut z limit := by
  obtain ⟨⟨hentry, hstop, hdistance, -⟩, hdirection⟩ := h
  cases s
  cases s'
  cases hentry
  cases hstop
  cases hdistance
  cases hdirection
  simp only [cut, withSize, bind_assoc, pure_bind]

end Shrunk

/-- A size that has been set is set again to the same. -/
theorem withSize_again (h : s.withSize z = .ok s') :
    (s'.size.toRat ≤ s.size.toRat → s.Shrunk s') ∧ s'.withSize z = .ok s' := by
  simp only [withSize, bind_eq_ok, pure_eq_ok] at h
  obtain ⟨value, hvalue, risk, hrisk, rfl⟩ := h
  refine ⟨fun hle => ⟨⟨rfl, rfl, rfl, hle⟩, rfl⟩, ?_⟩
  simp only [withSize, bind_eq_ok]
  exact ⟨value, hvalue, risk, hrisk, rfl⟩

/-- A cut leaves a trade with the size that it is cut to, if that is not negative. -/
theorem valued_of_cut (h : s.cut z limit = .ok s') :
    s'.Valued ∧ (s'.size.toRat ≤ s.size.toRat → s.Shrunk s') ∧ s'.size.toRat = max z.toRat 0 := by
  simp only [cut, withSize, bind_eq_ok, pure_eq_ok] at h
  obtain ⟨-, ⟨value, hvalue, risk, hrisk, rfl⟩, rfl⟩ := h
  have hsize : (z.max 0).toRat = max z.toRat 0 := by rw [Decimal.toRat_max, Decimal.toRat_zero]
  exact ⟨⟨hsize ▸ le_max_right _ _, hvalue, hrisk⟩, fun hle => ⟨⟨rfl, rfl, rfl, hle⟩, rfl⟩, hsize⟩

end Sizing

namespace RiskSettings

open Sizing

/-! ## One cap -/

/-- The setting of a cap. -/
def setting (limits : RiskSettings) : SizeLimit → Decimal
  | .positionSize => limits.maxPositionSize
  | .positionValue => limits.maxPositionValue
  | .riskPerTrade => limits.maxRiskPerTrade
  | .leverage => limits.maxLeverage

/-- The most that a cap allows: its setting, which for all but one is a fraction or a multiple of
equity. -/
def allowed (limits : RiskSettings) (equity : Decimal) (limit : SizeLimit) : Calc Decimal :=
  match limit with
  | .positionValue => return limits.maxPositionValue
  | _ => equity.mul (limits.setting limit)

theorem allowed_nonneg (hsetting : 0 ≤ limits.setting limit) (hequity : 0 < equity)
    (h : limits.allowed equity limit = .ok most) : 0 ≤ most.toRat := by
  have hsetting := Decimal.nonneg_iff.mp hsetting
  cases limit with
  | positionValue =>
    obtain rfl := pure_eq_ok.mp h
    exact hsetting
  | _ => exact (faithful_mul h).nonneg (mul_nonneg (Decimal.pos_iff.mp hequity).le hsetting)

/-- Cuts the size where an amount is more than its cap allows. -/
def cap (limits : RiskSettings) (equity : Decimal) (s : Sizing) (limit : SizeLimit) :
    Calc Sizing := do
  let most ← limits.allowed equity limit
  if limit.Applies s ∧ most < limit.amount s then s.cut (← most.div (limit.price s)) limit
  else return s

theorem cap_of_not_lt (hmost : limits.allowed equity limit = .ok most)
    (h : ¬ (limit.Applies s ∧ most < limit.amount s)) : limits.cap equity s limit = .ok s := by
  rw [cap, hmost, ok_bind, if_neg h]
  rfl

theorem cap_of_lt (hmost : limits.allowed equity limit = .ok most) (happlies : limit.Applies s)
    (hlt : most < limit.amount s) (hz : most.div (limit.price s) = .ok z) :
    limits.cap equity s limit = s.cut z limit := by
  rw [cap, hmost, ok_bind, if_pos ⟨happlies, hlt⟩, hz, ok_bind]

theorem cap_eq_ok (h : limits.cap equity s limit = .ok s') :
    ∃ most, limits.allowed equity limit = .ok most ∧
      (¬ (limit.Applies s ∧ most < limit.amount s) ∧ s' = s ∨
        limit.Applies s ∧ most < limit.amount s ∧
          ∃ z, most.div (limit.price s) = .ok z ∧ s.cut z limit = .ok s') := by
  obtain ⟨most, hmost, h⟩ := bind_eq_ok.mp h
  refine ⟨most, hmost, ?_⟩
  split at h
  · next hlt => exact .inr ⟨hlt.1, hlt.2, bind_eq_ok.mp h⟩
  · next hlt => exact .inl ⟨hlt, (pure_eq_ok.mp h).symm⟩

/-- The caps are applied one after the other. -/
theorem applyLimits_eq_foldlM (hequity : 0 < equity) (hentry : 0 < s.entryPrice) :
    limits.applyLimits s equity = SizeLimit.inOrder.foldlM (limits.cap equity) s := by
  have hpositive : ¬ (equity ≤ 0 ∨ s.entryPrice ≤ 0) := by
    rw [not_or, Decimal.not_le_iff, Decimal.not_le_iff]
    exact ⟨hequity, hentry⟩
  -- only the cap on what is lost at the stop asks for more than its amount
  have hcaps (s : Sizing) : limits.cap equity s .positionSize = limits.capPositionSize equity s ∧
      limits.cap equity s .positionValue = limits.capPositionValue s ∧
      limits.cap equity s .riskPerTrade = limits.capRiskPerTrade equity s ∧
      limits.cap equity s .leverage = limits.capLeverage equity s := by
    simp [cap, allowed, setting, SizeLimit.Applies, SizeLimit.amount, SizeLimit.price,
      capPositionSize, capPositionValue, capRiskPerTrade, capLeverage]
  simp only [applyLimits, if_neg hpositive, SizeLimit.inOrder, List.foldlM_cons, List.foldlM_nil,
    (hcaps _).1, (hcaps _).2.1, (hcaps _).2.2.1, (hcaps _).2.2.2, bind_pure]

/-- A cap does not raise the size: that is not negative, or no cap is. -/
def Lowers (limits : RiskSettings) (equity : Decimal) (s : Sizing) : Prop :=
  0 ≤ s.size.toRat ∨ ∀ limit most, limits.allowed equity limit = .ok most → 0 ≤ most.toRat

/-- The quotient of a cap that is exceeded is not greater than the size. -/
theorem Lowers.quotient_le (hlowers : limits.Lowers equity s) (hs : s.Derived)
    (hentry : 0 < s.entryPrice) (hmost : limits.allowed equity limit = .ok most)
    (happlies : limit.Applies s) (hlt : most < limit.amount s)
    (hz : most.div (limit.price s) = .ok z) : max z.toRat 0 ≤ s.size.toRat := by
  obtain ⟨v, hv, hamount⟩ := hs.amount limit
  have hprice := happlies.price_pos hentry
  have hlt : most < v := by rwa [Decimal.lt_iff, ← hamount, ← Decimal.lt_iff]
  have hle := div_le_size hv hlt hprice hz
  refine max_le hle ?_
  rcases hlowers with hsize | hnonneg
  · exact hsize
  · have hprice := Decimal.pos_iff.mp hprice
    exact ((faithful_div hz).nonneg (div_nonneg (hnonneg limit most hmost) hprice.le)).trans hle

/-- A cap leaves a size or makes it smaller. -/
theorem Lowers.cap (hlowers : limits.Lowers equity s) (hs : s.Derived)
    (hentry : 0 < s.entryPrice) (h : limits.cap equity s limit = .ok s') :
    s.Shrunk s' ∧ s'.Derived ∧ limits.Lowers equity s' := by
  obtain ⟨most, hmost, ⟨-, rfl⟩ | ⟨happlies, hlt, z, hz, h⟩⟩ := cap_eq_ok h
  · exact ⟨.refl s', hs, hlowers⟩
  · obtain ⟨hvalued, htrade, hsize⟩ := valued_of_cut h
    have hle := hlowers.quotient_le hs hentry hmost happlies hlt hz
    exact ⟨htrade (hsize ▸ hle), hvalued.derived, .inl hvalued.size_nonneg⟩

/-- A cap that has been applied is kept, or the size is its quotient. -/
def Kept (limits : RiskSettings) (equity : Decimal) (limit : SizeLimit) (s : Sizing) : Prop :=
  ∃ most, limits.allowed equity limit = .ok most ∧ (limit.Applies s →
    limit.amount s ≤ most ∨
      ∃ z, most.div (limit.price s) = .ok z ∧ s.size.toRat = max z.toRat 0)

theorem kept_of_cap (hlowers : limits.Lowers equity s) (hs : s.Derived)
    (hentry : 0 < s.entryPrice) (h : limits.cap equity s limit = .ok s') :
    limits.Kept equity limit s' := by
  obtain ⟨hshrunk, -⟩ := hlowers.cap hs hentry h
  obtain ⟨most, hmost, ⟨hle, rfl⟩ | ⟨-, -, z, hz, h⟩⟩ := cap_eq_ok h
  · refine ⟨most, hmost, fun happlies => .inl ?_⟩
    exact Decimal.not_lt_iff.mp fun hlt => hle ⟨happlies, hlt⟩
  · obtain ⟨-, -, hsize⟩ := valued_of_cut h
    refine ⟨most, hmost, fun _ => .inr ⟨z, ?_, hsize⟩⟩
    rwa [hshrunk.price_eq]

/-- What a cap has left may be made smaller. -/
theorem Kept.of_shrunk (h : limits.Kept equity limit s) (hshrunk : s.Shrunk s') (hs : s.Derived)
    (hs' : s'.Derived) (hlowers : limits.Lowers equity s') (hentry : 0 < s.entryPrice) :
    limits.Kept equity limit s' := by
  obtain ⟨most, hmost, h⟩ := h
  refine ⟨most, hmost, fun happlies => ?_⟩
  have happlies' := hshrunk.applies_iff.mp happlies
  by_cases hlt : most < limit.amount s'
  · right
    rcases h happlies' with hle | ⟨z, hz, hsize⟩
    · -- the amount was within the cap, and has become smaller
      have := hshrunk.amount_le hs hs' (happlies'.price_pos hentry)
      rw [Decimal.le_iff] at hle this
      exact absurd (Decimal.lt_iff.mp hlt) (not_lt.mpr (this.trans hle))
    · -- a size for which the amount is more than the cap is not less than the quotient
      rw [← hshrunk.price_eq] at hz
      have hle := hlowers.quotient_le hs' (hshrunk.entryPrice_pos hentry) hmost happlies hlt hz
      exact ⟨z, hz, le_antisymm (hsize ▸ hshrunk.size_le) hle⟩
  · exact .inl (Decimal.not_lt_iff.mp hlt)

/-- A cap leaves what later caps have left of its size, or cuts it as it has cut the size before. -/
theorem cap_again (hlowers : limits.Lowers equity s) (hs : s.Derived)
    (hentry : 0 < s.entryPrice) (h : limits.cap equity s limit = .ok s') (hl : l.Derived)
    (hshrunk : s'.Shrunk l) :
    limits.cap equity l limit = .ok l ∨ limits.cap equity l limit = .ok s' := by
  have hshrunk := (hlowers.cap hs hentry h).1.trans hshrunk
  obtain ⟨most, hmost, ⟨hle, -⟩ | ⟨happlies, -, z, hz, h⟩⟩ := cap_eq_ok h
  · -- the amount was within the cap, and has become smaller
    refine .inl (cap_of_not_lt hmost fun ⟨happlies, hlt⟩ => ?_)
    have happlies := hshrunk.applies_iff.mp happlies
    have hamount := hshrunk.amount_le hs hl (happlies.price_pos hentry)
    refine hle ⟨happlies, ?_⟩
    rw [Decimal.lt_iff] at hlt ⊢
    exact hlt.trans_le (Decimal.le_iff.mp hamount)
  · by_cases hlt : most < limit.amount l
    · -- the trade is the same, so the cap and the price give the same quotient
      rw [← hshrunk.price_eq] at hz
      rw [cap_of_lt hmost (hshrunk.applies_iff.mpr happlies) hlt hz, hshrunk.cut_eq]
      exact .inr h
    · exact .inl (cap_of_not_lt hmost fun h => hlt h.2)

/-! ## All caps -/

/-- Caps leave a size or make it smaller. -/
theorem Lowers.foldlM_cap (hlowers : limits.Lowers equity s) (hs : s.Derived)
    (hentry : 0 < s.entryPrice) (h : caps.foldlM (limits.cap equity) s = .ok l) :
    s.Shrunk l ∧ l.Derived ∧ limits.Lowers equity l := by
  induction caps generalizing s with
  | nil =>
    obtain rfl := pure_eq_ok.mp h
    exact ⟨.refl s, hs, hlowers⟩
  | cons limit caps ih =>
    obtain ⟨s', hcap, h⟩ := bind_eq_ok.mp h
    obtain ⟨hshrunk, hs', hlowers'⟩ := hlowers.cap hs hentry hcap
    obtain ⟨hrest, hl⟩ := ih hlowers' hs' (hshrunk.entryPrice_pos hentry) h
    exact ⟨hshrunk.trans hrest, hl⟩

/-- All caps that have been applied are kept, or the size is their quotient. -/
theorem kept_of_foldlM (hlowers : limits.Lowers equity s) (hs : s.Derived)
    (hentry : 0 < s.entryPrice) (h : caps.foldlM (limits.cap equity) s = .ok l) :
    ∀ limit ∈ caps, limits.Kept equity limit l := by
  induction caps generalizing s with
  | nil => exact nofun
  | cons limit caps ih =>
    obtain ⟨s', hcap, h⟩ := bind_eq_ok.mp h
    obtain ⟨hshrunk, hs', hlowers'⟩ := hlowers.cap hs hentry hcap
    have hentry' := hshrunk.entryPrice_pos hentry
    obtain ⟨hrest, hl, hlowersl⟩ := hlowers'.foldlM_cap hs' hentry' h
    refine List.forall_mem_cons.mpr ⟨?_, ih hlowers' hs' hentry' h⟩
    -- the caps that follow the first one only make its amount smaller
    exact (kept_of_cap hlowers hs hentry hcap).of_shrunk hrest hs' hl hlowersl hentry'

/-- Caps leave what they have left. -/
theorem foldlM_cap_again (hlowers : limits.Lowers equity s) (hs : s.Derived)
    (hentry : 0 < s.entryPrice) (h : caps.foldlM (limits.cap equity) s = .ok l) :
    caps.foldlM (limits.cap equity) l = .ok l := by
  induction caps generalizing s with
  | nil => rfl
  | cons limit caps ih =>
    obtain ⟨s', hcap, h⟩ := bind_eq_ok.mp h
    obtain ⟨hshrunk, hs', hlowers'⟩ := hlowers.cap hs hentry hcap
    have hentry' := hshrunk.entryPrice_pos hentry
    obtain ⟨hrest, hl, -⟩ := hlowers'.foldlM_cap hs' hentry' h
    -- the first cap leaves the size, or sets it back to what it was before the other caps
    rw [List.foldlM_cons]
    rcases cap_again hlowers hs hentry hcap hl hrest with hagain | hagain <;>
      rw [hagain, ok_bind]
    · exact ih hlowers' hs' hentry' h
    · exact h

/-- The caps never raise a size that is not negative, and leave the trade as it is.  What they have
left they leave: applying them again succeeds and changes nothing. -/
theorem applyLimits_idempotent (hsize : 0 ≤ s.size) (hs : s.Derived)
    (h : limits.applyLimits s equity = .ok l) :
    s.Shrunk l ∧ limits.applyLimits l equity = .ok l := by
  by_cases hpositive : equity ≤ 0 ∨ s.entryPrice ≤ 0
  · -- nothing is left
    rw [applyLimits, if_pos hpositive] at h
    obtain ⟨-, hentry, -, -, hzero⟩ := withSize_eq_ok h
    obtain ⟨hshrunk, hagain⟩ := withSize_again h
    rw [Decimal.toRat_zero, max_self] at hzero
    refine ⟨hshrunk (hzero ▸ Decimal.nonneg_iff.mp hsize), ?_⟩
    rwa [applyLimits, if_pos (hentry ▸ hpositive)]
  · rw [not_or, Decimal.not_le_iff, Decimal.not_le_iff] at hpositive
    obtain ⟨hequity, hentry⟩ := hpositive
    have hlowers : limits.Lowers equity s := .inl (Decimal.nonneg_iff.mp hsize)
    rw [applyLimits_eq_foldlM hequity hentry] at h
    obtain ⟨hshrunk, -⟩ := hlowers.foldlM_cap hs hentry h
    refine ⟨hshrunk, ?_⟩
    rw [applyLimits_eq_foldlM hequity (hshrunk.entryPrice_pos hentry)]
    exact foldlM_cap_again hlowers hs hentry h

/-- Ten units of a trade that is entered at 3. -/
def tenUnits : Sizing :=
  ⟨.long, .lit 10 0, .lit 3 0, .lit 2 0, .lit 1 0, .lit 30 0, .lit 10 0, none⟩

/-- The trade with its value cut to 5.  A third of that is rounded up, so the value is more. -/
def cutUnits : Sizing :=
  ⟨.long, .lit 16666666666666666666666666667 28, .lit 3 0, .lit 2 0, .lit 1 0,
    .lit 50000000000000000000000000001 28, .lit 16666666666666666666666666667 28,
    some .positionValue⟩

/-- Settings that allow a value of 5. -/
def fiveAtMost : RiskSettings := { maxPositionValue := .lit 5 0 }

theorem derived_tenUnits : tenUnits.Derived :=
  ⟨⟨.lit 30 0, by decide +kernel⟩, ⟨.lit 10 0, by decide +kernel⟩⟩

theorem applyLimits_tenUnits :
    fiveAtMost.applyLimits tenUnits (.lit 100000 0) = .ok cutUnits := by decide +kernel

/-- A value that rounding has taken above its cap is cut again, to the same. -/
theorem applyLimits_idempotent_third :
    0 ≤ tenUnits.size ∧ tenUnits.Derived ∧
      fiveAtMost.applyLimits tenUnits (.lit 100000 0) = .ok cutUnits ∧
      tenUnits.Shrunk cutUnits ∧
      fiveAtMost.applyLimits cutUnits (.lit 100000 0) = .ok cutUnits :=
  have hsize : 0 ≤ tenUnits.size := by decide +kernel
  ⟨hsize, derived_tenUnits, applyLimits_tenUnits,
    applyLimits_idempotent hsize derived_tenUnits applyLimits_tenUnits⟩

/-! ## Amounts and their caps -/

/-- An amount is more than its cap allows only by a rounding error: where the size is the quotient
of the cap by the price, and that was rounded up. -/
theorem applyLimits_amount_le (hequity : 0 < equity) (hentry : 0 < s.entryPrice)
    (hsettings : ∀ limit, 0 ≤ limits.setting limit) (hs : s.Derived)
    (h : limits.applyLimits s equity = .ok l) (happlies : limit.Applies l) :
    ∃ most, limits.allowed equity limit = .ok most ∧
      (limit.amount l ≤ most ∨ ∃ z, most.div (limit.price l) = .ok z ∧ l.size.SameValue z ∧
        most.toRat / (limit.price l).toRat < z.toRat ∧
        (limit.amount l).toRat ≤
          most.toRat + (1 + 2 * (limit.price l).toRat + 3 * most.toRat) / 10 ^ 28) := by
  have hnonneg limit most (hmost : limits.allowed equity limit = .ok most) : 0 ≤ most.toRat :=
    allowed_nonneg (hsettings limit) hequity hmost
  rw [applyLimits_eq_foldlM hequity hentry] at h
  obtain ⟨hshrunk, hl, -⟩ := Lowers.foldlM_cap (.inr hnonneg) hs hentry h
  obtain ⟨most, hmost, hkept⟩ :=
    kept_of_foldlM (.inr hnonneg) hs hentry h limit limit.mem_inOrder
  have hprice := happlies.price_pos (hshrunk.entryPrice_pos hentry)
  refine ⟨most, hmost, or_iff_not_imp_left.mpr fun hexceeds => ?_⟩
  obtain ⟨z, hz, hsize⟩ := (hkept happlies).resolve_left hexceeds
  rw [max_eq_left ((faithful_div hz).nonneg
    (div_nonneg (hnonneg limit most hmost) (Decimal.pos_iff.mp hprice).le))] at hsize
  refine ⟨z, hz, Decimal.sameValue_iff.mpr hsize, ?_,
    hl.amount_le_add hprice (hnonneg limit most hmost) hz hsize⟩
  by_contra hdown
  exact hexceeds (hl.amount_le hprice (hsize.trans_le (not_lt.mp hdown)))

theorem setting_nonneg_fiveAtMost (limit : SizeLimit) : 0 ≤ fiveAtMost.setting limit := by
  cases limit <;> decide +kernel

/-- The value that is cut to 5 has the rounded quotient of 5 by the price as its size. -/
theorem applyLimits_amount_le_third :
    0 < (Decimal.lit 100000 0) ∧ 0 < tenUnits.entryPrice ∧
      (∀ limit, 0 ≤ fiveAtMost.setting limit) ∧ tenUnits.Derived ∧
      fiveAtMost.applyLimits tenUnits (.lit 100000 0) = .ok cutUnits ∧
      SizeLimit.positionValue.Applies cutUnits ∧
      ∃ z, (Decimal.lit 5 0).div (.lit 3 0) = .ok z ∧ cutUnits.size.SameValue z ∧
        5 / 3 < z.toRat := by
  have hequity : 0 < (Decimal.lit 100000 0) := by decide +kernel
  have hentry : 0 < tenUnits.entryPrice := by decide +kernel
  have happlies : SizeLimit.positionValue.Applies cutUnits := nofun
  refine ⟨hequity, hentry, setting_nonneg_fiveAtMost, derived_tenUnits, applyLimits_tenUnits,
    happlies, ?_⟩
  obtain ⟨most, hmost, hle | ⟨z, hz, hsize, hup, -⟩⟩ := applyLimits_amount_le hequity hentry
    setting_nonneg_fiveAtMost derived_tenUnits applyLimits_tenUnits happlies
  all_goals obtain rfl := pure_eq_ok.mp hmost
  · exact absurd hle (by decide +kernel)
  · refine ⟨z, hz, hsize, ?_⟩
    have hfive : fiveAtMost.maxPositionValue.toRat = 5 := by decide +kernel
    have hthree : (SizeLimit.positionValue.price cutUnits).toRat = 3 := by decide +kernel
    rwa [hfive, hthree] at hup

/-- The caps leave a value that is more than the value they allow. -/
theorem applyLimits_exceeds_cap :
    0 < (Decimal.lit 100000 0) ∧ 0 < tenUnits.entryPrice ∧
      (∀ limit, 0 ≤ fiveAtMost.setting limit) ∧ tenUnits.Valued ∧
      fiveAtMost.applyLimits tenUnits (.lit 100000 0) = .ok cutUnits ∧
      fiveAtMost.maxPositionValue < cutUnits.value :=
  ⟨by decide +kernel, by decide +kernel, setting_nonneg_fiveAtMost,
    ⟨by decide +kernel, by decide +kernel, by decide +kernel⟩, applyLimits_tenUnits,
    by decide +kernel⟩

end RiskSettings

end SimBroker
