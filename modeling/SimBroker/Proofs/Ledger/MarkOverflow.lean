import SimBroker.Proofs.Decimal.Divisors
import SimBroker.Proofs.Decimal.Overflow
import SimBroker.Proofs.Ledger.Marks

/-!
# Marks that overflow

A price marks the position of its symbol with a profit and with what part of the entry value that
is, in percent.  The percentage is asked for unless the entry value is zero, and is not bounded by
what the profit and the entry value are: a position that was entered at next to nothing has a
percentage beyond the format at an ordinary price.  Then the quotient overflows, or the product with
one hundred, and it depends on the profit and on the entry value alone whether one of them does.
This takes a price of more than `3 * 10 ^ 26` times the entry price.

## Main definitions

* `Ledger.Ticks`: a price is recorded without a fault

## Main results

* `Position.percentOf_eq_error_iff`: when a percentage overflows, and where
* `Position.fits_percent`: up to which price it does not
* `Ledger.mark_overflows_iff`: when a price that marks a position overflows, along every run
* `Ledger.mark_overflows`: prices that do
-/

namespace SimBroker

open Calc (bind_eq_error bind_eq_ok pure_eq_ok)
open Decimal (Fits)

theorem PositionSide.abs_toRat_sign (side : PositionSide) : |side.sign.toRat| = 1 := by
  cases side <;> decide +kernel

namespace Position

variable {p p' : Position} {price pnl basis : Decimal} {now : Instant} {e : ArithmeticFault}

/-! ## Percentages -/

/-- A percentage overflows if it is beyond the range of the format, already at the quotient if that
is, and else where it is multiplied. -/
theorem percentOf_eq_error_iff : percentOf pnl basis = .error e ↔
    ¬ basis.isZero = true ∧ ((¬ Fits (pnl.toRat / basis.toRat) ∧ e = .divisionOverflow) ∨
      Fits (pnl.toRat / basis.toRat) ∧ ¬ Fits (pnl.toRat / basis.toRat * 10 ^ 2) ∧
        e = .multiplicationOverflow) := by
  unfold percentOf
  split
  · next hzero => exact iff_of_false nofun fun h => h.1 hzero
  next hnot =>
  rw [bind_eq_error, Decimal.div_eq_error_iff_not_fits hnot, and_iff_right hnot]
  refine or_congr_right ?_
  constructor
  · rintro ⟨ratio, hratio, hmul⟩
    -- rounding the quotient does not decide whether one hundred times of it is too great
    have hround := Decimal.rounded_div hratio
    rw [Decimal.mul_eq_error_iff, Decimal.toRat_hundred,
      hround.fits_mul_pow_iff (by decide)] at hmul
    exact ⟨hround.fits, hmul⟩
  · rintro ⟨hfits, hmul⟩
    obtain ⟨ratio, hratio⟩ := Decimal.exists_div_of_fits hnot hfits
    refine ⟨ratio, hratio, ?_⟩
    rwa [Decimal.mul_eq_error_iff, Decimal.toRat_hundred,
      (Decimal.rounded_div hratio).fits_mul_pow_iff (by decide)]

/-- A percentage is calculated exactly if it is not asked for or within the range of the format. -/
theorem exists_percentOf_iff : (∃ pct, percentOf pnl basis = .ok pct) ↔
    basis.isZero = true ∨ Fits (pnl.toRat / basis.toRat * 10 ^ 2) := by
  rw [Calc.exists_ok_iff]
  constructor
  · intro h
    by_contra hnot
    obtain ⟨hnot, hpercent⟩ := not_or.mp hnot
    by_cases hratio : Fits (pnl.toRat / basis.toRat)
    · exact h _ (percentOf_eq_error_iff.mpr ⟨hnot, .inr ⟨hratio, hpercent, rfl⟩⟩)
    · exact h _ (percentOf_eq_error_iff.mpr ⟨hnot, .inl ⟨hratio, rfl⟩⟩)
  · intro h e he
    obtain ⟨hnot, ⟨hratio, -⟩ | ⟨-, hpercent, -⟩⟩ := percentOf_eq_error_iff.mp he
    · refine hratio ((h.resolve_left hnot).of_abs_le ?_)
      rw [abs_mul]
      exact le_mul_of_one_le_right (abs_nonneg _) (by norm_num)
    · exact hpercent (h.resolve_left hnot)

/-- A mark fails where its percentage does. -/
theorem mark_eq_error_iff (hpnl : p.pnlAt price = .ok pnl)
    (hbasis : p.entryPrice.mul p.quantity = .ok basis) :
    p.mark price now = .error e ↔ percentOf pnl basis = .error e := by
  rw [mark, hpnl, Calc.ok_bind, hbasis, Calc.ok_bind, Calc.bind_pure_eq_error]

/-- A price of up to `3 * 10 ^ 26` times the entry price leads to no percentage that is beyond the
range of the format. -/
theorem fits_percent (hprice : 0 < price) (hpnl : p.pnlAt price = .ok pnl)
    (hbasis : p.entryPrice.mul p.quantity = .ok basis) (hnot : ¬ basis.isZero = true)
    (hle : price.toRat ≤ 3 * 10 ^ 26 * |p.entryPrice.toRat|) :
    Fits (pnl.toRat / basis.toRat * 10 ^ 2) := by
  simp only [pnlAt, gain, bind_eq_ok] at hpnl
  obtain ⟨difference, hdifference, product, hproduct, hsigned⟩ := hpnl
  have hunit := Decimal.le_abs_toRat hnot
  have hdifference : |difference.toRat| ≤
      (3 * 10 ^ 26 + 1) * (1 + 1 / 10 ^ 28) * |p.entryPrice.toRat| := by
    have herror := (Decimal.nearest_sub hdifference).abs_sub_le_of_whole (Decimal.whole_sub ..)
    have hgrown := abs_sub_abs_le_abs_sub difference.toRat (price.toRat - p.entryPrice.toRat)
    have hsub := abs_sub price.toRat p.entryPrice.toRat
    rw [abs_of_pos (Decimal.pos_iff.mp hprice)] at hsub
    linarith
  -- the products are rounded with an error of one unit at most, and an entry value is one at least
  have hbasis := (Decimal.nearest_mul hbasis).abs_le_abs_toRat
  have hproduct := (Decimal.nearest_mul hproduct).abs_toRat_le
  have hsigned := (Decimal.nearest_mul hsigned).abs_toRat_le
  rw [abs_mul] at hbasis hproduct
  rw [abs_mul, PositionSide.abs_toRat_sign, mul_one] at hsigned
  have hscaled := mul_le_mul_of_nonneg_right hdifference (abs_nonneg p.quantity.toRat)
  have hpos : 0 < |basis.toRat| := lt_of_lt_of_le (by norm_num) hunit
  rw [Fits, abs_mul, abs_div, abs_of_pos (by norm_num : (0 : ℚ) < 10 ^ 2), div_mul_eq_mul_div,
    div_lt_iff₀ hpos, Decimal.coefficientBound_cast]
  rw [mul_assoc] at hscaled
  linarith

/-- The entry value of a marked position and its percentage can be calculated. -/
theorem Marked.percentOf_eq (h : p.Marked) : ∃ value, p.entryPrice.mul p.quantity = .ok value ∧
    percentOf p.unrealizedPnl value = .ok p.unrealizedPnlPct := by
  obtain ⟨value, hvalue, hpct⟩ := h.pct_eq
  refine ⟨value, hvalue, ?_⟩
  unfold percentOf
  split
  · next hzero =>
    rw [if_pos hzero] at hpct
    rw [hpct]
    rfl
  · next hnot =>
    rw [if_neg hnot] at hpct
    exact hpct

end Position

namespace Ledger

variable {l : Ledger} {p : Position} {symbol : String} {price : Decimal} {now : Instant}
  {e : ArithmeticFault} {ts : List Turn}

/-- The price is recorded without a fault. -/
def Ticks (l : Ledger) (symbol : String) (price : Decimal) (now : Instant) : Prop :=
  ∃ recorded, l.recordPrice symbol price now = .ok recorded

/-- A price that is recorded fails where it marks a position. -/
theorem recordPrice_eq_error_iff (hp : l.positions.get? symbol = some p) :
    l.recordPrice symbol price now = .error e ↔ 0 < price ∧ p.mark price now = .error e := by
  unfold recordPrice
  rw [← Decimal.not_le_iff]
  split
  · next hle =>
    refine iff_of_false (fun h => ?_) fun h => h.1 hle
    cases h
  · next hnot =>
    dsimp only
    rw [hp, and_iff_right hnot]
    dsimp only
    exact Calc.bind_pure_eq_error

/-- A price is recorded exactly if the percentage that it marks a position with is not asked for or
within the range of the format. -/
theorem ticks_iff (hp : l.positions.get? symbol = some p) (hprice : 0 < price)
    (hpnl : p.pnlAt price = .ok pnl) (hbasis : p.entryPrice.mul p.quantity = .ok basis) :
    l.Ticks symbol price now ↔
      basis.isZero = true ∨ Fits (pnl.toRat / basis.toRat * 10 ^ 2) := by
  rw [← Position.exists_percentOf_iff, Ticks, Calc.exists_ok_iff, Calc.exists_ok_iff]
  refine forall_congr' fun e => not_congr ?_
  rw [recordPrice_eq_error_iff hp, and_iff_right hprice, Position.mark_eq_error_iff hpnl hbasis]

/-- A price that is refused is no fault. -/
theorem ticks_of_not_pos (hp : l.positions.get? symbol = some p) (hprice : ¬ 0 < price) :
    l.Ticks symbol price now :=
  Calc.exists_ok_iff.mpr fun _ he => hprice ((recordPrice_eq_error_iff hp).mp he).1

/-- The entry value of a position that a run has led to is always calculated, and the price that the
position is marked with does no harm again.  Any other price at which the profit is calculated marks
the position, unless the profit is too great a part of an entry value that is not zero.  Then the
quotient overflows if it is beyond the range of the format itself, and else its product with one
hundred.  It takes a price of more than `3 * 10 ^ 26` times the entry price. -/
theorem mark_overflows_iff (account : AccountSettings) (firstId : Uuid) (listened : Bool)
    (h : (new account firstId listened).turns ts = .ok l)
    (hp : l.positions.get? symbol = some p) (now : Instant) :
    ∃ basis, p.entryPrice.mul p.quantity = .ok basis ∧ l.Ticks symbol p.currentPrice now ∧
      ∀ price pnl, 0 < price → p.pnlAt price = .ok pnl →
        (l.Ticks symbol price now ↔
          basis.isZero = true ∨ Fits (pnl.toRat / basis.toRat * 10 ^ 2)) ∧
        (∀ e, l.recordPrice symbol price now = .error e →
          (¬ Fits (pnl.toRat / basis.toRat) ∧ e = .divisionOverflow) ∨
            Fits (pnl.toRat / basis.toRat) ∧ e = .multiplicationOverflow) ∧
        (price.toRat ≤ 3 * 10 ^ 26 * |p.entryPrice.toRat| → l.Ticks symbol price now) := by
  have hmarked := allMarked_turns h symbol p hp
  obtain ⟨basis, hbasis, hpct⟩ := hmarked.percentOf_eq
  refine ⟨basis, hbasis, ?_, fun price pnl hprice hpnl => ⟨ticks_iff hp hprice hpnl hbasis, ?_, ?_⟩⟩
  · by_cases hprice : 0 < p.currentPrice
    · rw [ticks_iff hp hprice hmarked.pnlAt_eq hbasis]
      exact Position.exists_percentOf_iff.mp ⟨_, hpct⟩
    · exact ticks_of_not_pos hp hprice
  · intro e he
    rw [recordPrice_eq_error_iff hp, Position.mark_eq_error_iff hpnl hbasis,
      Position.percentOf_eq_error_iff] at he
    exact he.2.2.imp_right fun ⟨hfits, _, heq⟩ => ⟨hfits, heq⟩
  · intro hle
    rw [ticks_iff hp hprice hpnl hbasis, or_iff_not_imp_left]
    exact fun hnot => Position.fits_percent hprice hpnl hbasis hnot hle

/-- An account that pays neither commission nor slippage. -/
def freeAccount : AccountSettings := { commissionRate := 0, slippage := 0 }

/-- A position that a limit order has opened at the least price that there is. -/
def boughtAtUnit : List Turn :=
  [.whole (.updatePrice "A" 1 default),
    .whole (.place { OrderRequest.market "A" .buy 1 with
      orderType := .limit, limitPrice := some .unit } default)]

/-- What a price makes of a position that a run has led to: the profit, the entry value, and the
fault if there is one. -/
def marking? (ts : List Turn) (symbol : String) (price : Decimal) :
    Option (Calc Decimal × Calc Decimal × Option ArithmeticFault) :=
  ((new freeAccount default true).turns ts).toOption.bind fun l =>
    (l.positions.get? symbol).map fun p => (p.pnlAt price, p.entryPrice.mul p.quantity,
      Calc.fault? (l.recordPrice symbol price default))

theorem marking?_eq_some {fault : Option ArithmeticFault} {x y : Calc Decimal}
    (h : marking? ts symbol price = some (x, y, fault)) :
    ∃ l p, (new freeAccount default true).turns ts = .ok l ∧ l.positions.get? symbol = some p ∧
      p.pnlAt price = x ∧ p.entryPrice.mul p.quantity = y ∧
      Calc.fault? (l.recordPrice symbol price default) = fault := by
  obtain ⟨l, hrun, h⟩ := Calc.exists_eq_ok h
  obtain ⟨p, hp, h⟩ := Option.map_eq_some_iff.mp h
  simp only [Prod.mk.injEq] at h
  exact ⟨l, p, hrun, hp, h⟩

/-- Seven hundredths are almost `7 * 10 ^ 28` percent of the least price that there is, which is
just within the range of the format. -/
theorem mark_overflows_iff_unit : ∃ l p pnl,
    (new freeAccount default true).turns boughtAtUnit = .ok l ∧
    l.positions.get? "A" = some p ∧ p.entryPrice.mul p.quantity = .ok .unit ∧
    p.pnlAt (.lit 7 2) = .ok pnl ∧ Fits (pnl.toRat / Decimal.unit.toRat * 10 ^ 2) ∧
    l.Ticks "A" (.lit 7 2) default ∧ l.Ticks "A" p.currentPrice default := by
  have hmarking : marking? boughtAtUnit "A" (.lit 7 2) =
      some (.ok (.lit 699999999999999999999999999 28), .ok .unit, none) := by decide +kernel
  obtain ⟨l, p, hrun, hp, hpnl, hunit, -⟩ := marking?_eq_some hmarking
  obtain ⟨basis, hbasis, hcurrent, hticks⟩ :=
    mark_overflows_iff freeAccount default true hrun hp default
  obtain rfl := Except.ok.inj (hunit.symm.trans hbasis)
  have hfits : Fits ((Decimal.lit 699999999999999999999999999 28).toRat /
      Decimal.unit.toRat * 10 ^ 2) := by decide +kernel
  obtain ⟨hiff, -, -⟩ := hticks (.lit 7 2) _ (by decide +kernel) hpnl
  exact ⟨l, p, _, hrun, hp, hbasis, hpnl, hfits, hiff.mpr (.inr hfits), hcurrent⟩

/-- A price of one cannot be recorded for a position that was bought at the least price that there
is, although the profit and the entry value are calculated. -/
theorem mark_overflows : ({ account := freeAccount } : Settings).fault? = none ∧
    ∃ l p pnl basis, (new freeAccount default true).turns boughtAtUnit = .ok l ∧
      l.positions.get? "A" = some p ∧ (0 : Decimal) < 1 ∧ p.pnlAt 1 = .ok pnl ∧
      p.entryPrice.mul p.quantity = .ok basis ∧
      l.recordPrice "A" 1 default = .error .multiplicationOverflow := by
  have hmarking : marking? boughtAtUnit "A" 1 =
      some (.ok (.lit 9999999999999999999999999999 28), .ok .unit,
        some .multiplicationOverflow) := by decide +kernel
  obtain ⟨l, p, hrun, hp, hpnl, hbasis, hfault⟩ := marking?_eq_some hmarking
  exact ⟨by decide +kernel, l, p, _, _, hrun, hp, by decide +kernel, hpnl, hbasis,
    Calc.fault?_eq_some.mp hfault⟩

/-- At a price of ten it is the quotient that overflows. -/
example : (marking? boughtAtUnit "A" (.lit 10 0)).map (·.2.2) = some (some .divisionOverflow) := by
  decide +kernel

end Ledger

end SimBroker
