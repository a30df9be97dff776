import SimBroker.Proofs.Calc
import SimBroker.Proofs.Decimal.Division

/-!
# Divisions by zero

A calculation stops at the first division by zero.  It has none if its parts have none, and the
parts are sums, differences, products, and quotients by what is not zero.

## Main definitions

* `Calc.DividesSafely`: a calculation does not stop at a division by zero

## Main results

* `Calc.DividesSafely.bind`, `Calc.DividesSafely.bind_eq_error`: a calculation in parts
* `Decimal.div_eq_error_iff`: a quotient stops there exactly if its divisor is zero
* `Decimal.le_of_isZero_div`: which quotients are rounded to zero
-/

namespace SimBroker

/-! ## Calculations that do not divide by zero -/

namespace Calc

variable {α β : Type}

theorem ite_pure_eq_error {c : Prop} [Decidable c] {a : α} {x : Calc α} {e : ArithmeticFault} :
    (if c then pure a else x) = .error e ↔ ¬ c ∧ x = .error e := by
  split
  · next h => exact iff_of_false nofun fun hnot => hnot.1 h
  · next h => exact (and_iff_right h).symm

/-- The fault that a calculation stops at. -/
def fault? : Calc α → Option ArithmeticFault
  | .ok _ => none
  | .error e => some e

theorem fault?_eq_some {x : Calc α} {e : ArithmeticFault} : fault? x = some e ↔ x = .error e := by
  cases x with
  | ok a => exact iff_of_false nofun nofun
  | error e' => rw [fault?, Option.some.injEq, Except.error.injEq]

/-- A calculation does not stop at a division by zero. -/
structure DividesSafely (x : Calc α) : Prop where
  ne_error : x ≠ .error .divisionByZero

namespace DividesSafely

variable {x : Calc α} {f : α → Calc β}

theorem ok (a : α) : DividesSafely (.ok a) := ⟨nofun⟩

theorem pure (a : α) : DividesSafely (Pure.pure a) := ⟨nofun⟩

/-- The rest of a calculation only has to be safe for what the first part comes to. -/
theorem bind_of_eq_ok (hx : x.DividesSafely) (hf : ∀ a, x = .ok a → (f a).DividesSafely) :
    (x >>= f).DividesSafely where
  ne_error h := by
    rcases Calc.bind_eq_error.mp h with h | ⟨a, ha, h⟩
    · exact hx.ne_error h
    · exact (hf a ha).ne_error h

theorem bind (hx : x.DividesSafely) (hf : ∀ a, (f a).DividesSafely) :
    (x >>= f).DividesSafely := hx.bind_of_eq_ok fun a _ => hf a

/-- After a part that does not divide by zero, it is the rest that does. -/
theorem bind_eq_error (hx : x.DividesSafely) :
    (x >>= f) = .error .divisionByZero ↔ ∃ a, x = .ok a ∧ f a = .error .divisionByZero := by
  rw [Calc.bind_eq_error, or_iff_right hx.ne_error]

/-- Before a part that does not divide by zero, it is the first that does. -/
theorem bind_eq_error_left (hf : ∀ a, (f a).DividesSafely) :
    (x >>= f) = .error .divisionByZero ↔ x = .error .divisionByZero := by
  rw [Calc.bind_eq_error, or_iff_left]
  rintro ⟨a, -, h⟩
  exact (hf a).ne_error h

/-- The divisors of a fold are not zero if an invariant of its steps says so. -/
theorem foldlM {f : β → α → Calc β} {P : β → Prop}
    (hf : ∀ b a, P b → (f b a).DividesSafely ∧ ∀ b', f b a = .ok b' → P b') {b : β} (hb : P b)
    (xs : List α) : DividesSafely (xs.foldlM f b) := by
  induction xs generalizing b with
  | nil => exact pure b
  | cons x xs ih =>
    obtain ⟨hstep, hinvariant⟩ := hf b x hb
    refine ⟨fun h => ?_⟩
    obtain ⟨b', hb', h⟩ := hstep.bind_eq_error.mp h
    exact (ih (hinvariant b' hb')).ne_error h

end DividesSafely

end Calc

open Calc (DividesSafely)

namespace Decimal

variable {a b : Decimal}

theorem dividesSafely_orFault {fault : ArithmeticFault} (h : fault ≠ .divisionByZero)
    (o : Option Decimal) : (orFault fault o).DividesSafely := by
  cases o with
  | some a => exact .ok a
  | none => exact ⟨fun heq => h (Except.error.inj heq)⟩

theorem dividesSafely_add (a b : Decimal) : (a.add b).DividesSafely := by
  unfold add
  split
  · exact .ok b
  · split
    · exact .ok a
    · exact dividesSafely_orFault (by decide) _

theorem dividesSafely_sub (a b : Decimal) : (a.sub b).DividesSafely := by
  unfold sub
  split
  · exact .ok _
  · split
    · exact .ok a
    · exact dividesSafely_orFault (by decide) _

theorem dividesSafely_mul (a b : Decimal) : (a.mul b).DividesSafely := by
  unfold mul
  split
  · exact .ok 0
  · split
    · exact .ok 0
    · exact dividesSafely_orFault (by decide) _

theorem div_eq_error_iff : a.div b = .error .divisionByZero ↔ b.isZero = true := by
  unfold div
  split
  · next h => exact iff_of_true rfl h
  · next h =>
    refine iff_of_false ?_ h
    split
    · exact nofun
    · exact (dividesSafely_orFault (by decide) _).ne_error

theorem dividesSafely_div (h : ¬ b.isZero = true) : (a.div b).DividesSafely :=
  ⟨mt div_eq_error_iff.mp h⟩

theorem dividesSafely_div_of_pos (h : 0 < b) : (a.div b).DividesSafely :=
  dividesSafely_div fun hzero => (pos_iff.mp h).ne' (isZero_iff.mp hzero)

theorem dividesSafely_div_of_not_le (h : ¬ b ≤ 0) : (a.div b).DividesSafely :=
  dividesSafely_div_of_pos (not_le_iff.mp h)

theorem dividesSafely_floor (a : Decimal) : a.floor.DividesSafely := by
  unfold floor
  split
  · exact dividesSafely_sub ..
  · exact .ok _

theorem dividesSafely_total (xs : List Decimal) : (total xs).DividesSafely :=
  .foldlM (P := fun _ => True) (fun a b _ => ⟨dividesSafely_add a b, fun _ _ => trivial⟩) trivial xs

/-- A quotient that is rounded to zero is half of the last place at most. -/
theorem le_of_isZero_div {c : Decimal} (h : a.div b = .ok c) (hc : c.isZero = true) (ha : 0 < a)
    (hb : 0 < b.toRat) : 2 * 10 ^ 28 * a.toRat ≤ b.toRat := by
  obtain ⟨s, n, hn, hcn⟩ := nearest_div h
  have hx : 0 < a.toRat / b.toRat := div_pos (pos_iff.mp ha) hb
  have hn0 : (n : ℚ) = 0 := by
    rw [isZero_iff.mp hc, eq_comm, div_eq_zero_iff] at hcn
    exact hcn.resolve_right (ten_pow_pos s).ne'
  obtain ⟨-, hhalf, hfull⟩ := hn
  rw [hn0] at hfull
  rw [hn0, sub_zero, abs_of_pos (mul_pos hx (ten_pow_pos s))] at hhalf
  -- there are all places, because neither is the quotient zero nor does it fill the format
  have hs : s = 28 := by
    rcases hfull with hzero | hs | hfull
    · exact absurd hzero (mul_pos hx (ten_pow_pos s)).ne'
    · exact hs
    · rw [abs_of_pos hx, pow_succ, coefficientBound_cast] at hfull
      linarith
  rw [hs, div_mul_eq_mul_div, div_le_iff₀ hb] at hhalf
  linarith

end Decimal

end SimBroker
