import SimBroker.Proofs.Calc
import SimBroker.Proofs.Decimal.Value

/-!
# Exact calculations

A formula is a calculation as it is written: decimals combined by the four operations.  It can be
calculated, in decimals and with their rounding, and it has a value among the numbers.  The two
agree where every operation is exact, which is a property of the formula that can be tested.

## Main definitions

* `Operator`, `Formula`: the four operations, and what is written with them
* `Formula.eval`, `Formula.toRat`: the decimal and the number that a formula stands for
* `Formula.Exact`: every operation gives the number that it should

## Main results

* `Formula.Exact.toRat_eq`: an exact calculation gives the value of the formula
-/

namespace SimBroker

/-- The four operations. -/
inductive Operator where
  | add
  | sub
  | mul
  | div

namespace Operator

/-- An operation on decimals. -/
def eval : Operator → Decimal → Decimal → Calc Decimal
  | add => Decimal.add
  | sub => Decimal.sub
  | mul => Decimal.mul
  | div => Decimal.div

/-- The operation on numbers. -/
def onRat : Operator → ℚ → ℚ → ℚ
  | add => (· + ·)
  | sub => (· - ·)
  | mul => (· * ·)
  | div => (· / ·)

end Operator

/-- Decimals combined by the four operations. -/
inductive Formula where
  | value (a : Decimal)
  | op (o : Operator) (x y : Formula)

namespace Formula

instance : Coe Decimal Formula := ⟨value⟩
instance : Add Formula := ⟨op .add⟩
instance : Sub Formula := ⟨op .sub⟩
instance : Mul Formula := ⟨op .mul⟩
instance : Div Formula := ⟨op .div⟩

/-- The calculation that a formula stands for. -/
def eval : Formula → Calc Decimal
  | value a => .ok a
  | op o x y => do o.eval (← x.eval) (← y.eval)

/-- The number that a formula stands for. -/
def toRat : Formula → ℚ
  | value a => a.toRat
  | op o x y => o.onRat x.toRat y.toRat

section Equations

variable (x y : Formula) (a : Decimal)

@[simp] theorem eval_value : (value a).eval = .ok a := rfl

@[simp] theorem eval_add : (x + y).eval = (do (← x.eval).add (← y.eval)) := rfl

@[simp] theorem eval_sub : (x - y).eval = (do (← x.eval).sub (← y.eval)) := rfl

@[simp] theorem eval_mul : (x * y).eval = (do (← x.eval).mul (← y.eval)) := rfl

@[simp] theorem eval_div : (x / y).eval = (do (← x.eval).div (← y.eval)) := rfl

@[simp] theorem toRat_value : (value a).toRat = a.toRat := rfl

@[simp] theorem toRat_add : (x + y).toRat = x.toRat + y.toRat := rfl

@[simp] theorem toRat_sub : (x - y).toRat = x.toRat - y.toRat := rfl

@[simp] theorem toRat_mul : (x * y).toRat = x.toRat * y.toRat := rfl

@[simp] theorem toRat_div : (x / y).toRat = x.toRat / y.toRat := rfl

end Equations

/-- Every operation that is calculated gives the number that it should. -/
def Exact : Formula → Prop
  | value _ => True
  | op o x y => x.Exact ∧ y.Exact ∧ x.eval.All fun a => y.eval.All fun b =>
    (o.eval a b).All fun c => c.toRat = o.onRat a.toRat b.toRat

instance decidableExact : (f : Formula) → Decidable f.Exact
  | value _ => isTrue trivial
  | op o x y =>
    have := decidableExact x
    have := decidableExact y
    inferInstanceAs (Decidable (x.Exact ∧ y.Exact ∧ x.eval.All fun a => y.eval.All fun b =>
      (o.eval a b).All fun c => c.toRat = o.onRat a.toRat b.toRat))

/-- An exact calculation gives the value of the formula. -/
theorem Exact.toRat_eq {f : Formula} {c : Decimal} (hf : f.Exact) (h : f.eval = .ok c) :
    c.toRat = f.toRat := by
  induction f generalizing c with
  | value a =>
    cases h
    rfl
  | op o x y ihx ihy =>
    obtain ⟨hx, hy, hop⟩ := hf
    rw [eval, Calc.bind_eq_ok] at h
    obtain ⟨a, ha, h⟩ := h
    rw [Calc.bind_eq_ok] at h
    obtain ⟨b, hb, h⟩ := h
    -- the operation is exact, and so are its operands by induction
    rw [hop a ha b hb c h, ihx hx ha, ihy hy hb, toRat]

/-! ## Single operations -/

variable {a b c : Decimal}

theorem Exact.add (h : (a + b : Formula).Exact) (hc : a.add b = .ok c) :
    c.toRat = a.toRat + b.toRat := h.toRat_eq hc

theorem Exact.sub (h : (a - b : Formula).Exact) (hc : a.sub b = .ok c) :
    c.toRat = a.toRat - b.toRat := h.toRat_eq hc

theorem Exact.mul (h : (a * b : Formula).Exact) (hc : a.mul b = .ok c) :
    c.toRat = a.toRat * b.toRat := h.toRat_eq hc

end Formula

end SimBroker
