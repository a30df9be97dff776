/-!
# Scaled decimals

A `Decimal` is a sign, a coefficient below `2 ^ 96` and a scale of at most 28; its value is the
coefficient over `10 ^ scale`.  The scale is part of the datum: `1.5` and `1.50` are different
decimals of one value, they print differently, and every operation says which scale its result
has.  The order is the order of the values, so `<` and `≤` do not tell such two apart.

`fit?` is the one place where a result too long for the format loses digits: it drops the fewest
places that make it fit, and rounds once, half to even.
-/

namespace SimBroker

/-- The power `10 ^ k`. -/
abbrev tenPow (k : Nat) : Nat := Nat.pow 10 k

/-- `2 ^ 96`, which every coefficient is below. -/
abbrev coefficientBound : Nat := 79228162514264337593543950336

/-- A decimal number of at most 96 bits and 28 places. -/
structure Decimal where
  /-- The sign, which a zero has too. -/
  negative : Bool
  /-- The coefficient. -/
  mantissa : Nat
  /-- The number of digits after the point. -/
  scale : Nat
  mantissa_lt : mantissa < coefficientBound
  scale_le : scale ≤ 28
  deriving DecidableEq

/-- What can go wrong in decimal arithmetic: a result has no place in the format, or a divisor is
zero. -/
inductive ArithmeticFault where
  | additionOverflow
  | subtractionOverflow
  | multiplicationOverflow
  | divisionOverflow
  | divisionByZero
  deriving DecidableEq

/-- The text of a fault. -/
def ArithmeticFault.message : ArithmeticFault → String
  | .additionOverflow => "Addition overflowed"
  | .subtractionOverflow => "Subtraction overflowed"
  | .multiplicationOverflow => "Multiplication overflowed"
  | .divisionOverflow => "Division overflowed"
  | .divisionByZero => "Division by zero"

/-- A calculation that may stop at the first fault. -/
abbrev Calc (α : Type) := Except ArithmeticFault α

/-- The quotient `n / d` rounded to the nearest integer, a half to the even neighbour. -/
def halfEven (n d : Nat) : Nat :=
  let q := n / d
  let r := n % d
  if 2 * r < d then q
  else if d < 2 * r then q + 1
  else if q % 2 = 0 then q else q + 1

namespace Decimal

/-- The decimal of these parts, if they are within the format. -/
def ofParts? (negative : Bool) (mantissa scale : Nat) : Option Decimal :=
  if h : mantissa < coefficientBound ∧ scale ≤ 28 then
    some ⟨negative, mantissa, scale, h.1, h.2⟩
  else none

/-- The decimal nearest to `m / 10 ^ s` among those of the greatest scale, at most `s`, at which
the rounded coefficient is within the format; `none` if even the integer part is too long. -/
def fit? (negative : Bool) (m s : Nat) : Option Decimal :=
  (List.range (s + 1)).findSome? fun k => ofParts? negative (halfEven m (tenPow k)) (s - k)

/-- A literal `m / 10 ^ s`, for parts within the format; beyond it they wrap around. -/
def lit (m s : Nat) : Decimal :=
  ⟨false, m % coefficientBound, s % 29, Nat.mod_lt _ (by decide),
    Nat.le_of_lt_succ (Nat.mod_lt _ (by decide))⟩

instance : OfNat Decimal 0 := ⟨lit 0 0⟩
instance : OfNat Decimal 1 := ⟨lit 1 0⟩
instance : Inhabited Decimal := ⟨0⟩

/-- One hundred, for percentages. -/
def hundred : Decimal := lit 100 0

/-- The coefficient with its sign. -/
def coefficient (a : Decimal) : Int := if a.negative then -a.mantissa else a.mantissa

/-- Whether the value is zero, at whatever sign and scale. -/
def isZero (a : Decimal) : Bool := a.mantissa == 0

instance : LT Decimal :=
  ⟨fun a b => a.coefficient * tenPow b.scale < b.coefficient * tenPow a.scale⟩
instance : LE Decimal :=
  ⟨fun a b => a.coefficient * tenPow b.scale ≤ b.coefficient * tenPow a.scale⟩

instance (a b : Decimal) : Decidable (a < b) :=
  inferInstanceAs (Decidable (a.coefficient * tenPow b.scale < b.coefficient * tenPow a.scale))

instance (a b : Decimal) : Decidable (a ≤ b) :=
  inferInstanceAs (Decidable (a.coefficient * tenPow b.scale ≤ b.coefficient * tenPow a.scale))

/-- Two decimals of the same value. -/
def SameValue (a b : Decimal) : Prop :=
  a.coefficient * tenPow b.scale = b.coefficient * tenPow a.scale

instance (a b : Decimal) : Decidable (SameValue a b) :=
  inferInstanceAs (Decidable (a.coefficient * tenPow b.scale = b.coefficient * tenPow a.scale))

/-- The larger; of two of the same value, the first. -/
protected def max (a b : Decimal) : Decimal := if a < b then b else a

/-- The smaller; of two of the same value, the first. -/
protected def min (a b : Decimal) : Decimal := if b < a then b else a

/-- The opposite: the sign alone changes, also on a zero. -/
def neg (a : Decimal) : Decimal := { a with negative := !a.negative }

instance : Neg Decimal := ⟨neg⟩

/-- The magnitude. -/
def abs (a : Decimal) : Decimal := { a with negative := false }

end Decimal

end SimBroker
