import SimBroker.Decimal.Basic

/-!
# Decimal arithmetic

The four operations, each of which may overflow, and rounding to whole numbers.  Sums and
products are computed exactly and then brought into the format by `fit?`.  A quotient is found by
long division, up to nine digits at a time, until it is exact or no further digit has room.
-/

namespace SimBroker

namespace Decimal

/-- The result of fitting, or the fault of the operation that asked. -/
def orFault (fault : ArithmeticFault) : Option Decimal → Calc Decimal
  | some a => .ok a
  | none => .error fault

/-- The exact sum of two decimals that are not zero, brought into the format at the larger scale. -/
def sum? (a b : Decimal) : Option Decimal :=
  let s := max a.scale b.scale
  let total := a.coefficient * tenPow (s - a.scale) + b.coefficient * tenPow (s - b.scale)
  fit? (decide (total < 0)) total.natAbs s

/-- The sum; a zero leaves the other term as it is, with its own scale. -/
def add (a b : Decimal) : Calc Decimal :=
  if a.isZero then .ok b
  else if b.isZero then .ok a
  else orFault .additionOverflow (sum? a b)

/-- The difference; taking away zero, or taking from zero, keeps the scale of the other term. -/
def sub (a b : Decimal) : Calc Decimal :=
  if a.isZero then .ok (if b.isZero then b else -b)
  else if b.isZero then .ok a
  else orFault .subtractionOverflow (sum? a (-b))

/-- Whether the coefficient fits in one 32-bit word. -/
def isSmall (a : Decimal) : Bool := decide (a.mantissa < UInt32.size)

/-- The product.  A product with zero is plain `0`, and so is a product of two small coefficients
with more than 47 places; two small coefficients never give a negative zero. -/
def mul (a b : Decimal) : Calc Decimal :=
  if a.isZero || b.isZero then .ok 0
  else if a.isSmall && b.isSmall && decide (47 < a.scale + b.scale) then .ok 0
  else orFault .multiplicationOverflow do
    let c ← fit? (a.negative != b.negative) (a.mantissa * b.mantissa) (a.scale + b.scale)
    pure (if c.isZero && a.isSmall && b.isSmall then c.abs else c)

/-! ## Division -/

/-- A quotient under way: the digits found, their scale, and whether any digit was added beyond
those of the operands' own scales. -/
structure Quotient where
  digits : Nat
  scale : Int
  extended : Bool

/-- The most digits, at most `cap`, that can be appended to `q` within 96 bits. -/
def roomFor (q : Nat) : Nat → Nat
  | 0 => 0
  | cap + 1 => if q * tenPow (cap + 1) < coefficientBound then cap + 1 else roomFor q cap

/-- Long division by `d` from quotient `q`, remainder `r` and scale `s`.  Each round appends at
least one digit and the scale ends at 28 at most, so `fuel` bounds the rounds. -/
def longDivision (d : Nat) : (fuel q r : Nat) → (s : Int) → (extended : Bool) → Option Quotient
  | 0, _, _, _, _ => none
  | fuel + 1, q, r, s, extended =>
    if r = 0 ∧ 0 ≤ s then some ⟨q, s, extended⟩
    else
      let extended := extended || decide (r ≠ 0)
      let p := if r = 0 then min 9 (-s).toNat else roomFor q (min 9 (28 - s).toNat)
      if p = 0 then
        if s < 0 then none
        else
          let q := halfEven (q * d + r) d
          if q < coefficientBound then some ⟨q, s, extended⟩
          else if s - 1 < 0 then none
          else some ⟨halfEven q 10, s - 1, extended⟩
      else if coefficientBound ≤ q * tenPow p then none
      else
        let q := q * tenPow p + r * tenPow p / d
        let r := r * tenPow p % d
        let s := s + p
        if q < coefficientBound then longDivision d fuel q r s extended
        else if s - 1 < 0 then none
        else some ⟨halfEven (2 * q + (if r ≠ 0 then 1 else 0)) 20, s - 1, extended⟩

/-- Drops `k` trailing zeros, if there are that many places and zeros. -/
def dropZeros (k : Nat) (q s : Nat) : Nat × Nat :=
  if k ≤ s ∧ q % tenPow k = 0 then (q / tenPow k, s - k) else (q, s)

/-- Drops trailing zeros eight at a time, as long as the low 32 bits of the coefficient are zero. -/
def dropEights : (fuel q s : Nat) → Nat × Nat
  | 0, q, s => (q, s)
  | fuel + 1, q, s =>
    if q % UInt32.size = 0 ∧ 8 ≤ s ∧ q % tenPow 8 = 0 then
      dropEights fuel (q / tenPow 8) (s - 8)
    else (q, s)

/-- An extended quotient loses its trailing zeros in groups of eight, four, two and one. -/
def shorten (q s : Nat) : Nat × Nat :=
  let (q, s) := dropEights 3 q s
  let (q, s) := dropZeros 4 q s
  let (q, s) := dropZeros 2 q s
  dropZeros 1 q s

/-- The quotient.  Zero over anything is plain `0`, and a quotient rounded to zero is not
negative. -/
def div (a b : Decimal) : Calc Decimal :=
  if b.isZero then .error .divisionByZero
  else if a.isZero then .ok 0
  else orFault .divisionOverflow do
    let c ← longDivision b.mantissa 58 (a.mantissa / b.mantissa) (a.mantissa % b.mantissa)
      ((a.scale : Int) - b.scale) false
    let (q, s) := if c.extended then shorten c.digits c.scale.toNat else (c.digits, c.scale.toNat)
    ofParts? (a.negative != b.negative && q != 0) q s

/-! ## Whole numbers, places and sums -/

theorem div_tenPow_lt {m : Nat} (h : m < coefficientBound) (k : Nat) :
    m / tenPow k < coefficientBound :=
  Nat.lt_of_le_of_lt (Nat.div_le_self _ _) h

/-- The integer part, with scale 0. -/
def trunc (a : Decimal) : Decimal :=
  { a with
    mantissa := a.mantissa / tenPow a.scale
    scale := 0
    mantissa_lt := div_tenPow_lt a.mantissa_lt a.scale
    scale_le := Nat.zero_le _ }

/-- The greatest integer not above the value, with scale 0. -/
def floor (a : Decimal) : Calc Decimal :=
  if a.negative ∧ a.mantissa % tenPow a.scale ≠ 0 then a.trunc.sub 1 else .ok a.trunc

/-- The value to two places, a half to the even neighbour; fewer places stay as they are. -/
def toCents (a : Decimal) : Decimal :=
  if a.scale ≤ 2 then a
  else (ofParts? a.negative (halfEven a.mantissa (tenPow (a.scale - 2))) 2).getD a

/-- The sum of a list, folded from `0` in order. -/
def total (xs : List Decimal) : Calc Decimal := xs.foldlM add 0

end Decimal

end SimBroker
