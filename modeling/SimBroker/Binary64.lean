import SimBroker.Decimal.Text

/-!
# Double precision numbers

Number literals of the input formats may denote 64-bit binary floating point numbers.  A
`Binary64` is such a number by its value: `mantissa * 2 ^ exponent` for a finite one.  This module
rounds a quotient to the nearest of them, and gives the shortest decimal that reads back as a
given one, which is how a decimal is made from a float.
-/

namespace SimBroker

/-- The power `2 ^ k`. -/
abbrev twoPow (k : Nat) : Nat := Nat.pow 2 k

/-- A double precision number.  A finite one has its mantissa in `[2 ^ 52, 2 ^ 53)`, or below
that at exponent -1074. -/
inductive Binary64 where
  | finite (negative : Bool) (mantissa : Nat) (exponent : Int)
  | infinite (negative : Bool)
  | nan
  deriving DecidableEq

namespace Binary64

/-- The power of two at which `n / d` has a mantissa of 53 bits, or the least one there is. -/
def exponentOf (n d : Nat) : Int :=
  let e : Int := (n.log2 : Int) - d.log2 - 52
  let short := n * twoPow (-e).toNat < twoPow 52 * (d * twoPow e.toNat)
  max (if short then e - 1 else e) (-1074)

/-- The number nearest to `n / d`, a tie to the even mantissa. -/
def ofQuotient (negative : Bool) (n d : Nat) : Binary64 :=
  if n = 0 then .finite negative 0 (-1074)
  else
    let e := exponentOf n d
    let m := halfEven (n * twoPow (-e).toNat) (d * twoPow e.toNat)
    let (m, e) := if m = twoPow 53 then (twoPow 52, e + 1) else (m, e)
    if 971 < e then .infinite negative else .finite negative m e

/-- The number nearest to `m * 10 ^ e`.  Beyond the range of the format the power of ten is not
computed. -/
def ofScientific (negative : Bool) (m : Nat) (e : Int) : Binary64 :=
  let size : Int := (Nat.toDigits 10 m).length + e
  if m = 0 ∨ size < -400 then .finite negative 0 (-1074)
  else if 400 < size then .infinite negative
  else if 0 ≤ e then ofQuotient negative (m * tenPow e.toNat) 1
  else ofQuotient negative m (tenPow (-e).toNat)

/-- The number nearest to `10 ^ k`. -/
def powerOfTen (k : Nat) : Binary64 := ofQuotient false (tenPow k) 1

/-- The product of two positive numbers, rounded. -/
def mulMagnitude : Binary64 → Binary64 → Binary64
  | .finite s m e, .finite _ n f =>
    ofQuotient s (m * n * twoPow (e + f).toNat) (twoPow (-(e + f)).toNat)
  | x, _ => x

/-- The quotient of two positive numbers, rounded. -/
def divMagnitude : Binary64 → Binary64 → Binary64
  | .finite s m e, .finite _ n f =>
    ofQuotient s (m * twoPow (e - f).toNat) (n * twoPow (f - e).toNat)
  | x, _ => x

/-- Whether the number is a zero. -/
def isZero : Binary64 → Bool
  | .finite _ m _ => m == 0
  | _ => false

/-- `x / 10 ^ k`, each step rounded: at most 308 powers of ten go at once, and a zero stays. -/
def scaleDown (x : Binary64) (k : Nat) : Binary64 :=
  if k ≤ 308 then divMagnitude x (powerOfTen k)
  else if x.isZero then x
  else scaleDown (divMagnitude x (powerOfTen 308)) (k - 308)
termination_by k

/-- The number `m * 10 ^ e` in two rounded steps: the significand `m` first, then the scaling by a
power of ten that is itself rounded.  The last bit may differ from the nearest number's.  A number
beyond the format is refused. -/
def ofSignificand? (negative : Bool) (m : Nat) (e : Int) : Option Binary64 :=
  let x := ofQuotient negative m 1
  if e < 0 then some (scaleDown x (-e).toNat)
  else if e ≤ 308 then
    match mulMagnitude x (powerOfTen e.toNat) with
    | .infinite _ => none
    | y => some y
  else if x.isZero then some x else none

/-! ## The shortest decimal -/

/-- The greatest `k` with `10 ^ k ≤ n / d`, for `n` and `d` positive. -/
def log10 (n d : Nat) : Int :=
  if d ≤ n then ((Nat.toDigits 10 (n / d)).length : Int) - 1
  else
    let k := (Nat.toDigits 10 (d / n)).length
    if d ≤ n * tenPow (k - 1) then 1 - (k : Int) else -(k : Int)

/-- The decimal `(c, g)`, for `c * 10 ^ g`, with `digits` digits that lies in the interval of reals
that round to `m * 2 ^ e`; of two such the nearer one, and of two equally near the larger. -/
def nearest? (m : Nat) (e : Int) (digits : Nat) : Option (Nat × Int) :=
  let up := twoPow (e - 2).toNat
  let d := twoPow (2 - e).toNat
  let value := 4 * m * up
  let low := (if m = twoPow 52 ∧ -1074 < e then 4 * m - 1 else 4 * m - 2) * up
  let high := (4 * m + 2) * up
  let g := log10 value d - digits + 1
  -- `c * 10 ^ g` and `x / d` compare as `c * unit` and `x * whole`.
  let unit := d * tenPow g.toNat
  let whole := tenPow (-g).toNat
  let c := value * whole / unit
  let within (c : Nat) : Bool :=
    if m % 2 = 0 then decide (low * whole ≤ c * unit ∧ c * unit ≤ high * whole)
    else decide (low * whole < c * unit ∧ c * unit < high * whole)
  let below := value * whole - c * unit
  let above := (c + 1) * unit - value * whole
  match within c, within (c + 1) with
  | true, true =>
    some (if below < above then (c, g) else (c + 1, g))
  | true, false => some (c, g)
  | false, true => some (c + 1, g)
  | false, false => none

/-- The shortest decimal that rounds to `m * 2 ^ e`; 17 digits are always enough. -/
def shortest (m : Nat) (e : Int) : Nat × Int :=
  ((List.range' 1 17).findSome? (nearest? m e)).getD (0, 0)

/-- A coefficient and its places without trailing zeros after the point. -/
def dropTrailingZeros (c : Nat) : Nat → Nat × Nat
  | 0 => (c, 0)
  | places + 1 => if c % 10 = 0 then dropTrailingZeros (c / 10) places else (c, places + 1)

end Binary64

/-- The decimal with the shortest digits that read back as the float; none for an infinity, a NaN
or a number too large. -/
def Decimal.ofBinary64? : Binary64 → Option Decimal
  | .finite negative m e =>
    if m = 0 then some 0
    else
      let (c, g) := Binary64.shortest m e
      let (c, places) :=
        if 0 ≤ g then (c * tenPow g.toNat, 0) else Binary64.dropTrailingZeros c (-g).toNat
      Decimal.ofUnsigned? negative (Decimal.numeral c places)
  | _ => none

end SimBroker
