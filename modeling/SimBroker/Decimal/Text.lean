import SimBroker.Decimal.Arithmetic
import SimBroker.Text.Digit

/-!
# Decimals as text

The plain form has an optional sign, digits and at most one point; `toText` writes it with exactly
as many places as the scale.  `ofPlain?` reads it from left to right as long as digits have room:
the first digit without room decides whether the last digit kept goes up, and of what follows it is
only asked that it is digits and underscores.  `ofText?` also reads a plain form followed by an
exponent.
-/

namespace SimBroker

namespace Decimal

/-! ## Writing -/

/-- The number `m / 10 ^ s` in digits: the integer part, and `s` digits after a point. -/
def numeral (m s : Nat) : List Char :=
  let ds := paddedDigits (s + 1) m
  ds.take (ds.length - s) ++ (if s = 0 then [] else '.' :: ds.drop (ds.length - s))

/-- The plain form: a sign if negative, the integer part, and `scale` digits after a point. -/
def toChars (a : Decimal) : List Char :=
  (if a.negative then ['-'] else []) ++ numeral a.mantissa a.scale

/-- The plain form as a string. -/
def toText (a : Decimal) : String := String.ofList a.toChars

instance : ToString Decimal := ⟨toText⟩

/-! ## Reading the plain form -/

/-- A number under way: its coefficient and scale so far, and whether the point and any digit have
been seen. -/
structure Scan where
  mantissa : Nat := 0
  scale : Nat := 0
  point : Bool := false
  digits : Bool := false

namespace Scan

/-- One more digit `d`, if the coefficient and the scale have room for it. -/
def push? (x : Scan) (d : Nat) : Option Scan :=
  let m := x.mantissa * 10 + d
  if m < coefficientBound ∧ x.scale < 28 then
    some { x with
      mantissa := m
      scale := if x.point then x.scale + 1 else x.scale
      digits := true }
  else none

/-- The number rounded by the first digit `d` that has no room: from 5 on it raises the last digit
kept, and if that carries out of the format, one more place goes. -/
def round? (x : Scan) (d : Nat) : Option Scan :=
  if d < 5 then some x
  else if x.mantissa + 1 < coefficientBound then some { x with mantissa := x.mantissa + 1 }
  else if x.scale = 0 then none
  else some { x with mantissa := (x.mantissa + 5) / 10, scale := x.scale - 1 }

/-- The number rounded by `d`, if only digits and underscores follow. -/
def finish? (x : Scan) (d : Nat) (rest : List Char) : Option Scan :=
  if rest.all fun c => c = '_' || (digit? c).isSome then x.round? d else none

/-- A coefficient below this bound takes another digit and still fits 64 bits. -/
def shortBound : Nat := 1844674407370954906

/-- Whether the last digit was pushed on a coefficient below `shortBound`. -/
def isShort (x : Scan) : Bool := decide (x.mantissa / 10 < shortBound)

/-- Reads the rest of a number.  An underscore may follow any digit, and means nothing, except that
after the last place of a short number it stands for a zero, the digit that decides the rounding.
Before the point every digit must have room. -/
def read? (x : Scan) : List Char → Option Scan
  | [] => some x
  | c :: cs =>
    match digit? c with
    | some d =>
      match x.push? d with
      | some x => x.read? cs
      | none => if x.point then x.finish? d cs else none
    | none =>
      if c = '_' ∧ x.digits then
        if x.scale = 28 ∧ x.isShort then x.finish? 0 cs else x.read? cs
      else if c = '.' ∧ !x.point then { x with point := true }.read? cs
      else none

end Scan

/-- The digits after the sign; a zero has none. -/
def ofUnsigned? (negative : Bool) (cs : List Char) : Option Decimal := do
  let x ← Scan.read? {} cs
  if x.digits then ofParts? (negative && x.mantissa != 0) x.mantissa x.scale else none

/-- Reads the plain form. -/
def ofPlain? : List Char → Option Decimal
  | '-' :: cs => ofUnsigned? true cs
  | '+' :: cs => ofUnsigned? false cs
  | cs => ofUnsigned? false cs

/-! ## Reading an exponent -/

/-- The greatest size of an exponent. -/
def maxExponent : Nat := 28

/-- The quotient `n / d` rounded to the nearest integer, a half away from zero. -/
def halfUp (n d : Nat) : Nat := (2 * n + d) / (2 * d)

/-- The decimal times `10 ^ n`: the scale falls, and where it would fall below zero the coefficient
grows. -/
def raise? (a : Decimal) (n : Nat) : Option Decimal :=
  if maxExponent < n then none
  else if n ≤ a.scale then ofParts? a.negative a.mantissa (a.scale - n)
  else ofParts? a.negative (a.mantissa * tenPow (n - a.scale)) 0

/-- The decimal over `10 ^ n`: the scale grows, and places beyond the last are rounded away, a half
away from zero.  The sign stays, also on a zero. -/
def lower? (a : Decimal) (n : Nat) : Option Decimal :=
  if maxExponent < n then none
  else if a.scale + n ≤ 28 then ofParts? a.negative a.mantissa (a.scale + n)
  else ofParts? a.negative (halfUp a.mantissa (tenPow (a.scale + n - 28))) 28

/-- The size of an exponent: digits, which may follow a plus sign, for a number of 32 bits. -/
def exponentSize? (cs : List Char) : Option Nat :=
  let ds := match cs with
    | '+' :: ds => ds
    | ds => ds
  (natOfDigits? ds).filter (· < UInt32.size)

/-- Moves the point of `a` by an exponent: its size, which may follow a minus sign. -/
def scaleBy? (a : Decimal) : List Char → Option Decimal
  | '-' :: cs => do a.lower? (← exponentSize? cs)
  | cs => do a.raise? (← exponentSize? cs)

/-- Whether an exponent follows the character. -/
def isExponentMark (c : Char) : Bool := c == 'e' || c == 'E'

/-- Reads a decimal: a plain form, or a plain form followed by `e` or `E` and an exponent. -/
def ofChars? (cs : List Char) : Option Decimal := do
  let a ← ofPlain? (cs.takeWhile (!isExponentMark ·))
  match cs.dropWhile (!isExponentMark ·) with
  | [] => some a
  | _ :: exponent => a.scaleBy? exponent

/-- Reads a decimal from a string. -/
def ofText? (s : String) : Option Decimal := ofChars? s.toList

end Decimal

end SimBroker
