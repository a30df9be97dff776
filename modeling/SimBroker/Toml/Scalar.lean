import SimBroker.Toml.Basic
import SimBroker.Toml.Text
import SimBroker.Instant.Calendar

/-!
# TOML numbers, dates and truth values

Each reader takes the longest text of its form from the front and returns what follows.  A number
may have single underscores between its digits.  Integers have 64 bits, and floats are rounded to
the nearest double precision number.
-/

namespace SimBroker

namespace Toml

/-! ## Digits -/

/-- Digits in a row, each of them alone or after one underscore, and the rest. -/
def moreDigits (isDigit : Char → Bool) : List Char → List Char × List Char
  | [] => ([], [])
  | '_' :: c :: cs =>
    if isDigit c then
      let (ds, rest) := moreDigits isDigit cs
      (c :: ds, rest)
    else ([], '_' :: c :: cs)
  | c :: cs =>
    if isDigit c then
      let (ds, rest) := moreDigits isDigit cs
      (c :: ds, rest)
    else ([], c :: cs)

/-- One or more digits, the first without an underscore in front. -/
def digits? (isDigit : Char → Bool) : List Char → Option (List Char × List Char)
  | [] => none
  | c :: cs =>
    if isDigit c then
      let (ds, rest) := moreDigits isDigit cs
      some (c :: ds, rest)
    else none

/-- The number of digits in a base. -/
def numberOf (base : Nat) (ds : List Char) : Nat :=
  ds.foldl (fun n c => n * base + (hexDigit? c).getD 0) 0

/-- Whether a number is negative, by its sign if it has one, and the rest. -/
def sign : List Char → Bool × List Char
  | '-' :: cs => (true, cs)
  | '+' :: cs => (false, cs)
  | cs => (false, cs)

/-- The digits of a whole number; after a leading zero there are none. -/
def wholeDigits? : List Char → Option (List Char × List Char)
  | '0' :: cs => some (['0'], cs)
  | cs => digits? Char.isDigit cs

/-! ## Numbers -/

/-- The prefixes of the bases that are not ten. -/
def basePrefixes : List (List Char × Nat) := [(['0', 'x'], 16), (['0', 'o'], 8), (['0', 'b'], 2)]

/-- A digit of a base. -/
def isDigitOf (base : Nat) (c : Char) : Bool :=
  match hexDigit? c with
  | some n => n < base
  | none => false

/-- An integer in base ten, with a sign, or after a prefix in another base, without. -/
def integer? (cs : List Char) : Option (Int × List Char) := do
  let (n, rest) ←
    match basePrefixes.find? fun p => p.1 == cs.take 2 with
    | some (_, base) => do
      let (ds, rest) ← digits? (isDigitOf base) (cs.drop 2)
      pure ((numberOf base ds : Int), rest)
    | none => do
      let (negative, cs) := sign cs
      let (ds, rest) ← wholeDigits? cs
      let n : Int := numberOf 10 ds
      pure (if negative then -n else n, rest)
  if -9223372036854775808 ≤ n ∧ n ≤ 9223372036854775807 then some (n, rest) else none

/-- The digits after a point, if there is one. -/
def places? : List Char → Option (List Char × List Char)
  | '.' :: cs => digits? Char.isDigit cs
  | cs => some ([], cs)

/-- The exponent after `e` or `E`, if there is one. -/
def exponent? : List Char → Option (Option Int × List Char)
  | c :: cs =>
    if c = 'e' ∨ c = 'E' then do
      let (negative, cs) := sign cs
      let (ds, rest) ← digits? Char.isDigit cs
      let n : Int := numberOf 10 ds
      return (some (if negative then -n else n), rest)
    else some (none, c :: cs)
  | [] => some (none, [])

/-- A float: an integer part with places, an exponent or both.  One too large to be finite is
refused, unless it is negative. -/
def decimalFloat? (cs : List Char) : Option (Binary64 × List Char) := do
  let (negative, cs) := sign cs
  let (whole, cs) ← wholeDigits? cs
  let (places, cs) ← places? cs
  let (exponent, rest) ← exponent? cs
  if places.isEmpty ∧ exponent.isNone then none
  else
    let x := Binary64.ofScientific negative (numberOf 10 (whole ++ places))
      (exponent.getD 0 - places.length)
    if x = .infinite false then none else some (x, rest)

/-- An infinity or a NaN. -/
def specialFloat? (cs : List Char) : Option (Binary64 × List Char) :=
  let (negative, cs) := sign cs
  match cs with
  | 'i' :: 'n' :: 'f' :: cs => some (.infinite negative, cs)
  | 'n' :: 'a' :: 'n' :: cs => some (.nan, cs)
  | _ => none

/-! ## Dates and times -/

/-- A number of exactly `width` digits within bounds. -/
def fixed? (width low high : Nat) (cs : List Char) : Option (Nat × List Char) :=
  let ds := cs.take width
  let n := numberOf 10 ds
  if ds.length = width ∧ ds.all Char.isDigit ∧ low ≤ n ∧ n ≤ high then some (n, cs.drop width)
  else none

/-- A given character in front. -/
def mark? (c : Char) : List Char → Option (List Char)
  | d :: cs => if d = c then some cs else none
  | [] => none

/-- What follows a date. -/
def afterDate? (cs : List Char) : Option (List Char) := do
  let (year, cs) ← fixed? 4 0 9999 cs
  let (month, cs) ← fixed? 2 1 12 (← mark? '-' cs)
  let (day, cs) ← fixed? 2 1 31 (← mark? '-' cs)
  if day ≤ Date.daysInMonth year month then some cs else none

/-- What follows a time of day. -/
def afterTime? (cs : List Char) : Option (List Char) := do
  let (_, cs) ← fixed? 2 0 23 cs
  let (_, cs) ← fixed? 2 0 59 (← mark? ':' cs)
  let (_, cs) ← fixed? 2 0 60 (← mark? ':' cs)
  match cs with
  | '.' :: c :: cs => if c.isDigit then some (cs.dropWhile Char.isDigit) else some ('.' :: c :: cs)
  | cs => some cs

/-- What follows an offset from UTC. -/
def afterOffset? : List Char → Option (List Char)
  | c :: cs =>
    if c = 'Z' ∨ c = 'z' then some cs
    else if c = '+' ∨ c = '-' then do
      let (_, cs) ← fixed? 2 0 23 cs
      let (_, cs) ← fixed? 2 0 59 (← mark? ':' cs)
      return cs
    else none
  | [] => none

/-- What follows a time of day and, if there is one, its offset, after the letter or blank that
divides it from its date. -/
def afterDividedTime? : List Char → Option (List Char)
  | c :: cs =>
    if c = 'T' ∨ c = 't' ∨ c = ' ' then (afterTime? cs).map fun cs => (afterOffset? cs).getD cs
    else none
  | [] => none

/-- What follows a date, a date and time, or a time of day. -/
def afterMoment? (cs : List Char) : Option (List Char) :=
  match afterDate? cs with
  | some rest => some ((afterDividedTime? rest).getD rest)
  | none => afterTime? cs

/-- A date, a date and time, or a time of day. -/
def moment? (cs : List Char) : Option (String × List Char) :=
  (afterMoment? cs).map fun rest => (String.ofList (cs.take (cs.length - rest.length)), rest)

/-! ## Scalars -/

/-- A value that is no string, array or table. -/
def scalar? (cs : List Char) : Option (Toml × List Char) :=
  match cs with
  | 't' :: 'r' :: 'u' :: 'e' :: cs => some (.bool true, cs)
  | 'f' :: 'a' :: 'l' :: 's' :: 'e' :: cs => some (.bool false, cs)
  | cs =>
    (moment? cs).map (fun (s, cs) => (.moment s, cs)) <|>
      ((decimalFloat? cs <|> specialFloat? cs).map fun (x, cs) => (.float x, cs)) <|>
      (integer? cs).map fun (n, cs) => (.int n, cs)

end Toml

end SimBroker
