import SimBroker.Decimal.Basic
import SimBroker.Instant.Basic
import SimBroker.Text.Blank
import SimBroker.Text.Digit

/-!
# Instants as text

`toText` writes RFC 3339 in UTC: a year of four digits, or with its sign beyond 9999, the second
with no fraction or one of 3, 6 or 9 digits, and `Z`.  `ofText?` reads the same, and more: any
offset, a blank instead of `T`, numbers without leading zeros, and white space between the parts.
-/

namespace SimBroker

namespace Instant

/-! ## Writing -/

/-- The year: four digits, or a sign and at least four beyond them. -/
def yearChars (year : Int) : List Char :=
  if 0 ≤ year ∧ year ≤ 9999 then paddedDigits 4 year.toNat
  else (if year < 0 then '-' else '+') :: paddedDigits 4 year.natAbs

/-- The fraction of a second: the fewest of 0, 3, 6 and 9 digits that are exact. -/
def fractionChars (nanos : Nat) : List Char :=
  if nanos = 0 then []
  else if nanos % 1000000 = 0 then '.' :: paddedDigits 3 (nanos / 1000000)
  else if nanos % 1000 = 0 then '.' :: paddedDigits 6 (nanos / 1000)
  else '.' :: paddedDigits 9 nanos

/-- The text of an instant. -/
def toChars (t : Instant) : List Char :=
  let date := Date.ofDays t.day
  let second := (t.seconds % secondsPerDay).toNat
  let leap := t.nanos / nanosPerSecond
  yearChars date.year ++ '-' :: paddedDigits 2 date.month ++ '-' :: paddedDigits 2 date.day ++
    'T' :: paddedDigits 2 (second / 3600) ++ ':' :: paddedDigits 2 (second / 60 % 60) ++
    ':' :: paddedDigits 2 (second % 60 + leap) ++ fractionChars (t.nanos % nanosPerSecond) ++ ['Z']

/-- The text of an instant, as a string. -/
def toText (t : Instant) : String := String.ofList t.toChars

/-! ## Reading -/

/-- At most `width` digits, at least one, and what follows. -/
def digits? (width : Nat) (cs : List Char) : Option (Nat × List Char) := do
  let ds := (cs.take width).takeWhile Char.isDigit
  return (← natOfDigits? ds, cs.drop ds.length)

/-- White space, then at most `width` digits. -/
def number? (width : Nat) (cs : List Char) : Option (Nat × List Char) :=
  digits? width (skipBlank cs)

/-- White space, then a given character. -/
def mark? (c : Char) (cs : List Char) : Option (List Char) :=
  match skipBlank cs with
  | d :: rest => if d = c then some rest else none
  | [] => none

/-- A year: up to four digits, or a sign and any number of them. -/
def year? (cs : List Char) : Option (Int × List Char) :=
  match skipBlank cs with
  | '-' :: rest => (digits? rest.length rest).map fun (n, rest) => (-(n : Int), rest)
  | '+' :: rest => (digits? rest.length rest).map fun (n, rest) => ((n : Int), rest)
  | rest => (digits? 4 rest).map fun (n, rest) => ((n : Int), rest)

/-- A fraction of a second in nanoseconds; digits after the ninth are skipped. -/
def fraction? : List Char → Option (Nat × List Char)
  | '.' :: cs => do
    let ds := (cs.take 9).takeWhile Char.isDigit
    let n ← natOfDigits? ds
    return (n * tenPow (9 - ds.length), (cs.drop ds.length).dropWhile Char.isDigit)
  | cs => some (0, cs)

/-- Two digits. -/
def twoDigits? : List Char → Option (Nat × List Char)
  | a :: b :: rest => do return (10 * (← digit? a) + (← digit? b), rest)
  | _ => none

/-- The offset from UTC in seconds: `Z`, `UTC`, or a sign, hours and minutes less than a day. -/
def offset? (cs : List Char) : Option (Int × List Char) :=
  match cs with
  | 'Z' :: rest => some (0, rest)
  | 'z' :: rest => some (0, rest)
  | '+' :: rest => (size? rest).map fun (n, rest) => ((n : Int), rest)
  | '-' :: rest => (size? rest).map fun (n, rest) => (-(n : Int), rest)
  | '\u2212' :: rest => (size? rest).map fun (n, rest) => (-(n : Int), rest)
  | a :: b :: c :: rest =>
    if [a, b, c].map Char.toUpper = ['U', 'T', 'C'] then some (0, rest) else none
  | _ => none
where
  /-- Hours and minutes, with colons or white space between them. -/
  size? (cs : List Char) : Option (Nat × List Char) := do
    let (hours, cs) ← twoDigits? cs
    let (minutes, cs) ← twoDigits? (cs.dropWhile fun c => c == ':' || isBlank c)
    if minutes < 60 ∧ hours < 24 then return (hours * 3600 + minutes * 60, cs) else none

/-- Reads an instant. -/
def ofChars? (cs : List Char) : Option Instant := do
  let (year, cs) ← year? cs
  let (month, cs) ← number? 2 (← mark? '-' cs)
  let (day, cs) ← number? 2 (← mark? '-' cs)
  let cs ← match cs with
    | c :: rest => if c = 'T' ∨ c = 't' ∨ c = ' ' then some rest else none
    | [] => none
  let (hour, cs) ← number? 2 cs
  let (minute, cs) ← number? 2 (← mark? ':' cs)
  let (second, cs) ← number? 2 (← mark? ':' cs)
  let (nanos, cs) ← fraction? cs
  let (offset, cs) ← offset? (skipBlank cs)
  let date : Date := ⟨year, month, day⟩
  if date.IsValid ∧ hour < 24 ∧ minute < 60 ∧ second ≤ 60 ∧ (skipBlank cs).isEmpty ∧
      -262143 ≤ year ∧ year ≤ 262142 then
    let leap := second / 60
    ofParts? (date.toDays * secondsPerDay + hour * 3600 + minute * 60 + (second - leap) - offset)
      (nanos + leap * nanosPerSecond)
  else none

/-- Reads an instant from a string. -/
def ofText? (s : String) : Option Instant := ofChars? s.toList

end Instant

end SimBroker
