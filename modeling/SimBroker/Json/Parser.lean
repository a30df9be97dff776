import SimBroker.Json.Basic

/-!
# Reading JSON

A strict reader: one value, with white space around its parts.  Numbers have no leading zeros and
digits on both sides of a point; strings have no raw control characters and no half of a surrogate
pair; values nest at most 127 deep.

A number without point and exponent is whole if it fits 64 bits, with or without a sign.  Any other
is a float: its significand keeps the leading digits that fit 64 bits, and is then scaled by a power
of ten.
-/

namespace SimBroker

namespace Json

/-- The greatest depth of arrays and objects inside one another. -/
def maxDepth : Nat := 127

/-- A blank of JSON. -/
def isSpace (c : Char) : Bool := c == ' ' || c == '\n' || c == '\t' || c == '\r'

/-- The text from its first character that is not a blank. -/
def skipSpace (cs : List Char) : List Char := cs.dropWhile isSpace

/-! ## Numbers -/

/-- The digits at the front of a text, and the rest. -/
def spanDigits (cs : List Char) : List Char × List Char :=
  (cs.takeWhile Char.isDigit, cs.dropWhile Char.isDigit)

/-- The number of leading digits, at most all, whose value has 64 bits, with that value. -/
def significand : (acc : Nat) → List Char → Nat × List Char
  | acc, [] => (acc, [])
  | acc, c :: cs =>
    let acc' := acc * 10 + (c.toNat - '0'.toNat)
    if acc' < UInt64.size then significand acc' cs else (acc, c :: cs)

/-- The exponent after `e` or `E`: an optional sign and digits. -/
def exponent? : List Char → Option (Int × List Char)
  | c :: cs =>
    if c = 'e' ∨ c = 'E' then
      let (negative, cs) := match cs with
        | '-' :: cs => (true, cs)
        | '+' :: cs => (false, cs)
        | cs => (false, cs)
      let (ds, rest) := spanDigits cs
      (natOfDigits? ds).map fun n => (if negative then -(n : Int) else n, rest)
    else some (0, c :: cs)
  | [] => some (0, [])

/-- The float of an integer part, the digits after the point and an exponent.  Digits of the integer
part that do not fit the significand count for the magnitude alone; digits after the point join the
significand as long as they fit, and then count not at all. -/
def floatOf? (negative : Bool) (whole places : List Char) (exponent : Int) : Option Json :=
  let (m, excess) := significand 0 whole
  let (m, left) := significand m places
  let kept := places.length - left.length
  (Binary64.ofSignificand? negative m (exponent + excess.length - kept)).map .float

/-- A number after its sign. -/
def number? (negative : Bool) (cs : List Char) : Option (Json × List Char) := do
  let (whole, rest) := spanDigits cs
  let n ← natOfDigits? whole
  if whole.head? = some '0' ∧ whole.length ≠ 1 then none
  else
    match rest with
    | '.' :: rest =>
      let (places, rest) := spanDigits rest
      if places.isEmpty then none
      else
        let (exponent, rest) ← exponent? rest
        return (← floatOf? negative whole places exponent, rest)
    | c :: _ =>
      if c = 'e' ∨ c = 'E' then
        let (exponent, rest) ← exponent? rest
        return (← floatOf? negative whole [] exponent, rest)
      else return (← whole? negative whole n, rest)
    | [] => return (← whole? negative whole n, rest)
where
  /-- A number without point and exponent. -/
  whole? (negative : Bool) (whole : List Char) (n : Nat) : Option Json :=
    if negative then
      if 0 < n ∧ n ≤ UInt64.size / 2 then some (.int (-n)) else floatOf? true whole [] 0
    else if n < UInt64.size then some (.int n)
    else floatOf? false whole [] 0

/-! ## Strings -/

/-- Four hexadecimal digits. -/
def fourHex? : List Char → Option (Nat × List Char)
  | a :: b :: c :: d :: rest => do
    return (← natOfHexDigits? [a, b, c, d], rest)
  | _ => none

/-- What follows a backslash: the character it stands for. -/
def escape? : List Char → Option (Char × List Char)
  | [] => none
  | c :: rest =>
    if c = '"' then some ('"', rest)
    else if c = '\\' then some ('\\', rest)
    else if c = '/' then some ('/', rest)
    else if c = 'b' then some ('\x08', rest)
    else if c = 'f' then some ('\x0c', rest)
    else if c = 'n' then some ('\n', rest)
    else if c = 'r' then some ('\r', rest)
    else if c = 't' then some ('\t', rest)
    else if c = 'u' then do
      let (n, rest) ← fourHex? rest
      if 0xDC00 ≤ n ∧ n ≤ 0xDFFF then none
      else if 0xD800 ≤ n ∧ n ≤ 0xDBFF then
        match rest with
        | '\\' :: 'u' :: rest =>
          let (m, rest) ← fourHex? rest
          if 0xDC00 ≤ m ∧ m ≤ 0xDFFF then
            return (Char.ofNat (0x10000 + (n - 0xD800) * 0x400 + (m - 0xDC00)), rest)
          else none
        | _ => none
      else return (Char.ofNat n, rest)
    else none

/-- The characters up to the closing quote.  Each round takes at least one character, so the
length of the text is enough `fuel`. -/
def stringBody : (fuel : Nat) → List Char → Option (List Char × List Char)
  | 0, _ => none
  | _ + 1, [] => none
  | fuel + 1, c :: rest =>
    if c = '"' then some ([], rest)
    else if c = '\\' then do
      let (c, rest) ← escape? rest
      let (cs, rest) ← stringBody fuel rest
      return (c :: cs, rest)
    else if c.toNat < 0x20 then none
    else do
      let (cs, rest) ← stringBody fuel rest
      return (c :: cs, rest)

/-- A string after its opening quote. -/
def string? (cs : List Char) : Option (String × List Char) :=
  (stringBody cs.length cs).map fun (s, rest) => (String.ofList s, rest)

/-! ## Values -/

/-- A word at the front of a text, and what it stands for. -/
def word? (word : String) (value : Json) (cs : List Char) : Option (Json × List Char) :=
  if cs.take word.length = word.toList then some (value, cs.drop word.length) else none

mutual

/-- A value after white space, within `depth` levels.  Each call takes at least one character or
ends, so twice the length of the text is enough `fuel`. -/
def value? : (fuel depth : Nat) → List Char → Option (Json × List Char)
  | 0, _, _ => none
  | fuel + 1, depth, cs =>
    match skipSpace cs with
    | [] => none
    | c :: rest =>
      if c = '"' then (string? rest).map fun (s, rest) => (.str s, rest)
      else if c = '[' then
        match depth with
        | 0 => none
        | depth + 1 =>
          match skipSpace rest with
          | ']' :: rest => some (.arr [], rest)
          | rest => (items? fuel depth rest).map fun (xs, rest) => (.arr xs, rest)
      else if c = '\x7b' then
        match depth with
        | 0 => none
        | depth + 1 =>
          match skipSpace rest with
          | '\x7d' :: rest => some (.obj [], rest)
          | rest => (members? fuel depth rest).map fun (ms, rest) => (.obj ms, rest)
      else if c = '-' then number? true rest
      else if c = 'n' then word? "null" .null (c :: rest)
      else if c = 't' then word? "true" (.bool true) (c :: rest)
      else if c = 'f' then word? "false" (.bool false) (c :: rest)
      else number? false (c :: rest)

/-- The items of an array up to its closing bracket, at least one. -/
def items? : (fuel depth : Nat) → List Char → Option (List Json × List Char)
  | 0, _, _ => none
  | fuel + 1, depth, cs => do
    let (x, rest) ← value? fuel depth cs
    match skipSpace rest with
    | ',' :: rest =>
      let (xs, rest) ← items? fuel depth rest
      return (x :: xs, rest)
    | ']' :: rest => return ([x], rest)
    | _ => none

/-- The members of an object up to its closing brace, at least one. -/
def members? : (fuel depth : Nat) → List Char → Option (List (String × Json) × List Char)
  | 0, _, _ => none
  | fuel + 1, depth, cs =>
    match skipSpace cs with
    | '"' :: rest => do
      let (k, rest) ← string? rest
      match skipSpace rest with
      | ':' :: rest =>
        let (x, rest) ← value? fuel depth rest
        match skipSpace rest with
        | ',' :: rest =>
          let (ms, rest) ← members? fuel depth rest
          return ((k, x) :: ms, rest)
        | '\x7d' :: rest => return ([(k, x)], rest)
        | _ => none
      | _ => none
    | _ => none

end

/-- Reads exactly one value. -/
def ofChars? (cs : List Char) : Option Json := do
  let (j, rest) ← value? (2 * cs.length + 2) maxDepth cs
  if (skipSpace rest).isEmpty then some j else none

/-- Reads exactly one value from a string. -/
def ofText? (s : String) : Option Json := ofChars? s.toList

end Json

end SimBroker
