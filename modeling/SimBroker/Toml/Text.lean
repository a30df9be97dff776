import SimBroker.Text.Digit

/-!
# TOML strings

The characters of a TOML text, and its four kinds of strings: basic ones in quotes, with escapes,
and literal ones in apostrophes, without, each on one line or, with three delimiters, on several.
Each reader begins after the opening delimiter and returns what follows the closing one.
-/

namespace SimBroker

namespace Toml

/-- A character that may stand in a comment or, delimiters apart, in a string: no control character
but the tab. -/
def isText (c : Char) : Bool := c == '\t' || (0x20 ≤ c.toNat && c.toNat != 0x7F)

/-- White space inside a line. -/
def isSpace (c : Char) : Bool := c == ' ' || c == '\t'

/-- The text from its first character that is not white space inside a line. -/
def skipSpace (cs : List Char) : List Char := cs.dropWhile isSpace

/-- The text after a line break, if it begins with one. -/
def newLine? : List Char → Option (List Char)
  | '\n' :: cs => some cs
  | '\r' :: '\n' :: cs => some cs
  | _ => none

/-- The text without white space and line breaks in front. -/
def skipBreaks : List Char → List Char
  | ' ' :: cs => skipBreaks cs
  | '\t' :: cs => skipBreaks cs
  | '\n' :: cs => skipBreaks cs
  | '\r' :: '\n' :: cs => skipBreaks cs
  | cs => cs

/-! ## Escapes -/

/-- A character given by its number in `width` hexadecimal digits. -/
def numbered? (width : Nat) (cs : List Char) : Option (Char × List Char) := do
  let digits := cs.take width
  let n ← natOfHexDigits? digits
  if digits.length = width ∧ n.isValidChar then some (Char.ofNat n, cs.drop width) else none

/-- What follows a backslash: the character it stands for. -/
def escape? : List Char → Option (Char × List Char)
  | 'b' :: cs => some ('\x08', cs)
  | 't' :: cs => some ('\t', cs)
  | 'n' :: cs => some ('\n', cs)
  | 'f' :: cs => some ('\x0c', cs)
  | 'r' :: cs => some ('\r', cs)
  | '"' :: cs => some ('"', cs)
  | '\\' :: cs => some ('\\', cs)
  | 'u' :: cs => numbered? 4 cs
  | 'U' :: cs => numbered? 8 cs
  | _ => none

/-! ## Strings -/

/-- A basic string of one line.  Each round takes a character, so the length of the text is enough
`fuel`. -/
def basic? : (fuel : Nat) → List Char → Option (List Char × List Char)
  | 0, _ => none
  | _ + 1, [] => none
  | fuel + 1, c :: cs =>
    if c = '"' then some ([], cs)
    else if c = '\\' then do
      let (c, cs) ← escape? cs
      let (s, cs) ← basic? fuel cs
      return (c :: s, cs)
    else if isText c then do
      let (s, cs) ← basic? fuel cs
      return (c :: s, cs)
    else none

/-- A literal string of one line. -/
def literal? : List Char → Option (List Char × List Char)
  | [] => none
  | c :: cs =>
    if c = '\'' then some ([], cs)
    else if isText c then (literal? cs).map fun (s, cs) => (c :: s, cs)
    else none

/-- A run of delimiters inside a string of several lines: up to two belong to the string, three end
it, and one or two more in front of those three still belong to it.  The number of those that
belong, and whether the string ends. -/
def delimiters? (n : Nat) : Option (Nat × Bool) :=
  if n < 3 then some (n, false) else if n < 6 then some (n - 3, true) else none

/-- A string of several lines with the given delimiter; with `escapes`, a backslash begins an escape
or, at the end of a line, joins it with the next text.  Each round takes a character, so the length
of the text is enough `fuel`. -/
def lines? (delimiter : Char) (escapes : Bool) :
    (fuel : Nat) → List Char → Option (List Char × List Char)
  | 0, _ => none
  | _ + 1, [] => none
  | fuel + 1, c :: cs =>
    if c = delimiter then do
      let run := (c :: cs).takeWhile (· == delimiter)
      let rest := (c :: cs).dropWhile (· == delimiter)
      let (kept, ends) ← delimiters? run.length
      if ends then return (run.take kept, rest)
      else
        let (s, rest) ← lines? delimiter escapes fuel rest
        return (run ++ s, rest)
    else if c = '\\' ∧ escapes then
      match newLine? (skipSpace cs) with
      | some rest => lines? delimiter escapes fuel (skipBreaks rest)
      | none => do
        let (c, rest) ← escape? cs
        let (s, rest) ← lines? delimiter escapes fuel rest
        return (c :: s, rest)
    else
      match newLine? (c :: cs) with
      | some rest => do
        let (s, rest) ← lines? delimiter escapes fuel rest
        return ('\n' :: s, rest)
      | none =>
        if isText c then do
          let (s, rest) ← lines? delimiter escapes fuel cs
          return (c :: s, rest)
        else none

/-- A string of several lines, without the line break that may follow its opening delimiter. -/
def block? (delimiter : Char) (escapes : Bool) (cs : List Char) : Option (List Char × List Char) :=
  lines? delimiter escapes (cs.length + 1) ((newLine? cs).getD cs)

/-- A string of any kind, with its opening delimiter. -/
def string? : List Char → Option (String × List Char)
  | '"' :: '"' :: '"' :: cs => (block? '"' true cs).map fun (s, cs) => (String.ofList s, cs)
  | '\'' :: '\'' :: '\'' :: cs => (block? '\'' false cs).map fun (s, cs) => (String.ofList s, cs)
  | '"' :: cs => (basic? (cs.length + 1) cs).map fun (s, cs) => (String.ofList s, cs)
  | '\'' :: cs => (literal? cs).map fun (s, cs) => (String.ofList s, cs)
  | _ => none

end Toml

end SimBroker
