import SimBroker.Json.Codec
import SimBroker.Json.Printer

/-!
# Writing TOML

A record of records is written as sections, each a header and a line for every field; fields without
a value are left out.  A string is written in the plainest of the four kinds that can hold it: basic
without escapes, literal, basic or literal on several lines, and only then basic with escapes.
-/

namespace SimBroker

namespace Toml

/-! ## Strings -/

/-- The length of the longest run of a character. -/
def longestRun (c : Char) (cs : List Char) : Nat :=
  (cs.foldl (fun (longest, run) d =>
    if d = c then (max longest (run + 1), run + 1) else (longest, 0)) (0, 0)).1

/-- A control character that only an escape can write. -/
def needsEscape (c : Char) : Bool := (c.toNat < 0x20 && c != '\t' && c != '\n') || c.toNat == 0x7F

/-- A character by its number, in four hexadecimal digits. -/
def numberedChars (c : Char) : List Char :=
  '\\' :: 'u' :: [c.toNat / 4096, c.toNat / 256, c.toNat / 16, c.toNat].map fun n =>
    (Nat.digitChar (n % 16)).toUpper

/-- A character of a basic string.  A line break stays one in a string of several lines. -/
def escapeChar (severalLines : Bool) (c : Char) : List Char :=
  if c = '\x08' then ['\\', 'b']
  else if c = '\t' then ['\\', 't']
  else if c = '\n' then (if severalLines then ['\n'] else ['\\', 'n'])
  else if c = '\x0c' then ['\\', 'f']
  else if c = '\r' then ['\\', 'r']
  else if c = '"' then ['\\', '"']
  else if c = '\\' then ['\\', '\\']
  else if needsEscape c then numberedChars c
  else [c]

/-- The characters of a basic string of several lines: of three quotes in a row, one is escaped.
`quotes` is the number of quotes in front. -/
def blockChars : (quotes : Nat) → List Char → List Char
  | _, [] => []
  | quotes, c :: cs =>
    if c = '"' ∧ quotes < 2 then '"' :: blockChars (quotes + 1) cs
    else escapeChar true c ++ blockChars 0 cs

/-- Text between delimiters of three characters; a line break follows the first if there is one in
the text. -/
def blockOf (delimiter : Char) (text body : List Char) : List Char :=
  let mark := List.replicate 3 delimiter
  mark ++ (if text.contains '\n' then ['\n'] else []) ++ body ++ mark

/-- A string, in the plainest kind that can hold it. -/
def quoteChars (cs : List Char) : List Char :=
  let controls := cs.any needsEscape
  let backslash := cs.contains '\\'
  let breaks := cs.contains '\n'
  let quotes := longestRun '"' cs
  let apostrophes := longestRun '\'' cs
  if !controls && !backslash && quotes = 0 && !breaks then
    '"' :: cs.flatMap (escapeChar false) ++ ['"']
  else if !controls && apostrophes = 0 && !breaks then '\'' :: cs ++ ['\'']
  else if !controls && !backslash && quotes ≤ 2 then blockOf '"' cs (blockChars 0 cs)
  else if !controls && apostrophes ≤ 2 then blockOf '\'' cs cs
  else if breaks then blockOf '"' cs (blockChars 0 cs)
  else '"' :: cs.flatMap (escapeChar false) ++ ['"']

/-! ## Sections -/

/-- The value of a field; none if it is no string, integer of 64 bits or truth value. -/
def scalarChars? : Json → Option (List Char)
  | .str s => some (quoteChars s.toList)
  | .int n =>
    if -9223372036854775808 ≤ n ∧ n ≤ 9223372036854775807 then some (Json.intChars n) else none
  | .bool true => some "true".toList
  | .bool false => some "false".toList
  | _ => none

/-- The line of a field; a field without a value has none. -/
def fieldChars? (field : String × Json) : Option (List Char) :=
  match field.2 with
  | .null => some []
  | value => (scalarChars? value).map fun cs =>
    field.1.toList ++ [' ', '=', ' '] ++ cs ++ ['\n']

/-- A section: its header, and a line for every field. -/
def sectionChars? (entry : String × Json) : Option (List Char) := do
  let lines ← entry.2.members.mapM fieldChars?
  return '[' :: entry.1.toList ++ [']', '\n'] ++ lines.flatten

/-- The document of a record of records, with an empty line between the sections. -/
def documentChars? (record : Json) : Option (List Char) := do
  let sections ← record.members.mapM sectionChars?
  return (sections.intersperse ['\n']).flatten

end Toml

end SimBroker
