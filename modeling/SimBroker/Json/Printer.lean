import SimBroker.Json.Basic

/-!
# Writing JSON

The compact form, without white space, and a form with one member or item a line.  In a string,
the quote, the backslash and the control characters are escaped, and nothing else.
-/

namespace SimBroker

namespace Json

/-- A hexadecimal digit, in lower case. -/
def hexChar (n : Nat) : Char := Nat.digitChar n

/-- One character of a string. -/
def escapeChar (c : Char) : List Char :=
  if c = '"' then ['\\', '"']
  else if c = '\\' then ['\\', '\\']
  else if c = '\x08' then ['\\', 'b']
  else if c = '\t' then ['\\', 't']
  else if c = '\n' then ['\\', 'n']
  else if c = '\x0c' then ['\\', 'f']
  else if c = '\r' then ['\\', 'r']
  else if c.toNat < 0x20 then ['\\', 'u', '0', '0', hexChar (c.toNat / 16), hexChar (c.toNat % 16)]
  else [c]

/-- A string in quotes. -/
def quoteChars (s : String) : List Char := '"' :: s.toList.flatMap escapeChar ++ ['"']

/-- A whole number. -/
def intChars (n : Int) : List Char :=
  (if n < 0 then ['-'] else []) ++ Nat.toDigits 10 n.natAbs

/-- The digits of a finite float; JSON has no text for any other. -/
def floatChars : Binary64 → List Char
  | .finite negative m e =>
    let (c, g) := if m = 0 then (0, -1) else Binary64.shortest m e
    (if negative then ['-'] else []) ++ Nat.toDigits 10 c ++ 'e' :: intChars g
  | _ => "null".toList

mutual

/-- The compact form. -/
def toChars : Json → List Char
  | null => "null".toList
  | bool true => "true".toList
  | bool false => "false".toList
  | int n => intChars n
  | float x => floatChars x
  | str s => quoteChars s
  | arr [] => ['[', ']']
  | arr (x :: xs) => '[' :: toChars x ++ itemsChars xs
  | obj [] => ['\x7b', '\x7d']
  | obj ((k, x) :: ms) => '\x7b' :: quoteChars k ++ ':' :: toChars x ++ membersChars ms

/-- The items after the first, and the closing bracket. -/
def itemsChars : List Json → List Char
  | [] => [']']
  | x :: xs => ',' :: toChars x ++ itemsChars xs

/-- The members after the first, and the closing brace. -/
def membersChars : List (String × Json) → List Char
  | [] => ['\x7d']
  | (k, x) :: ms => ',' :: quoteChars k ++ ':' :: toChars x ++ membersChars ms

end

/-- The compact form as a string. -/
def toText (j : Json) : String := String.ofList j.toChars

/-- A new line and an indentation of two blanks a level. -/
def breakLine (depth : Nat) : List Char := '\n' :: List.replicate (2 * depth) ' '

mutual

/-- The form with one item or member a line, inside `depth` brackets. -/
def prettyChars (depth : Nat) : Json → List Char
  | arr (x :: xs) =>
    '[' :: breakLine (depth + 1) ++ prettyChars (depth + 1) x ++ prettyItems depth xs
  | obj ((k, x) :: ms) =>
    '\x7b' :: breakLine (depth + 1) ++ quoteChars k ++ ':' :: ' ' :: prettyChars (depth + 1) x ++
      prettyMembers depth ms
  | j => toChars j

/-- The items after the first, each on its line. -/
def prettyItems (depth : Nat) : List Json → List Char
  | [] => breakLine depth ++ [']']
  | x :: xs => ',' :: breakLine (depth + 1) ++ prettyChars (depth + 1) x ++ prettyItems depth xs

/-- The members after the first, each on its line. -/
def prettyMembers (depth : Nat) : List (String × Json) → List Char
  | [] => breakLine depth ++ ['\x7d']
  | (k, x) :: ms =>
    ',' :: breakLine (depth + 1) ++ quoteChars k ++ ':' :: ' ' :: prettyChars (depth + 1) x ++
      prettyMembers depth ms

end

/-- The form with one item or member a line. -/
def toPrettyText (j : Json) : String := String.ofList (prettyChars 0 j)

end Json

end SimBroker
