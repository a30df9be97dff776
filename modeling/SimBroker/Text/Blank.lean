/-!
# White space

The characters of the Unicode property `White_Space`, and text without those at its ends.
-/

namespace SimBroker

/-- A white space character of Unicode, in or beyond ASCII. -/
def isBlank (c : Char) : Bool :=
  let n := c.toNat
  (9 ≤ n && n ≤ 13) || n == 0x20 || n == 0x85 || n == 0xA0 || n == 0x1680 ||
    (0x2000 ≤ n && n ≤ 0x200A) || n == 0x2028 || n == 0x2029 || n == 0x202F || n == 0x205F ||
    n == 0x3000

/-- The text from its first character that is not white space. -/
def skipBlank (cs : List Char) : List Char := cs.dropWhile isBlank

/-- The text without white space at its ends. -/
def trimBlank (cs : List Char) : List Char := (skipBlank (skipBlank cs).reverse).reverse

/-- The string without white space at its ends. -/
def trimmed (s : String) : String := String.ofList (trimBlank s.toList)

end SimBroker
