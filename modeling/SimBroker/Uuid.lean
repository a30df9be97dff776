import SimBroker.Text.Digit

/-!
# UUIDs

A UUID is a number of 128 bits, written as 32 hexadecimal digits in groups of 8, 4, 4, 4 and 12.
It may also be read without hyphens, in braces or as a URN, and in either case.
-/

namespace SimBroker

/-- `2 ^ 128`. -/
abbrev uuidBound : Nat := 340282366920938463463374607431768211456

/-- A universally unique identifier. -/
structure Uuid where
  toNat : Nat
  lt : toNat < uuidBound
  deriving DecidableEq

namespace Uuid

instance : Inhabited Uuid := ⟨⟨0, by decide⟩⟩

/-- The UUID of a number, modulo the bound. -/
def ofNat (n : Nat) : Uuid := ⟨n % uuidBound, Nat.mod_lt _ (by decide)⟩

/-- The next UUID in order; after the last comes the first. -/
def next (u : Uuid) : Uuid := ofNat (u.toNat + 1)

/-- The last `width` hexadecimal digits of `n`. -/
def hexDigits (width n : Nat) : List Char :=
  (List.range width).reverse.map fun i => Nat.digitChar (n / Nat.pow 16 i % 16)

/-- The text of a UUID. -/
def toChars (u : Uuid) : List Char :=
  let ds := hexDigits 32 u.toNat
  ds.take 8 ++ '-' :: (ds.drop 8).take 4 ++ '-' :: (ds.drop 12).take 4 ++
    '-' :: (ds.drop 16).take 4 ++ '-' :: ds.drop 20

/-- The text of a UUID, as a string. -/
def toText (u : Uuid) : String := String.ofList u.toChars

instance : ToString Uuid := ⟨toText⟩

/-- Reads 32 hexadecimal digits. -/
def ofHex? (cs : List Char) : Option Uuid := do
  let n ← natOfHexDigits? cs
  if h : cs.length = 32 ∧ n < uuidBound then some ⟨n, h.2⟩ else none

/-- Reads the form with hyphens. -/
def ofGroups? (cs : List Char) : Option Uuid :=
  let hyphens := [8, 13, 18, 23]
  if cs.length = 36 ∧ hyphens.all (fun i => cs[i]? == some '-') then
    ofHex? (cs.take 8 ++ (cs.drop 9).take 4 ++ (cs.drop 14).take 4 ++ (cs.drop 19).take 4 ++
      cs.drop 24)
  else none

/-- Reads a UUID: 32 digits, the form with hyphens, or that form in braces or after `urn:uuid:`. -/
def ofChars? (cs : List Char) : Option Uuid :=
  if cs.length = 32 then ofHex? cs
  else if cs.length = 36 then ofGroups? cs
  else if cs.length = 38 ∧ cs.head? = some '\x7b' ∧ cs.getLast? = some '\x7d' then
    ofGroups? ((cs.drop 1).take 36)
  else if cs.length = 45 ∧ (cs.take 9).map Char.toLower = "urn:uuid:".toList then
    ofGroups? (cs.drop 9)
  else none

/-- Reads a UUID from a string. -/
def ofText? (s : String) : Option Uuid := ofChars? s.toList

end Uuid

end SimBroker
