import SimBroker.Uuid
import SimBroker.Proofs.Text.Digit

/-!
# Reading UUIDs back

A UUID that is written is read back: its 32 digits give its number, and the hyphens stand where the
reader takes them out again.

## Main results

* `Uuid.natOfHexDigits?_hexDigits`: the last digits of a number, read back
* `Uuid.ofGroups?_append`: hyphens between five groups of digits
* `Uuid.ofChars?_toChars`, `Uuid.ofText?_toText`: what is written is read back
-/

namespace SimBroker

namespace Uuid

theorem length_hexDigits (width n : Nat) : (hexDigits width n).length = width := by
  rw [hexDigits, List.length_map, List.length_reverse, List.length_range]

/-- The last digit of a number stands after those of its sixteenth part. -/
theorem hexDigits_succ (width n : Nat) :
    hexDigits (width + 1) n = hexDigits width (n / 16) ++ [Nat.digitChar (n % 16)] := by
  have hshift (i : Nat) : n / Nat.pow 16 (i + 1) % 16 = n / 16 / Nat.pow 16 i % 16 := by
    rw [Nat.div_div_eq_div_mul]
    exact congrArg (n / · % 16) (Nat.pow_succ' (m := 16) (n := i))
  simp only [hexDigits, List.range_succ_eq_map, List.reverse_cons, List.map_append,
    List.map_singleton, ← List.map_reverse, List.map_map]
  congr 1
  · exact List.map_congr_left fun i _ => congrArg Nat.digitChar (hshift i)
  · exact congrArg (fun n => [Nat.digitChar (n % 16)]) (Nat.div_one n)

theorem natOfHexDigits?_hexDigits (width n : Nat) :
    natOfHexDigits? (hexDigits (width + 1) n) = some (n % 16 ^ (width + 1)) := by
  have hlt (n : Nat) : n % 16 < 16 := Nat.mod_lt n (by decide)
  induction width generalizing n with
  | zero =>
    rw [hexDigits_succ]
    exact natOfHexDigits?_singleton (hlt n)
  | succ width ih =>
    have hne : hexDigits (width + 1) (n / 16) ≠ [] :=
      List.ne_nil_of_length_pos (by rw [length_hexDigits]; exact Nat.succ_pos width)
    rw [hexDigits_succ, natOfHexDigits?_append hne (ih (n / 16)) (hlt n)]
    rw [Nat.pow_succ' (n := width + 1), Nat.mod_mul, Nat.mul_comm, Nat.add_comm]

theorem ofHex?_hexDigits (u : Uuid) : ofHex? (hexDigits 32 u.toNat) = some u := by
  have hn : u.toNat % 16 ^ 32 = u.toNat := Nat.mod_eq_of_lt u.lt
  rw [ofHex?, natOfHexDigits?_hexDigits, hn]
  exact dif_pos ⟨length_hexDigits 32 u.toNat, u.lt⟩

/-- The digits of five groups with hyphens between them. -/
theorem ofGroups?_append {a b c d e : List Char} (ha : a.length = 8) (hb : b.length = 4)
    (hc : c.length = 4) (hd : d.length = 4) (he : e.length = 12) :
    ofGroups? (a ++ '-' :: b ++ '-' :: c ++ '-' :: d ++ '-' :: e) =
      ofHex? (a ++ b ++ c ++ d ++ e) := by
  rw [ofGroups?, if_pos (by simp [ha, hb, hc, hd, he, List.getElem?_append])]
  congr 1
  simp [List.drop_append, ha, hb, hc, hd, List.drop_of_length_le]

theorem length_toChars (u : Uuid) : u.toChars.length = 36 := by
  simp [toChars, length_hexDigits]

/-- What is written is read back. -/
theorem ofChars?_toChars (u : Uuid) : ofChars? u.toChars = some u := by
  rw [ofChars?, length_toChars, if_neg (by decide), if_pos rfl]
  simp only [toChars]
  generalize hds : hexDigits 32 u.toNat = ds
  have hlength : ds.length = 32 := hds ▸ length_hexDigits 32 u.toNat
  rw [ofGroups?_append (by simp [hlength]) (by simp [hlength]) (by simp [hlength])
    (by simp [hlength]) (by simp [hlength])]
  have hjoin : ds.take 8 ++ (ds.drop 8).take 4 ++ (ds.drop 12).take 4 ++ (ds.drop 16).take 4 ++
      ds.drop 20 = ds := by
    simp only [← List.take_add, List.take_append_drop]
  rw [hjoin, ← hds]
  exact ofHex?_hexDigits u

theorem ofText?_toText (u : Uuid) : ofText? u.toText = some u := by
  rw [ofText?, toText, String.toList_ofList]
  exact ofChars?_toChars u

end Uuid

end SimBroker
