import SimBroker.Toml.Parser
import SimBroker.Proofs.Json.Text
import SimBroker.Proofs.Toml.Text

/-!
# Reading TOML values back

The value of a field is a string, a whole number or a truth value, and ends with its line.  Digits
alone are no date, no time and no float, so a number is read as the integer that was written.

## Main definitions

* `Toml.IsScalar`: the value of a field
* `Toml.ofScalar`: the value as TOML
* `Toml.Written`: a text that is read as the value of a field

## Main results

* `Toml.scalar?_toDigits`: a whole number is read back
* `Toml.exists_written`: the value of a field is read back
-/

namespace SimBroker

namespace Toml

variable {c : Char} {cs ds rest : List Char} {d fuel n width : Nat} {j : Json}

/-! ## Digits at the end of a line -/

theorem moreDigits_append (hds : ∀ c ∈ ds, c.isDigit) :
    moreDigits Char.isDigit (ds ++ '\n' :: rest) = (ds, '\n' :: rest) := by
  induction ds with
  | nil => rfl
  | cons c ds ih =>
    obtain ⟨hc, hds⟩ := List.forall_mem_cons.mp hds
    rw [List.cons_append, moreDigits.eq_def]
    split
    · next h => exact nomatch h
    · next h =>
      rw [(List.cons.inj h).1] at hc
      exact nomatch hc
    · next h =>
      obtain ⟨rfl, rfl⟩ := List.cons.inj h
      simp [hc, ih hds]

/-- The digits of a whole number are all taken. -/
theorem wholeDigits?_toDigits (n : Nat) :
    wholeDigits? (Nat.toDigits 10 n ++ '\n' :: rest) =
      some (Nat.toDigits 10 n, '\n' :: rest) := by
  cases n with
  | zero => rfl
  | succ n =>
    have hhead := head?_toDigits (Nat.succ_pos n)
    obtain ⟨c, cs, hcs, hc, hdigits⟩ := exists_toDigits_eq_cons (n + 1)
    rw [hcs] at hhead ⊢
    rw [List.cons_append, wholeDigits?.eq_def]
    split
    · next h => exact absurd (congrArg some (List.cons.inj h).1) hhead
    · rw [digits?, if_pos hc, moreDigits_append hdigits]

theorem sign_toDigits (n : Nat) :
    sign (Nat.toDigits 10 n ++ rest) = (false, Nat.toDigits 10 n ++ rest) := by
  obtain ⟨c, cs, hcs, hc, -⟩ := exists_toDigits_eq_cons n
  rw [hcs, List.cons_append, sign.eq_def]
  split
  · next h => exact absurd (List.cons.inj h).1 (ne_of_isDigit hc rfl)
  · next h => exact absurd (List.cons.inj h).1 (ne_of_isDigit hc rfl)
  · rfl

theorem numberOf_toDigits (n : Nat) : numberOf 10 (Nat.toDigits 10 n) = n := by
  have hfold (ds : List Char) (hds : ∀ c ∈ ds, c.isDigit) (m : Nat) :
      ds.foldl (fun n c => n * 10 + (hexDigit? c).getD 0) m = Nat.ofDigitChars 10 ds m := by
    induction ds generalizing m with
    | nil => rfl
    | cons c ds ih =>
      obtain ⟨hc, hds⟩ := List.forall_mem_cons.mp hds
      have hvalue : hexDigit? c = some (c.toNat - '0'.toNat) := by
        simp only [Char.isDigit, Bool.and_eq_true, decide_eq_true_eq] at hc
        exact if_pos hc
      rw [List.foldl_cons, hvalue, Nat.ofDigitChars_cons, Nat.mul_comm 10 m]
      exact ih hds _
  rw [numberOf, hfold _ (fun c => isDigit_of_mem_toDigits), Nat.ofDigitChars_ten_toDigits]

/-! ## Whole numbers -/

/-- Digits alone have no character of a date or time between them. -/
theorem mark?_drop {k : Nat} (hds : ∀ c ∈ ds, c.isDigit) (hc : c.isDigit = false)
    (hbreak : c ≠ '\n') (hk : k ≤ ds.length) : mark? c ((ds ++ '\n' :: rest).drop k) = none := by
  rw [List.drop_append_of_le_length hk]
  cases h : ds.drop k with
  | nil => exact if_neg hbreak.symm
  | cons e es =>
    have he : e.isDigit := hds e (List.mem_of_mem_drop (h ▸ List.mem_cons_self))
    exact if_neg (ne_of_isDigit he hc)

/-- A number of a fixed width ends within the digits. -/
theorem fixed?_append {low high : Nat} {r : Nat × List Char}
    (h : fixed? width low high (ds ++ '\n' :: rest) = some r) :
    width ≤ ds.length ∧ r.2 = (ds ++ '\n' :: rest).drop width := by
  rw [fixed?, Option.ite_none_right_eq_some, Option.some.injEq] at h
  obtain ⟨⟨-, hdigits, -⟩, rfl⟩ := h
  refine ⟨Nat.le_of_not_lt fun hlt => ?_, rfl⟩
  -- beyond the digits there is the line break
  obtain ⟨k, hk⟩ : ∃ k, width - ds.length = k + 1 := ⟨width - ds.length - 1, by omega⟩
  rw [List.take_append, hk, List.take_succ_cons, List.all_append, List.all_cons] at hdigits
  simp at hdigits

theorem moment?_append (hds : ∀ c ∈ ds, c.isDigit) : moment? (ds ++ '\n' :: rest) = none := by
  have hdate : afterDate? (ds ++ '\n' :: rest) = none := by
    rw [afterDate?]
    cases h : fixed? 4 0 9999 (ds ++ '\n' :: rest) with
    | none => rfl
    | some r =>
      obtain ⟨hle, hdrop⟩ := fixed?_append h
      simp [hdrop, mark?_drop hds (show '-'.isDigit = false from rfl) (by decide) hle]
  have htime : afterTime? (ds ++ '\n' :: rest) = none := by
    rw [afterTime?]
    cases h : fixed? 2 0 23 (ds ++ '\n' :: rest) with
    | none => rfl
    | some r =>
      obtain ⟨hle, hdrop⟩ := fixed?_append h
      simp [hdrop, mark?_drop hds (show ':'.isDigit = false from rfl) (by decide) hle]
  rw [moment?, afterMoment?, hdate]
  simp only [htime, Option.map_none]

theorem decimalFloat?_toDigits (n : Nat) :
    decimalFloat? (Nat.toDigits 10 n ++ '\n' :: rest) = none := by
  rw [decimalFloat?, sign_toDigits]
  simp only [wholeDigits?_toDigits, Option.bind_eq_bind, Option.bind_some]
  rfl

theorem specialFloat?_toDigits (n : Nat) :
    specialFloat? (Nat.toDigits 10 n ++ '\n' :: rest) = none := by
  obtain ⟨c, cs, hcs, hc, -⟩ := exists_toDigits_eq_cons n
  rw [specialFloat?, sign_toDigits, hcs]
  simp only [List.cons_append]
  split
  · next h => exact absurd (List.cons.inj h).1 (ne_of_isDigit hc rfl)
  · next h => exact absurd (List.cons.inj h).1 (ne_of_isDigit hc rfl)
  · rfl

theorem integer?_toDigits (hn : n < 2 ^ 63) :
    integer? (Nat.toDigits 10 n ++ '\n' :: rest) = some ((n : Int), '\n' :: rest) := by
  have hprefix : (basePrefixes.find? fun p =>
      p.1 == (Nat.toDigits 10 n ++ '\n' :: rest).take 2) = none := by
    obtain ⟨c, cs, hcs, -, hdigits⟩ := exists_toDigits_eq_cons n
    have hsecond : ∃ d ds, cs ++ '\n' :: rest = d :: ds ∧ (d = '\n' ∨ d.isDigit) := by
      cases cs with
      | nil => exact ⟨_, _, rfl, .inl rfl⟩
      | cons d ds => exact ⟨_, _, rfl, .inr (hdigits d List.mem_cons_self)⟩
    obtain ⟨d, ds, hd, hclass⟩ := hsecond
    have hne {e : Char} (he : e.isDigit = false) (hbreak : e ≠ '\n') : e ≠ d := by
      rintro rfl
      rcases hclass with heq | hdigit
      · exact hbreak heq
      · exact nomatch he.symm.trans hdigit
    rw [hcs, List.cons_append, hd]
    simp [basePrefixes, hne (e := 'x') rfl (by decide), hne (e := 'o') rfl (by decide),
      hne (e := 'b') rfl (by decide)]
  rw [integer?, hprefix]
  simp only [sign_toDigits, wholeDigits?_toDigits, numberOf_toDigits, Option.bind_eq_bind,
    Option.bind_some]
  show (if -9223372036854775808 ≤ (n : Int) ∧ (n : Int) ≤ 9223372036854775807 then
    some ((n : Int), '\n' :: rest) else none) = _
  rw [if_pos ⟨by omega, by omega⟩]

theorem scalar?_toDigits (hn : n < 2 ^ 63) :
    scalar? (Nat.toDigits 10 n ++ '\n' :: rest) = some (.int n, '\n' :: rest) := by
  obtain ⟨c, cs, hcs, hc, -⟩ := exists_toDigits_eq_cons n
  have hmoment : moment? (Nat.toDigits 10 n ++ '\n' :: rest) = none :=
    moment?_append fun c => isDigit_of_mem_toDigits
  rw [scalar?.eq_def]
  split
  · next h =>
    rw [hcs] at h
    exact absurd (List.cons.inj h).1 (ne_of_isDigit hc rfl)
  · next h =>
    rw [hcs] at h
    exact absurd (List.cons.inj h).1 (ne_of_isDigit hc rfl)
  · rw [hmoment, decimalFloat?_toDigits, specialFloat?_toDigits, integer?_toDigits hn]
    rfl

/-! ## Values of fields -/

/-- The value of a field: none, a string, a number of 63 bits or a truth value. -/
inductive IsScalar : Json → Prop
  | null : IsScalar .null
  | str (s : String) : IsScalar (.str s)
  | int {n : Nat} : n < 2 ^ 63 → IsScalar (.int n)
  | bool (b : Bool) : IsScalar (.bool b)

/-- Whether a field has a value. -/
def isPresent : Json → Bool
  | .null => false
  | _ => true

/-- The value of a field as TOML. -/
def ofScalar : Json → Toml
  | .str s => .str s
  | .int n => .int n
  | .bool b => .bool b
  | _ => .table []

theorem toJson_ofScalar (h : IsScalar j) (hpresent : isPresent j) : (ofScalar j).toJson = j := by
  cases h with
  | null => exact nomatch hpresent
  | str s => rfl
  | int _ => rfl
  | bool b => rfl

/-- A value that is no array and no table. -/
theorem value?_cons (harray : c ≠ '[') (htable : c ≠ '\x7b') :
    value? (fuel + 1) d (c :: cs) =
      ((string? (c :: cs)).map (fun (s, cs) => (.str s, cs)) <|> scalar? (c :: cs)) := by
  rw [value?.eq_def]
  simp only
  split
  · next h => exact absurd (List.cons.inj h).1 harray
  · next h => exact absurd (List.cons.inj h).1 htable
  · rfl

theorem string?_cons (hquote : c ≠ '"') (hapostrophe : c ≠ '\'') : string? (c :: cs) = none := by
  rw [string?.eq_def]
  split
  · next h => exact absurd (List.cons.inj h).1 hquote
  · next h => exact absurd (List.cons.inj h).1 hapostrophe
  · next h => exact absurd (List.cons.inj h).1 hquote
  · next h => exact absurd (List.cons.inj h).1 hapostrophe
  · rfl

theorem exists_quoteChars_eq_cons (cs : List Char) :
    ∃ c tail, quoteChars cs = c :: tail ∧ (c = '"' ∨ c = '\'') := by
  rw [quoteChars]
  split
  · exact ⟨_, _, rfl, .inl rfl⟩
  split
  · exact ⟨_, _, rfl, .inr rfl⟩
  split
  · exact ⟨_, _, rfl, .inl rfl⟩
  split
  · exact ⟨_, _, rfl, .inr rfl⟩
  split
  · exact ⟨_, _, rfl, .inl rfl⟩
  · exact ⟨_, _, rfl, .inl rfl⟩

/-- What is written as the value of a field is read back, up to the end of its line. -/
structure Written (j : Json) (cs : List Char) : Prop where
  scalarChars? : scalarChars? j = some cs
  /-- No white space stands in front. -/
  skipSpace_append (rest : List Char) : skipSpace (cs ++ rest) = cs ++ rest
  value? (fuel d : Nat) (rest : List Char) :
    value? (fuel + 1) d (cs ++ '\n' :: rest) = some (ofScalar j, '\n' :: rest)

theorem skipSpace_cons (h : isSpace c = false) : skipSpace (c :: cs) = c :: cs :=
  List.dropWhile_cons_of_neg (by simp [h])

theorem written_str (s : String) : Written (.str s) (quoteChars s.toList) where
  scalarChars? := rfl
  skipSpace_append rest := by
    obtain ⟨c, tail, htail, hc⟩ := exists_quoteChars_eq_cons s.toList
    rw [htail]
    rcases hc with rfl | rfl
    · exact skipSpace_cons rfl
    · exact skipSpace_cons rfl
  value? fuel d rest := by
    have hstring : string? (quoteChars s.toList ++ '\n' :: rest) = some (s, '\n' :: rest) := by
      refine string?_quoteChars s ?_ ?_
      · intro d hd
        cases hd
        decide
      · intro d hd
        cases hd
        decide
    obtain ⟨c, tail, htail, hc⟩ := exists_quoteChars_eq_cons s.toList
    have hopen : c ≠ '[' ∧ c ≠ '\x7b' := by rcases hc with rfl | rfl <;> decide
    rw [htail, List.cons_append] at hstring ⊢
    rw [value?_cons hopen.1 hopen.2, hstring]
    rfl

theorem written_int (hn : n < 2 ^ 63) : Written (.int n) (Nat.toDigits 10 n) where
  scalarChars? := by
    rw [Toml.scalarChars?, if_pos ⟨by omega, by omega⟩, Json.intChars, if_neg (by omega)]
    rfl
  skipSpace_append rest := by
    obtain ⟨c, tail, htail, hc, -⟩ := exists_toDigits_eq_cons n
    have hspace : isSpace c = false := by
      rw [isSpace, beq_eq_false_iff_ne.mpr (ne_of_isDigit hc rfl),
        beq_eq_false_iff_ne.mpr (ne_of_isDigit hc rfl)]
      rfl
    rw [htail]
    exact skipSpace_cons hspace
  value? fuel d rest := by
    have hscalar : scalar? (Nat.toDigits 10 n ++ '\n' :: rest) = some (.int n, '\n' :: rest) :=
      scalar?_toDigits hn
    obtain ⟨c, tail, htail, hc, -⟩ := exists_toDigits_eq_cons n
    have hne {d : Char} (hd : d.isDigit = false) : c ≠ d := ne_of_isDigit hc hd
    rw [htail, List.cons_append] at hscalar ⊢
    rw [value?_cons (hne rfl) (hne rfl), string?_cons (hne rfl) (hne rfl), hscalar]
    rfl

theorem exists_written (h : IsScalar j) (hpresent : isPresent j) : ∃ cs, Written j cs := by
  cases h with
  | null => exact nomatch hpresent
  | str s => exact ⟨_, written_str s⟩
  | int hn => exact ⟨_, written_int hn⟩
  | bool b =>
    cases b with
    | true => exact ⟨_, rfl, fun _ => skipSpace_cons rfl, fun _ _ _ => rfl⟩
    | false => exact ⟨_, rfl, fun _ => skipSpace_cons rfl, fun _ _ _ => rfl⟩

end Toml

end SimBroker
