import SimBroker.Json.Parser
import SimBroker.Json.Printer
import SimBroker.Proofs.Text.Digit
import Mathlib.Data.List.Basic

/-!
# Reading JSON text back

The compact text of a value is read back if the value has no floats, its whole numbers have 64 bits
and it is not too deep.  A value is read from the front of a text, so what is shown is about its
text with a rest behind it; the rest matters for numbers alone, which end where no more characters
of a number follow.

## Main definitions

* `Json.Readable`: a value of at most a given depth that is read back
* `Json.EndsNumber`: what may follow a number

## Main results

* `Json.value?_quoteChars`: a string is read back, whatever its characters are
* `Json.value?_toChars`, `Json.ofChars?_toChars`, `Json.ofText?_toText`: a value is read back
* `Json.printable_toChars`: no control characters in a text, so it is one line
-/

namespace SimBroker

namespace Json

variable {c : Char} {cs rest : List Char} {d fuel n : Nat} {j : Json}

theorem skipSpace_cons (h : isSpace c = false) : skipSpace (c :: cs) = c :: cs :=
  List.dropWhile_cons_of_neg (by simp [h])

/-! ## Numbers -/

/-- A text with which no number goes on. -/
def EndsNumber (cs : List Char) : Prop :=
  ∀ c ∈ cs.head?, c.isDigit = false ∧ c ≠ '.' ∧ c ≠ 'e' ∧ c ≠ 'E'

theorem endsNumber_nil : EndsNumber [] := nofun

theorem endsNumber_cons (h : c.isDigit = false ∧ c ≠ '.' ∧ c ≠ 'e' ∧ c ≠ 'E') :
    EndsNumber (c :: cs) := by
  intro d hd
  cases hd
  exact h

theorem spanDigits_append {ds : List Char} (hds : ∀ c ∈ ds, c.isDigit) (hrest : EndsNumber rest) :
    spanDigits (ds ++ rest) = (ds, rest) := by
  have hhead : rest.takeWhile Char.isDigit = [] ∧ rest.dropWhile Char.isDigit = rest := by
    cases rest with
    | nil => exact ⟨rfl, rfl⟩
    | cons c rest =>
      have hc := (hrest c rfl).1
      exact ⟨List.takeWhile_cons_of_neg (by simp [hc]), List.dropWhile_cons_of_neg (by simp [hc])⟩
  rw [spanDigits, List.takeWhile_append_of_pos hds, List.dropWhile_append_of_pos hds, hhead.1,
    hhead.2, List.append_nil]

theorem number?_toDigits (negative : Bool) (n : Nat) (hrest : EndsNumber rest) :
    number? negative (Nat.toDigits 10 n ++ rest) =
      (number?.whole? negative (Nat.toDigits 10 n) n).map fun j => (j, rest) := by
  have hzero : ¬((Nat.toDigits 10 n).head? = some '0' ∧ (Nat.toDigits 10 n).length ≠ 1) := by
    rintro ⟨hhead, hlength⟩
    cases n with
    | zero => exact hlength rfl
    | succ n => exact head?_toDigits (Nat.succ_pos n) hhead
  rw [number?, spanDigits_append (fun c => isDigit_of_mem_toDigits) hrest]
  simp only [natOfDigits?_toDigits, Option.bind_eq_bind, Option.bind_some, if_neg hzero]
  cases rest with
  | nil => exact Option.map_eq_bind.symm
  | cons c rest =>
    obtain ⟨-, hpoint, he, hE⟩ := hrest c rfl
    split
    · next h => exact absurd (List.cons.inj h).1 hpoint
    · next h =>
      obtain ⟨rfl, rfl⟩ := List.cons.inj h
      rw [if_neg (not_or.mpr ⟨he, hE⟩), Option.map_eq_bind]
      rfl
    · next h => exact nomatch h

/-- A whole number of 64 bits, with or without a sign. -/
def IsWhole (n : Int) : Prop := -(UInt64.size / 2) ≤ n ∧ n < UInt64.size

theorem isSpace_of_isDigit (hc : c.isDigit) : isSpace c = false := by
  have hne {d : Char} (hd : d.isDigit = false) : (c == d) = false :=
    beq_eq_false_iff_ne.mpr (ne_of_isDigit hc hd)
  rw [isSpace, hne rfl, hne rfl, hne rfl, hne rfl]
  rfl

/-- A digit begins no other value. -/
theorem value?_of_isDigit (hc : c.isDigit) :
    value? (fuel + 1) d (c :: cs) = number? false (c :: cs) := by
  have hne {d : Char} (hd : d.isDigit = false) : c ≠ d := ne_of_isDigit hc hd
  simp only [value?, skipSpace_cons (isSpace_of_isDigit hc)]
  rw [if_neg (hne rfl), if_neg (hne rfl), if_neg (hne rfl), if_neg (hne rfl), if_neg (hne rfl),
    if_neg (hne rfl), if_neg (hne rfl)]

theorem exists_intChars_eq_cons (n : Int) :
    ∃ c cs, intChars n = c :: cs ∧ (c = '-' ∨ c.isDigit) := by
  obtain ⟨c, cs, hcs, hc, -⟩ := exists_toDigits_eq_cons n.natAbs
  rw [intChars, hcs]
  split
  · exact ⟨_, _, rfl, .inl rfl⟩
  · exact ⟨_, _, rfl, .inr hc⟩

theorem value?_intChars {n : Int} (hn : IsWhole n) (hrest : EndsNumber rest) :
    value? (fuel + 1) d (intChars n ++ rest) = some (.int n, rest) := by
  obtain ⟨hlo, hhi⟩ := hn
  have hsize : UInt64.size = 18446744073709551616 := rfl
  rw [hsize] at hlo hhi
  by_cases hneg : n < 0
  · have hwhole : number?.whole? true (Nat.toDigits 10 n.natAbs) n.natAbs = some (.int n) := by
      rw [number?.whole?, if_pos rfl, if_pos (by rw [hsize]; omega)]
      exact congrArg (fun n => some (int n)) (by omega)
    rw [intChars, if_pos hneg, List.append_assoc, List.singleton_append, value?,
      skipSpace_cons rfl]
    show number? true _ = _
    rw [number?_toDigits _ _ hrest, hwhole]
    rfl
  · have hwhole : number?.whole? false (Nat.toDigits 10 n.natAbs) n.natAbs = some (.int n) := by
      rw [number?.whole?, if_neg (by decide), if_pos (by rw [hsize]; omega)]
      exact congrArg (fun n => some (int n)) (by omega)
    rw [intChars, if_neg hneg, List.nil_append]
    obtain ⟨c, cs, hcs, hc, -⟩ := exists_toDigits_eq_cons n.natAbs
    rw [hcs, List.cons_append, value?_of_isDigit hc, ← List.cons_append, ← hcs,
      number?_toDigits _ _ hrest, hwhole]
    rfl

/-! ## Strings -/

/-- The code of a control character. -/
theorem escape?_control (hc : c.toNat < 0x20) :
    escape? ('u' :: '0' :: '0' :: hexChar (c.toNat / 16) :: hexChar (c.toNat % 16) :: rest) =
      some (c, rest) := by
  have hhigh : natOfHexDigits? ['0', '0', hexChar (c.toNat / 16)] = some (c.toNat / 16) :=
    (natOfHexDigits?_append (List.cons_ne_nil '0' ['0']) rfl (by omega)).trans
      (congrArg some (Nat.zero_add _))
  have hcode : natOfHexDigits? ['0', '0', hexChar (c.toNat / 16), hexChar (c.toNat % 16)] =
      some c.toNat :=
    (natOfHexDigits?_append (List.cons_ne_nil _ _) hhigh (by omega)).trans
      (congrArg some (Nat.div_add_mod' _ _))
  have hfour : fourHex? ('0' :: '0' :: hexChar (c.toNat / 16) :: hexChar (c.toNat % 16) :: rest) =
      some (c.toNat, rest) := by
    rw [fourHex?, hcode]
    rfl
  -- a control character is no half of a pair of surrogates
  show (fourHex? _).bind _ = _
  rw [hfour, Option.bind_some]
  show (if 0xDC00 ≤ c.toNat ∧ c.toNat ≤ 0xDFFF then none
    else if 0xD800 ≤ c.toNat ∧ c.toNat ≤ 0xDBFF then _ else some (Char.ofNat c.toNat, rest)) = _
  rw [if_neg (by omega), if_neg (by omega), Char.ofNat_toNat]

/-- A character of a string stands for itself, or is escaped. -/
theorem escapeChar_cases (c : Char) :
    (escapeChar c = [c] ∧ c ≠ '"' ∧ c ≠ '\\' ∧ 0x20 ≤ c.toNat) ∨
      ∃ cs, escapeChar c = '\\' :: cs ∧ (∀ d ∈ cs, 0x20 ≤ d.toNat) ∧
        ∀ rest, escape? (cs ++ rest) = some (c, rest) := by
  by_cases hshort : c ∈ ['"', '\\', '\x08', '\t', '\n', '\x0c', '\r']
  · -- each of these has an escape of one letter
    simp only [List.mem_cons, List.not_mem_nil, or_false] at hshort
    rcases hshort with rfl | rfl | rfl | rfl | rfl | rfl | rfl <;>
      exact .inr ⟨[_], rfl, List.forall_mem_singleton.mpr (by decide), fun _ => rfl⟩
  · simp only [List.mem_cons, List.not_mem_nil, or_false, not_or] at hshort
    obtain ⟨hquote, hbackslash, hb, ht, hn, hf, hr⟩ := hshort
    simp only [escapeChar, if_neg hquote, if_neg hbackslash, if_neg hb, if_neg ht, if_neg hn,
      if_neg hf, if_neg hr]
    by_cases hcontrol : c.toNat < 0x20
    · have hdigits : ∀ n < 16, 0x20 ≤ (hexChar n).toNat := by decide
      rw [if_pos hcontrol]
      refine .inr ⟨_, rfl, ?_, fun rest => ?_⟩
      · simp [hdigits (c.toNat / 16) (by omega), hdigits (c.toNat % 16) (by omega)]
      · simp only [List.cons_append, List.nil_append]
        exact escape?_control hcontrol
    · rw [if_neg hcontrol]
      exact .inl ⟨rfl, hquote, hbackslash, Nat.le_of_not_lt hcontrol⟩

/-- A character in a string is read in one round. -/
theorem stringBody_escapeChar (c : Char) :
    stringBody (fuel + 1) (escapeChar c ++ rest) =
      (stringBody fuel rest).map fun (cs, rest) => (c :: cs, rest) := by
  obtain ⟨heq, hquote, hbackslash, hprintable⟩ | ⟨cs, heq, -, hescape⟩ := escapeChar_cases c
  · rw [heq, List.singleton_append, stringBody, if_neg hquote, if_neg hbackslash,
      if_neg (Nat.not_lt_of_le hprintable)]
    cases stringBody fuel rest <;> rfl
  · rw [heq, List.cons_append, stringBody, if_neg (by decide), if_pos rfl, hescape]
    simp only [Option.bind_eq_bind, Option.bind_some]
    cases stringBody fuel rest <;> rfl

theorem stringBody_flatMap (cs : List Char) (hfuel : cs.length < fuel) :
    stringBody fuel (cs.flatMap escapeChar ++ '"' :: rest) = some (cs, rest) := by
  induction cs generalizing fuel with
  | nil =>
    obtain ⟨fuel, rfl⟩ := Nat.exists_eq_add_one.mpr hfuel
    rfl
  | cons c cs ih =>
    obtain ⟨fuel, rfl⟩ := Nat.exists_eq_add_one.mpr (Nat.zero_lt_of_lt hfuel)
    rw [List.flatMap_cons, List.append_assoc, stringBody_escapeChar,
      ih (Nat.lt_of_succ_lt_succ hfuel)]
    rfl

theorem length_le_flatMap_escapeChar (cs : List Char) :
    cs.length ≤ (cs.flatMap escapeChar).length := by
  induction cs with
  | nil => exact Nat.le_refl 0
  | cons c cs ih =>
    have hpos : 0 < (escapeChar c).length := by
      obtain ⟨heq, -⟩ | ⟨cs, heq, -⟩ := escapeChar_cases c <;> simp [heq]
    rw [List.flatMap_cons, List.length_append, List.length_cons]
    omega

/-- What is in quotes is read back. -/
theorem string?_flatMap (s : String) :
    string? (s.toList.flatMap escapeChar ++ '"' :: rest) = some (s, rest) := by
  have hle := length_le_flatMap_escapeChar s.toList
  rw [string?, stringBody_flatMap s.toList (by rw [List.length_append, List.length_cons]; omega)]
  exact congrArg (fun s => some (s, rest)) String.ofList_toList

theorem value?_quoteChars (s : String) :
    value? (fuel + 1) d (quoteChars s ++ rest) = some (.str s, rest) := by
  rw [quoteChars, List.append_assoc, List.cons_append, value?, skipSpace_cons rfl]
  show (string? (s.toList.flatMap escapeChar ++ '"' :: rest)).map _ = _
  rw [string?_flatMap]
  rfl

/-! ## Values -/

/-- A value without floats, whose whole numbers have 64 bits, at most so deep. -/
inductive Readable : (depth : Nat) → Json → Prop
  | null {d : Nat} : Readable d null
  | bool {d : Nat} (b : Bool) : Readable d (bool b)
  | int {d : Nat} {n : Int} : IsWhole n → Readable d (int n)
  | str {d : Nat} (s : String) : Readable d (str s)
  | arr {d : Nat} {items : List Json} : (∀ x ∈ items, Readable d x) → Readable (d + 1) (arr items)
  | obj {d : Nat} {members : List (String × Json)} :
    (∀ m ∈ members, Readable d m.2) → Readable (d + 1) (obj members)

/-- A text that is read as a value, whatever follows it. -/
def Reads (d : Nat) (cs : List Char) (j : Json) : Prop :=
  ∀ (fuel : Nat) (rest : List Char), 2 * cs.length ≤ fuel → EndsNumber rest →
    value? fuel d (cs ++ rest) = some (j, rest)

/-- The text of a value begins with no blank and no closing bracket. -/
theorem exists_toChars_eq_cons (h : Readable d j) :
    ∃ c cs, toChars j = c :: cs ∧ isSpace c = false ∧ c ≠ ']' := by
  cases h with
  | null => exact ⟨_, _, rfl, rfl, by decide⟩
  | bool b => cases b <;> exact ⟨_, _, rfl, rfl, by decide⟩
  | @int _ n _ =>
    obtain ⟨c, cs, hcs, rfl | hc⟩ := exists_intChars_eq_cons n
    · exact ⟨_, _, hcs, rfl, by decide⟩
    · exact ⟨_, _, hcs, isSpace_of_isDigit hc, ne_of_isDigit hc rfl⟩
  | str s => exact ⟨_, _, rfl, rfl, by decide⟩
  | @arr _ items _ => cases items <;> exact ⟨_, _, rfl, rfl, by decide⟩
  | @obj _ members _ =>
    rcases members with _ | ⟨⟨k, x⟩, members⟩ <;> exact ⟨_, _, rfl, rfl, by decide⟩

theorem items?_itemsChars {x : Json} {xs : List Json} (h : ∀ y ∈ x :: xs, Reads d (toChars y) y)
    (hfuel : 2 * (toChars x ++ itemsChars xs).length < fuel) :
    items? fuel d (toChars x ++ itemsChars xs ++ rest) = some (x :: xs, rest) := by
  induction xs generalizing x fuel with
  | nil =>
    obtain ⟨fuel, rfl⟩ := Nat.exists_eq_add_one.mpr (Nat.zero_lt_of_lt hfuel)
    rw [List.length_append] at hfuel
    -- neither a bracket nor a comma goes on with a number
    have hx := h x List.mem_cons_self fuel (']' :: rest) (by omega) (endsNumber_cons (by decide))
    rw [List.append_assoc, items?]
    show (value? fuel d (toChars x ++ ']' :: rest)).bind _ = _
    rw [hx]
    rfl
  | cons y ys ih =>
    obtain ⟨fuel, rfl⟩ := Nat.exists_eq_add_one.mpr (Nat.zero_lt_of_lt hfuel)
    rw [itemsChars, List.length_append, List.cons_append, List.length_cons] at hfuel
    have hx := h x List.mem_cons_self fuel (',' :: (toChars y ++ itemsChars ys ++ rest)) (by omega)
      (endsNumber_cons (by decide))
    have hys : items? fuel d (toChars y ++ itemsChars ys ++ rest) = some (y :: ys, rest) :=
      ih (fun z hz => h z (List.mem_cons_of_mem x hz)) (by omega)
    rw [List.append_assoc, items?]
    show (value? fuel d (toChars x ++ ',' :: (toChars y ++ itemsChars ys ++ rest))).bind _ = _
    rw [hx]
    show (items? fuel d (toChars y ++ itemsChars ys ++ rest)).bind _ = _
    rw [hys]
    rfl

/-- A member is read after its name. -/
theorem members?_quoteChars (k : String) :
    members? (fuel + 1) d (quoteChars k ++ ':' :: cs) =
      (value? fuel d cs).bind fun (x, rest) =>
        match skipSpace rest with
        | ',' :: rest => (members? fuel d rest).bind fun (ms, rest) => some ((k, x) :: ms, rest)
        | '\x7d' :: rest => some ([(k, x)], rest)
        | _ => none := by
  rw [quoteChars, List.append_assoc, List.cons_append, members?, skipSpace_cons rfl]
  simp only [List.cons_append, List.nil_append, string?_flatMap, Option.bind_eq_bind,
    Option.bind_some, skipSpace_cons (show isSpace ':' = false from rfl)]
  rfl

theorem members?_membersChars {k : String} {x : Json} {ms : List (String × Json)}
    (h : ∀ m ∈ (k, x) :: ms, Reads d (toChars m.2) m.2)
    (hfuel : 2 * (quoteChars k ++ ':' :: toChars x ++ membersChars ms).length < fuel) :
    members? fuel d (quoteChars k ++ ':' :: toChars x ++ membersChars ms ++ rest) =
      some ((k, x) :: ms, rest) := by
  induction ms generalizing k x fuel with
  | nil =>
    obtain ⟨fuel, rfl⟩ := Nat.exists_eq_add_one.mpr (Nat.zero_lt_of_lt hfuel)
    simp only [List.length_append, List.length_cons] at hfuel
    have hx : Reads d (toChars x) x := h (k, x) List.mem_cons_self
    have hx := hx fuel ('\x7d' :: rest) (by omega) (endsNumber_cons (by decide))
    rw [List.append_assoc, List.append_assoc, List.cons_append, members?_quoteChars]
    show (value? fuel d (toChars x ++ '\x7d' :: rest)).bind _ = _
    rw [hx]
    rfl
  | cons m ms ih =>
    obtain ⟨l, y⟩ := m
    obtain ⟨fuel, rfl⟩ := Nat.exists_eq_add_one.mpr (Nat.zero_lt_of_lt hfuel)
    simp only [membersChars, List.length_append, List.length_cons] at hfuel
    have hx : Reads d (toChars x) x := h (k, x) List.mem_cons_self
    have hx := hx fuel (',' :: (quoteChars l ++ ':' :: toChars y ++ membersChars ms ++ rest))
      (by omega) (endsNumber_cons (by decide))
    have hms : members? fuel d (quoteChars l ++ ':' :: toChars y ++ membersChars ms ++ rest) =
        some ((l, y) :: ms, rest) :=
      ih (fun z hz => h z (List.mem_cons_of_mem _ hz)) (by
        simp only [List.length_append, List.length_cons]
        omega)
    rw [List.append_assoc, List.append_assoc, List.cons_append, members?_quoteChars]
    show (value? fuel d (toChars x ++
      ',' :: (quoteChars l ++ ':' :: toChars y ++ membersChars ms ++ rest))).bind _ = _
    rw [hx]
    show (members? fuel d (quoteChars l ++ ':' :: toChars y ++ membersChars ms ++ rest)).bind _ = _
    rw [hms]
    rfl

/-- An array with an item is read after its opening bracket. -/
theorem value?_arr (hspace : isSpace c = false) (hne : c ≠ ']') :
    value? (fuel + 1) (d + 1) ('[' :: c :: cs) =
      (items? fuel d (c :: cs)).map fun (xs, rest) => (.arr xs, rest) := by
  have hbracket : isSpace '[' = false := rfl
  simp only [value?, skipSpace_cons hbracket, skipSpace_cons hspace]
  rw [if_neg (by decide), if_pos trivial]
  split
  · next h => exact absurd (List.cons.inj h).1 hne
  · rfl

/-- An object with a member is read after its opening brace. -/
theorem value?_obj :
    value? (fuel + 1) (d + 1) ('\x7b' :: '"' :: cs) =
      (members? fuel d ('"' :: cs)).map fun (ms, rest) => (.obj ms, rest) := by
  rw [value?, skipSpace_cons rfl]
  rfl

/-- The text of a value is not empty, so there is fuel for a first round. -/
theorem reads_of_succ (h : Readable d j)
    (hread : ∀ fuel rest, 2 * (toChars j).length ≤ fuel + 1 → EndsNumber rest →
      value? (fuel + 1) d (toChars j ++ rest) = some (j, rest)) : Reads d (toChars j) j := by
  intro fuel rest hfuel hrest
  obtain ⟨c, cs, hcs, -⟩ := exists_toChars_eq_cons h
  have hpos : 0 < fuel := by
    rw [hcs, List.length_cons] at hfuel
    omega
  obtain ⟨fuel, rfl⟩ := Nat.exists_eq_add_one.mpr hpos
  exact hread fuel rest hfuel hrest

/-- A value is read from the front of a text, up to what follows it. -/
theorem value?_toChars (h : Readable d j) : Reads d (toChars j) j := by
  -- on the value; a bracket takes one level of the depth, and its text pays for the fuel
  induction h with
  | null => exact reads_of_succ .null fun fuel rest _ _ => rfl
  | bool b => exact reads_of_succ (.bool b) fun fuel rest _ _ => by cases b <;> rfl
  | int hn => exact reads_of_succ (.int hn) fun fuel rest _ hrest => value?_intChars hn hrest
  | str s => exact reads_of_succ (.str s) fun fuel rest _ _ => value?_quoteChars s
  | @arr d items hitems ih =>
    refine reads_of_succ (.arr hitems) fun fuel rest hfuel _ => ?_
    cases items with
    | nil => rfl
    | cons x xs =>
      obtain ⟨c, cs, hcs, hspace, hne⟩ := exists_toChars_eq_cons (hitems x List.mem_cons_self)
      have hitems : items? fuel d (toChars x ++ itemsChars xs ++ rest) = some (x :: xs, rest) :=
        items?_itemsChars ih (by
          rw [toChars, List.cons_append, List.length_cons] at hfuel
          omega)
      rw [hcs] at hitems
      rw [toChars, hcs]
      exact (value?_arr hspace hne).trans
        (congrArg (Option.map fun (xs, rest) => (arr xs, rest)) hitems)
  | @obj d members hmembers ih =>
    refine reads_of_succ (.obj hmembers) fun fuel rest hfuel _ => ?_
    rcases members with _ | ⟨⟨k, x⟩, ms⟩
    · rfl
    · have hmembers :
          members? fuel d (quoteChars k ++ ':' :: toChars x ++ membersChars ms ++ rest) =
            some ((k, x) :: ms, rest) :=
        members?_membersChars ih (by
          rw [toChars, List.cons_append, List.cons_append, List.length_cons] at hfuel
          omega)
      rw [toChars]
      exact value?_obj.trans (congrArg (Option.map fun (ms, rest) => (obj ms, rest)) hmembers)

/-- What is written is read back. -/
theorem ofChars?_toChars (h : Readable maxDepth j) : ofChars? (toChars j) = some j := by
  have hread := value?_toChars h (2 * (toChars j).length + 2) [] (by omega) endsNumber_nil
  rw [List.append_nil] at hread
  rw [ofChars?, hread]
  rfl

theorem ofText?_toText (h : Readable maxDepth j) : ofText? (toText j) = some j := by
  rw [ofText?, toText, String.toList_ofList]
  exact ofChars?_toChars h

/-! ## One line -/

/-- No control character stands in a text. -/
def Printable (cs : List Char) : Prop := ∀ c ∈ cs, 0x20 ≤ c.toNat

theorem printable_append {cs ds : List Char} :
    Printable (cs ++ ds) ↔ Printable cs ∧ Printable ds := List.forall_mem_append

theorem printable_cons : Printable (c :: cs) ↔ 0x20 ≤ c.toNat ∧ Printable cs :=
  List.forall_mem_cons

theorem printable_quoteChars (s : String) : Printable (quoteChars s) := by
  refine printable_append.mpr ⟨printable_cons.mpr ⟨by decide, ?_⟩, by simp [Printable]⟩
  intro d hd
  obtain ⟨c, -, hd⟩ := List.mem_flatMap.mp hd
  obtain ⟨heq, -, -, hprintable⟩ | ⟨cs, heq, hcs, -⟩ := escapeChar_cases c
  · rw [heq, List.mem_singleton] at hd
    exact hd ▸ hprintable
  · rw [heq] at hd
    rcases List.mem_cons.mp hd with rfl | hd
    · decide
    · exact hcs d hd

theorem printable_intChars (n : Int) : Printable (intChars n) := by
  have hdigits : Printable (Nat.toDigits 10 n.natAbs) := fun c hc => by
    have hdigit := isDigit_of_mem_toDigits hc
    simp only [Char.isDigit, Bool.and_eq_true, decide_eq_true_eq, UInt32.le_iff_toNat_le] at hdigit
    exact Nat.le_trans (by decide) hdigit.1
  rw [intChars, printable_append]
  refine ⟨?_, hdigits⟩
  split <;> simp [Printable]

theorem printable_itemsChars {xs : List Json} (h : ∀ x ∈ xs, Printable (toChars x)) :
    Printable (itemsChars xs) := by
  induction xs with
  | nil => simp [Printable, itemsChars]
  | cons x xs ih =>
    obtain ⟨hx, hxs⟩ := List.forall_mem_cons.mp h
    rw [itemsChars, printable_append, printable_cons]
    exact ⟨⟨by decide, hx⟩, ih hxs⟩

theorem printable_membersChars {ms : List (String × Json)}
    (h : ∀ m ∈ ms, Printable (toChars m.2)) : Printable (membersChars ms) := by
  induction ms with
  | nil => simp [Printable, membersChars]
  | cons m ms ih =>
    obtain ⟨hm, hms⟩ := List.forall_mem_cons.mp h
    rw [membersChars, printable_append, printable_append, printable_cons, printable_cons]
    exact ⟨⟨⟨by decide, printable_quoteChars m.1⟩, by decide, hm⟩, ih hms⟩

/-- The text of a value is one line. -/
theorem printable_toChars (h : Readable d j) : Printable (toChars j) := by
  induction h with
  | null => simp [Printable, toChars]
  | bool b => cases b <;> simp [Printable, toChars]
  | int _ => exact printable_intChars _
  | str s => exact printable_quoteChars s
  | @arr _ items _ ih =>
    cases items with
    | nil => simp [Printable, toChars]
    | cons x xs =>
      obtain ⟨hx, hxs⟩ := List.forall_mem_cons.mp ih
      rw [toChars, printable_append, printable_cons]
      exact ⟨⟨by decide, hx⟩, printable_itemsChars hxs⟩
  | @obj _ members _ ih =>
    rcases members with _ | ⟨⟨k, x⟩, ms⟩
    · simp [Printable, toChars]
    · obtain ⟨hx, hms⟩ := List.forall_mem_cons.mp ih
      rw [toChars, printable_append, printable_append, printable_cons, printable_cons]
      exact ⟨⟨⟨by decide, printable_quoteChars k⟩, by decide, hx⟩, printable_membersChars hms⟩

/-- The text of an object ends with its closing brace. -/
theorem exists_membersChars_eq_append (ms : List (String × Json)) :
    ∃ cs, membersChars ms = cs ++ ['\x7d'] := by
  induction ms with
  | nil => exact ⟨[], rfl⟩
  | cons m ms ih =>
    obtain ⟨cs, hcs⟩ := ih
    refine ⟨',' :: quoteChars m.1 ++ ':' :: toChars m.2 ++ cs, ?_⟩
    rw [membersChars, hcs, List.append_assoc (_ ++ _)]

theorem exists_toChars_obj (members : List (String × Json)) :
    ∃ cs, toChars (obj members) = '\x7b' :: cs ++ ['\x7d'] := by
  rcases members with _ | ⟨⟨k, x⟩, ms⟩
  · exact ⟨[], rfl⟩
  · obtain ⟨cs, hcs⟩ := exists_membersChars_eq_append ms
    refine ⟨quoteChars k ++ ':' :: toChars x ++ cs, ?_⟩
    rw [toChars, hcs]
    simp only [List.cons_append, List.append_assoc]

end Json

end SimBroker
