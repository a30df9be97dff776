import SimBroker.Toml.Printer
import SimBroker.Toml.Text
import Mathlib.Data.List.Basic

/-!
# Reading TOML strings back

A string is read back in each of the kinds in which it may be written.  Basic strings hold any text,
by escapes; literal strings hold it as it is, so it must have no control characters.  In a string of
several lines a run of delimiters is read at once: up to two of them belong to the text, also in
front of the three that end it.

## Main definitions

* `Toml.NoDelimiter`: what may follow a string

## Main results

* `Toml.basic?_flatMap`, `Toml.literal?_append`: strings of one line
* `Toml.lines?_blockChars`, `Toml.lines?_literal`: strings of several lines
* `Toml.string?_quoteChars`: a string is read back, whatever its characters are
-/

namespace SimBroker

namespace Toml

variable {c delimiter : Char} {cs rest : List Char} {escapes severalLines : Bool} {fuel n q : Nat}

/-! ## Characters -/

theorem isText_of_not_needsEscape (h : needsEscape c = false) (hbreak : c ≠ '\n') : isText c := by
  by_cases htab : c = '\t'
  · subst htab
    rfl
  · simp only [needsEscape, Bool.or_eq_false_iff, Bool.and_eq_false_iff, decide_eq_false_iff_not,
      bne_eq_false_iff_eq, htab, hbreak, or_false, beq_eq_false_iff_ne] at h
    simp only [isText, Bool.or_eq_true, Bool.and_eq_true, decide_eq_true_eq, bne_iff_ne]
    exact .inr ⟨Nat.le_of_not_lt h.1, h.2⟩

/-- The number of a control character. -/
theorem escape?_numberedChars (h : needsEscape c) :
    ∃ cs, numberedChars c = '\\' :: 'u' :: cs ∧
      ∀ rest, escape? ('u' :: cs ++ rest) = some (c, rest) := by
  have hlt : c.toNat < 0x80 := by
    simp only [needsEscape, Bool.or_eq_true, Bool.and_eq_true, decide_eq_true_eq, bne_iff_ne,
      beq_iff_eq] at h
    omega
  have hdigits : ∀ n < 0x80, natOfHexDigits? ([n / 4096, n / 256, n / 16, n].map fun n =>
      (Nat.digitChar (n % 16)).toUpper) = some n := by decide
  refine ⟨_, rfl, fun rest => ?_⟩
  show numbered? 4 (List.map _ [_, _, _, _] ++ rest) = _
  rw [numbered?, List.take_left' (by rfl), hdigits _ hlt]
  show (if 4 = 4 ∧ c.toNat.isValidChar then some (Char.ofNat c.toNat, rest) else none) = _
  rw [if_pos ⟨rfl, c.valid⟩, Char.ofNat_toNat]

/-- A character of a basic string stands for itself, or is a line break that stays one, or is
escaped. -/
theorem escapeChar_cases (severalLines : Bool) (c : Char) :
    (escapeChar severalLines c = [c] ∧ c ≠ '"' ∧ c ≠ '\\' ∧ c ≠ '\n' ∧ c ≠ '\r' ∧ isText c) ∨
      (escapeChar severalLines c = [c] ∧ c = '\n' ∧ severalLines) ∨
      ∃ d cs, escapeChar severalLines c = '\\' :: d :: cs ∧ isSpace d = false ∧ d ≠ '\n' ∧
        d ≠ '\r' ∧ ∀ rest, escape? (d :: cs ++ rest) = some (c, rest) := by
  by_cases hbreak : c = '\n'
  · subst hbreak
    cases severalLines with
    | true => exact .inr (.inl ⟨rfl, rfl, rfl⟩)
    | false => exact .inr (.inr ⟨_, _, rfl, rfl, by decide, by decide, fun _ => rfl⟩)
  by_cases hshort : c ∈ ['\x08', '\t', '\x0c', '\r', '"', '\\']
  · -- each of these has an escape of one letter
    simp only [List.mem_cons, List.not_mem_nil, or_false] at hshort
    rcases hshort with rfl | rfl | rfl | rfl | rfl | rfl <;>
      exact .inr (.inr ⟨_, _, rfl, rfl, by decide, by decide, fun _ => rfl⟩)
  · simp only [List.mem_cons, List.not_mem_nil, or_false, not_or] at hshort
    obtain ⟨hb, ht, hf, hr, hquote, hbackslash⟩ := hshort
    simp only [escapeChar, if_neg hb, if_neg ht, if_neg hbreak, if_neg hf, if_neg hr,
      if_neg hquote, if_neg hbackslash]
    cases hcontrol : needsEscape c with
    | true =>
      obtain ⟨cs, hcs, hescape⟩ := escape?_numberedChars hcontrol
      exact .inr (.inr ⟨_, cs, hcs, rfl, by decide, by decide, hescape⟩)
    | false =>
      exact .inl ⟨rfl, hquote, hbackslash, hbreak, hr,
        isText_of_not_needsEscape hcontrol hbreak⟩

theorem length_escapeChar_pos (severalLines : Bool) (c : Char) :
    0 < (escapeChar severalLines c).length := by
  obtain ⟨heq, -⟩ | ⟨heq, -⟩ | ⟨d, cs, heq, -⟩ := escapeChar_cases severalLines c
  all_goals
    rw [heq]
    exact Nat.succ_pos _

/-! ## Strings of one line -/

theorem basic?_escapeChar (c : Char) :
    basic? (fuel + 1) (escapeChar false c ++ rest) =
      (basic? fuel rest).map fun (cs, rest) => (c :: cs, rest) := by
  obtain ⟨heq, hquote, hbackslash, -, -, htext⟩ | ⟨-, -, hlines⟩ | ⟨d, cs, heq, -, -, -, hescape⟩ :=
    escapeChar_cases false c
  · rw [heq, List.singleton_append, basic?, if_neg hquote, if_neg hbackslash, if_pos htext]
    cases basic? fuel rest <;> rfl
  · exact nomatch hlines
  · rw [heq, List.cons_append, basic?, if_neg (by decide), if_pos rfl, hescape]
    simp only [Option.bind_eq_bind, Option.bind_some]
    cases basic? fuel rest <;> rfl

theorem basic?_flatMap (cs : List Char) (hfuel : cs.length < fuel) :
    basic? fuel (cs.flatMap (escapeChar false) ++ '"' :: rest) = some (cs, rest) := by
  induction cs generalizing fuel with
  | nil =>
    obtain ⟨fuel, rfl⟩ := Nat.exists_eq_add_one.mpr hfuel
    rfl
  | cons c cs ih =>
    obtain ⟨fuel, rfl⟩ := Nat.exists_eq_add_one.mpr (Nat.zero_lt_of_lt hfuel)
    rw [List.flatMap_cons, List.append_assoc, basic?_escapeChar,
      ih (Nat.lt_of_succ_lt_succ hfuel)]
    rfl

theorem length_le_flatMap_escapeChar (cs : List Char) :
    cs.length ≤ (cs.flatMap (escapeChar false)).length := by
  induction cs with
  | nil => exact Nat.le_refl 0
  | cons c cs ih =>
    have hpos := length_escapeChar_pos false c
    rw [List.flatMap_cons, List.length_append, List.length_cons]
    omega

theorem literal?_append (h : ∀ c ∈ cs, c ≠ '\'' ∧ isText c) :
    literal? (cs ++ '\'' :: rest) = some (cs, rest) := by
  induction cs with
  | nil => rfl
  | cons c cs ih =>
    obtain ⟨⟨hc, htext⟩, hcs⟩ := List.forall_mem_cons.mp h
    rw [List.cons_append, literal?, if_neg hc, if_pos htext, ih hcs]
    rfl

/-! ## Strings of several lines -/

/-- A text that does not begin with a delimiter. -/
def NoDelimiter (delimiter : Char) (cs : List Char) : Prop := ∀ c ∈ cs.head?, c ≠ delimiter

theorem takeWhile_delimiters (hrest : NoDelimiter delimiter rest) :
    (List.replicate n delimiter ++ rest).takeWhile (· == delimiter) =
        List.replicate n delimiter ∧
      (List.replicate n delimiter ++ rest).dropWhile (· == delimiter) = rest := by
  have hrun : ∀ c ∈ List.replicate n delimiter, (c == delimiter) = true := fun c hc =>
    beq_iff_eq.mpr (List.eq_of_mem_replicate hc)
  have hhead : rest.takeWhile (· == delimiter) = [] ∧ rest.dropWhile (· == delimiter) = rest := by
    cases rest with
    | nil => exact ⟨rfl, rfl⟩
    | cons c rest =>
      have hc : ¬(c == delimiter) = true := by simpa using hrest c rfl
      exact ⟨List.takeWhile_cons_of_neg hc, List.dropWhile_cons_of_neg hc⟩
  rw [List.takeWhile_append_of_pos hrun, List.dropWhile_append_of_pos hrun, hhead.1, hhead.2,
    List.append_nil]
  exact ⟨rfl, rfl⟩

/-- Up to two delimiters belong to the text.  They are read in one round, and `k` bounds the rounds
that what follows them takes. -/
theorem lines?_replicate {k : Nat} {tail : List Char} (hn : n < 3) (hfuel : n + k < fuel)
    (hrest : NoDelimiter delimiter rest)
    (hread : ∀ f, k < f → lines? delimiter escapes f rest = some (cs, tail)) :
    lines? delimiter escapes fuel (List.replicate n delimiter ++ rest) =
      some (List.replicate n delimiter ++ cs, tail) := by
  cases n with
  | zero => exact hread fuel (by omega)
  | succ n =>
    obtain ⟨fuel, rfl⟩ := Nat.exists_eq_add_one.mpr (Nat.zero_lt_of_lt hfuel)
    obtain ⟨htake, hdrop⟩ := takeWhile_delimiters (n := n + 1) hrest
    rw [List.replicate_succ, List.cons_append] at htake hdrop ⊢
    rw [lines?, if_pos rfl, htake, hdrop]
    simp only [List.length_cons, List.length_replicate, delimiters?, if_pos hn,
      Option.bind_eq_bind, Option.bind_some, hread fuel (by omega)]
    rfl

/-- Three delimiters end the text, and up to two in front of them belong to it. -/
theorem lines?_end (hn : n < 3) (hrest : NoDelimiter delimiter rest) :
    lines? delimiter escapes (fuel + 1)
        (List.replicate n delimiter ++ (List.replicate 3 delimiter ++ rest)) =
      some (List.replicate n delimiter, rest) := by
  obtain ⟨htake, hdrop⟩ := takeWhile_delimiters (n := n + 3) hrest
  have hend : delimiters? (n + 2 + 1) = some (n, true) := by
    rw [delimiters?, if_neg (by omega), if_pos (by omega)]
    rfl
  rw [← List.append_assoc, List.replicate_append_replicate]
  rw [List.replicate_succ, List.cons_append] at htake hdrop ⊢
  rw [lines?, if_pos rfl, htake, hdrop]
  simp only [List.length_cons, List.length_replicate, hend, Option.bind_eq_bind, Option.bind_some,
    if_true]
  rw [← List.replicate_succ, List.take_replicate, Nat.min_eq_left (by omega)]
  rfl

theorem newLine?_cons (hbreak : c ≠ '\n') (hreturn : c ≠ '\r') : newLine? (c :: cs) = none := by
  unfold newLine?
  split
  · next h => exact absurd (List.cons.inj h).1 hbreak
  · next h => exact absurd (List.cons.inj h).1 hreturn
  · rfl

/-- A character that is no delimiter and begins no escape. -/
theorem lines?_cons (hdelimiter : c ≠ delimiter) (hescape : ¬(c = '\\' ∧ escapes))
    (hbreak : c = '\n' ∨ c ≠ '\r' ∧ isText c) :
    lines? delimiter escapes (fuel + 1) (c :: rest) =
      (lines? delimiter escapes fuel rest).map fun (cs, rest) => (c :: cs, rest) := by
  rw [lines?, if_neg hdelimiter, if_neg hescape]
  by_cases h : c = '\n'
  · subst h
    show (lines? delimiter escapes fuel rest).bind _ = _
    cases lines? delimiter escapes fuel rest <;> rfl
  · obtain ⟨hreturn, htext⟩ := hbreak.resolve_left h
    rw [newLine?_cons h hreturn]
    simp only [if_pos htext]
    cases lines? delimiter escapes fuel rest <;> rfl

/-- A character of a basic string that is not a quote left as it is. -/
theorem lines?_escapeChar (c : Char) :
    lines? '"' true (fuel + 1) (escapeChar true c ++ rest) =
      (lines? '"' true fuel rest).map fun (cs, rest) => (c :: cs, rest) := by
  obtain ⟨heq, hquote, hbackslash, -, hreturn, htext⟩ | ⟨heq, rfl, -⟩ |
    ⟨d, cs, heq, hspace, hbreak, hreturn, hescape⟩ := escapeChar_cases true c
  · rw [heq]
    exact lines?_cons hquote (fun h => hbackslash h.1) (.inr ⟨hreturn, htext⟩)
  · rw [heq]
    exact lines?_cons (by decide) (by decide) (.inl rfl)
  · have hskip : skipSpace (d :: cs ++ rest) = d :: (cs ++ rest) :=
      List.dropWhile_cons_of_neg (by simp [hspace])
    rw [heq, List.cons_append, lines?, if_neg (by decide), if_pos ⟨rfl, rfl⟩, hskip,
      newLine?_cons hbreak hreturn, hescape]
    simp only [Option.bind_eq_bind, Option.bind_some]
    cases lines? '"' true fuel rest <;> rfl

/-- What a character of a basic string is written as begins with no quote. -/
theorem noDelimiter_escapeChar (severalLines : Bool) (c : Char) :
    NoDelimiter '"' (escapeChar severalLines c ++ rest) := by
  obtain ⟨heq, hquote, -⟩ | ⟨heq, rfl, -⟩ | ⟨d, cs, heq, -⟩ := escapeChar_cases severalLines c
  all_goals
    rw [heq]
    intro d hd
    cases hd
  · exact hquote
  · decide
  · decide

/-- A delimiter goes on with the run in front of it. -/
theorem replicate_append_cons (n : Nat) (c : Char) (cs : List Char) :
    List.replicate n c ++ c :: cs = List.replicate (n + 1) c ++ cs := by
  rw [List.replicate_succ', List.append_assoc, List.singleton_append]

/-- A basic string of several lines, after `q` quotes of it. -/
theorem lines?_blockChars (hq : q < 3) (hfuel : q + cs.length < fuel)
    (hrest : NoDelimiter '"' rest) :
    lines? '"' true fuel
        (List.replicate q '"' ++ (blockChars q cs ++ (List.replicate 3 '"' ++ rest))) =
      some (List.replicate q '"' ++ cs, rest) := by
  -- the quotes in front are part of the induction, because a run of them is read at once
  induction cs generalizing q fuel with
  | nil =>
    obtain ⟨fuel, rfl⟩ := Nat.exists_eq_add_one.mpr (Nat.zero_lt_of_lt hfuel)
    rw [blockChars, List.nil_append, List.append_nil]
    exact lines?_end hq hrest
  | cons c cs ih =>
    rw [blockChars]
    split
    · next hquote =>
      -- a quote that stays one belongs to the run in front
      rw [hquote.1, List.cons_append, replicate_append_cons, replicate_append_cons]
      exact ih (by omega) (by rw [List.length_cons] at hfuel; omega)
    · -- any other character ends the run, and no quotes are left in front of the next
      rw [List.append_assoc]
      refine lines?_replicate hq hfuel (noDelimiter_escapeChar true c) fun f hf => ?_
      obtain ⟨f, rfl⟩ := Nat.exists_eq_add_one.mpr (Nat.zero_lt_of_lt hf)
      have hcs : lines? '"' true f (blockChars 0 cs ++ (List.replicate 3 '"' ++ rest)) =
          some (cs, rest) :=
        ih (q := 0) (by decide) (by rw [List.length_cons] at hf; omega)
      rw [lines?_escapeChar, hcs]
      rfl

/-- The longest run of a character, and the one under way, after another character. -/
def nextRun (c : Char) (runs : Nat × Nat) (d : Char) : Nat × Nat :=
  if d = c then (max runs.1 (runs.2 + 1), runs.2 + 1) else (runs.1, 0)

theorem longestRun_eq (c : Char) (cs : List Char) :
    longestRun c cs = (cs.foldl (nextRun c) (0, 0)).1 := rfl

theorem le_foldl_nextRun (c : Char) (cs : List Char) (runs : Nat × Nat) :
    runs.1 ≤ (cs.foldl (nextRun c) runs).1 := by
  induction cs generalizing runs with
  | nil => exact Nat.le_refl _
  | cons d cs ih =>
    refine Nat.le_trans ?_ (ih (nextRun c runs d))
    rw [nextRun]
    split
    · exact Nat.le_max_left ..
    · exact Nat.le_refl _

theorem not_mem_of_longestRun (h : longestRun c cs = 0) : c ∉ cs := by
  intro hc
  obtain ⟨before, after, rfl⟩ := List.append_of_mem hc
  rw [longestRun_eq, List.foldl_append, List.foldl_cons, nextRun, if_pos rfl] at h
  have hle := le_foldl_nextRun c after
    (max (before.foldl (nextRun c) (0, 0)).1 ((before.foldl (nextRun c) (0, 0)).2 + 1),
      (before.foldl (nextRun c) (0, 0)).2 + 1)
  omega

/-- A character that a literal string may hold. -/
def IsLiteral (c : Char) : Prop := c = '\n' ∨ c ≠ '\r' ∧ isText c

/-- A literal string of several lines, after `q` apostrophes of it. -/
theorem lines?_literal {longest : Nat} (hq : q < 3) (hcs : ∀ c ∈ cs, IsLiteral c)
    (hrun : (cs.foldl (nextRun '\'') (longest, q)).1 < 3) (hfuel : q + cs.length < fuel)
    (hrest : NoDelimiter '\'' rest) :
    lines? '\'' false fuel
        (List.replicate q '\'' ++ (cs ++ (List.replicate 3 '\'' ++ rest))) =
      some (List.replicate q '\'' ++ cs, rest) := by
  induction cs generalizing q fuel longest with
  | nil =>
    obtain ⟨fuel, rfl⟩ := Nat.exists_eq_add_one.mpr (Nat.zero_lt_of_lt hfuel)
    rw [List.nil_append, List.append_nil]
    exact lines?_end hq hrest
  | cons c cs ih =>
    obtain ⟨hc, hcs⟩ := List.forall_mem_cons.mp hcs
    rw [List.foldl_cons] at hrun
    by_cases hdelimiter : c = '\''
    · -- the run goes on, and is not longer than the longest
      have hle := le_foldl_nextRun '\'' cs (nextRun '\'' (longest, q) c)
      rw [nextRun, if_pos hdelimiter] at hrun hle
      rw [hdelimiter, List.cons_append, replicate_append_cons, replicate_append_cons]
      exact ih (by omega) hcs hrun (by rw [List.length_cons] at hfuel; omega)
    · rw [nextRun, if_neg hdelimiter] at hrun
      have hhead : NoDelimiter '\'' (c :: cs ++ (List.replicate 3 '\'' ++ rest)) := by
        intro d hd
        cases hd
        exact hdelimiter
      refine lines?_replicate hq hfuel hhead fun f hf => ?_
      obtain ⟨f, rfl⟩ := Nat.exists_eq_add_one.mpr (Nat.zero_lt_of_lt hf)
      have hread : lines? '\'' false f (cs ++ (List.replicate 3 '\'' ++ rest)) =
          some (cs, rest) :=
        ih (q := 0) (by decide) hcs hrun (by rw [List.length_cons] at hf; omega)
      rw [List.cons_append, lines?_cons hdelimiter (by simp) hc, hread]
      rfl

/-! ## Strings of any kind -/

theorem not_noDelimiter_cons : ¬NoDelimiter c (c :: cs) := fun h => h c rfl rfl

/-- One quote begins a basic string of one line. -/
theorem string?_quote (h : ∀ xs, cs ≠ '"' :: '"' :: xs) :
    string? ('"' :: cs) =
      (basic? (cs.length + 1) cs).map fun (s, cs) => (String.ofList s, cs) := by
  rw [string?.eq_def]
  split
  · next heq => exact absurd (List.cons.inj heq).2 (h _)
  · next heq => exact absurd (List.cons.inj heq).1 (by decide)
  · next heq => rw [(List.cons.inj heq).2]
  · next heq => exact absurd (List.cons.inj heq).1 (by decide)
  · next hne _ => exact absurd rfl (hne cs)

theorem string?_apostrophe (h : ∀ xs, cs ≠ '\'' :: '\'' :: xs) :
    string? ('\'' :: cs) = (literal? cs).map fun (s, cs) => (String.ofList s, cs) := by
  rw [string?.eq_def]
  split
  · next heq => exact absurd (List.cons.inj heq).1 (by decide)
  · next heq => exact absurd (List.cons.inj heq).2 (h _)
  · next heq => exact absurd (List.cons.inj heq).1 (by decide)
  · next heq => rw [(List.cons.inj heq).2]
  · next _ hne => exact absurd rfl (hne cs)

theorem string?_basic (cs : List Char) (hrest : NoDelimiter '"' rest) :
    string? ('"' :: cs.flatMap (escapeChar false) ++ ['"'] ++ rest) =
      some (String.ofList cs, rest) := by
  have hne (xs : List Char) : cs.flatMap (escapeChar false) ++ '"' :: rest ≠ '"' :: '"' :: xs := by
    intro h
    cases cs with
    | nil => exact not_noDelimiter_cons ((List.cons.inj h).2 ▸ hrest)
    | cons c cs =>
      rw [List.flatMap_cons, List.append_assoc] at h
      exact not_noDelimiter_cons (h ▸ noDelimiter_escapeChar false c)
  have hlength := length_le_flatMap_escapeChar cs
  rw [List.append_assoc, List.cons_append, List.singleton_append, string?_quote hne,
    basic?_flatMap cs (by rw [List.length_append]; omega)]
  rfl

theorem string?_literal (hcs : ∀ c ∈ cs, c ≠ '\'' ∧ isText c) (hrest : NoDelimiter '\'' rest) :
    string? ('\'' :: cs ++ ['\''] ++ rest) = some (String.ofList cs, rest) := by
  have hne (xs : List Char) : cs ++ '\'' :: rest ≠ '\'' :: '\'' :: xs := by
    intro h
    cases cs with
    | nil => exact not_noDelimiter_cons ((List.cons.inj h).2 ▸ hrest)
    | cons c cs => exact (hcs c List.mem_cons_self).1 (List.cons.inj h).1
  rw [List.append_assoc, List.cons_append, List.singleton_append, string?_apostrophe hne,
    literal?_append hcs]
  rfl

/-- The line break that a string of several lines has in front is none of its text. -/
theorem block?_append {body : List Char}
    (hread : ∀ f, cs.length < f →
      lines? delimiter escapes f (body ++ (List.replicate 3 delimiter ++ rest)) = some (cs, rest))
    (hlength : cs.length ≤ body.length)
    (hline : '\n' ∉ cs → newLine? (body ++ (List.replicate 3 delimiter ++ rest)) = none) :
    block? delimiter escapes ((if cs.contains '\n' then ['\n'] else []) ++
      (body ++ (List.replicate 3 delimiter ++ rest))) = some (cs, rest) := by
  split
  · exact hread _ (by simp only [List.length_append]; omega)
  · next hbreak =>
    rw [List.nil_append, block?, hline (by simpa using hbreak)]
    exact hread _ (by simp only [List.length_append]; omega)

theorem length_le_blockChars (q : Nat) (cs : List Char) : cs.length ≤ (blockChars q cs).length := by
  induction cs generalizing q with
  | nil => exact Nat.zero_le _
  | cons c cs ih =>
    rw [blockChars]
    split
    · exact Nat.succ_le_succ (ih (q + 1))
    · have hpos := length_escapeChar_pos true c
      have hle := ih 0
      rw [List.length_append, List.length_cons]
      omega

/-- A basic string of several lines does not begin with a line break, unless its text has one. -/
theorem newLine?_blockChars (h : '\n' ∉ cs) :
    newLine? (blockChars 0 cs ++ (List.replicate 3 '"' ++ rest)) = none := by
  cases cs with
  | nil => rfl
  | cons c cs =>
    rw [blockChars]
    split
    · exact newLine?_cons (by decide) (by decide)
    · obtain ⟨heq, -, -, hbreak, hreturn, -⟩ | ⟨-, rfl, -⟩ | ⟨d, ds, heq, -⟩ :=
        escapeChar_cases true c
      · rw [heq]
        exact newLine?_cons hbreak hreturn
      · exact absurd List.mem_cons_self h
      · rw [heq]
        exact newLine?_cons (by decide) (by decide)

theorem string?_basicBlock (cs : List Char) (hrest : NoDelimiter '"' rest) :
    string? (blockOf '"' cs (blockChars 0 cs) ++ rest) = some (String.ofList cs, rest) := by
  have hread (f : Nat) (hf : cs.length < f) :
      lines? '"' true f (blockChars 0 cs ++ (List.replicate 3 '"' ++ rest)) = some (cs, rest) :=
    lines?_blockChars (q := 0) (by decide) (by omega) hrest
  have hblock := block?_append hread (length_le_blockChars 0 cs) newLine?_blockChars
  rw [blockOf]
  simp only [List.append_assoc]
  exact congrArg (Option.map fun (s, cs) => (String.ofList s, cs)) hblock

theorem string?_literalBlock (hcs : ∀ c ∈ cs, IsLiteral c) (hrun : longestRun '\'' cs ≤ 2)
    (hrest : NoDelimiter '\'' rest) :
    string? (blockOf '\'' cs cs ++ rest) = some (String.ofList cs, rest) := by
  have hread (f : Nat) (hf : cs.length < f) :
      lines? '\'' false f (cs ++ (List.replicate 3 '\'' ++ rest)) = some (cs, rest) :=
    lines?_literal (q := 0) (by decide) hcs (Nat.lt_succ_of_le hrun) (by omega) hrest
  have hline (h : '\n' ∉ cs) : newLine? (cs ++ (List.replicate 3 '\'' ++ rest)) = none := by
    cases cs with
    | nil => rfl
    | cons c cs =>
      have hbreak : c ≠ '\n' := fun heq => h (heq ▸ List.mem_cons_self)
      have hc := (hcs c List.mem_cons_self).resolve_left hbreak
      exact newLine?_cons hbreak hc.1
  have hblock := block?_append hread (Nat.le_refl _) hline
  rw [blockOf]
  simp only [List.append_assoc]
  exact congrArg (Option.map fun (s, cs) => (String.ofList s, cs)) hblock

/-- A string is read back, in whichever kind it is written. -/
theorem string?_quoteChars (s : String) (hquote : NoDelimiter '"' rest)
    (hapostrophe : NoDelimiter '\'' rest) :
    string? (quoteChars s.toList ++ rest) = some (s, rest) := by
  have hliteral (h : (!s.toList.any needsEscape) = true) : ∀ c ∈ s.toList, IsLiteral c := by
    intro c hc
    have hc : needsEscape c = false := by
      simp only [Bool.not_eq_true', List.any_eq_false] at h
      simpa using h c hc
    by_cases hbreak : c = '\n'
    · exact .inl hbreak
    · refine .inr ⟨?_, isText_of_not_needsEscape hc hbreak⟩
      rintro rfl
      exact nomatch hc
  have hs : some (String.ofList s.toList, rest) = some (s, rest) := by rw [String.ofList_toList]
  rw [quoteChars, ← hs]
  simp only [Bool.and_eq_true]
  -- the kinds are tried in the order in which they are written
  split
  · exact string?_basic _ hquote
  split
  · next h =>
    -- a literal string: neither apostrophes nor line breaks are in it
    obtain ⟨⟨hcontrols, hruns⟩, hbreaks⟩ := h
    refine string?_literal (fun c hc => ⟨?_, ?_⟩) hapostrophe
    · rintro rfl
      exact not_mem_of_longestRun (by simpa using hruns) hc
    · refine ((hliteral hcontrols c hc).resolve_left ?_).2
      rintro rfl
      simp [hc] at hbreaks
  split
  · exact string?_basicBlock _ hquote
  split
  · next h =>
    obtain ⟨hcontrols, hruns⟩ := h
    exact string?_literalBlock (hliteral hcontrols) (by simpa using hruns) hapostrophe
  split
  · exact string?_basicBlock _ hquote
  · exact string?_basic _ hquote

end Toml

end SimBroker
