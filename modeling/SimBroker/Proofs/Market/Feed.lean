import SimBroker.Market.Feed
import SimBroker.Proofs.Json.Text
import SimBroker.Proofs.Market.Codec
import SimBroker.Proofs.Text.Blank

/-!
# Replaying what was recorded

A feed is recorded as one line for each event.  The line of an event is an object in one line, so it
is not cut in two and is no comment, and white space around it does not matter.  Blank lines,
comments and lines that are no event hold none, so replaying a recorded feed gives its events in
their order.

## Main definitions

* `Feed.Line`: a line of a recorded feed
* `Feed.text`: the text of the lines

## Main results

* `MarketEvent.ofChars_toLine`: the line of an event is read back
* `Feed.events_text`: the events of a recorded feed
* `Feed.replay_text`: replaying gives the events that were recorded, by the values of their decimals
-/

namespace SimBroker

open Json (SameValues encode mapDecimals)

/-! ## The line of an event -/

namespace MarketEvent

theorem readable_encode {d : Nat} (e : MarketEvent) : Json.Readable (d + 1) (encode e) := by
  have hdecimal (a : Decimal) : Json.Readable d (encode a) := .str _
  have hatr (a : Option Decimal) : Json.Readable d (encode a) := by
    cases a with
    | none => exact .null
    | some a => exact .str _
  cases e with
  | price t =>
    refine .obj ?_
    simp only [PriceTick.members, List.forall_mem_cons, List.not_mem_nil, false_implies,
      implies_true, and_true]
    exact ⟨.str _, .str _, .str _, .str _⟩
  | candle c =>
    refine .obj ?_
    simp only [Candle.members, List.forall_mem_cons, List.not_mem_nil, false_implies,
      implies_true, and_true]
    exact ⟨.str _, .str _, .str _, .str _, .str _, .str _, .str _, .str _, .str _, .str _⟩
  | signal s =>
    refine .obj ?_
    simp only [Signal.members, List.forall_mem_cons, List.not_mem_nil, false_implies,
      implies_true, and_true]
    exact ⟨.str _, .str _, .str _, .str _, .str _, .str _, .str _, .str _, hatr s.atr, .str _⟩

/-- The line of an event is an object. -/
theorem exists_toLine_eq (e : MarketEvent) : ∃ cs, e.toLine = '\x7b' :: cs ++ ['\x7d'] := by
  cases e <;> exact Json.exists_toChars_obj _

/-- The line of an event has no line break in it. -/
theorem newline_not_mem_toLine (e : MarketEvent) : '\n' ∉ e.toLine := fun h =>
  absurd (Json.printable_toChars (e.readable_encode (d := 0)) _ h) (by decide)

/-- The line of an event is read back, with white space around it. -/
theorem ofChars_toLine (e : MarketEvent) {before after : List Char}
    (hbefore : ∀ c ∈ before, isBlank c) (hafter : ∀ c ∈ after, isBlank c) :
    FeedLine.ofChars (before ++ e.toLine ++ after) = .event (mapDecimals Decimal.plain e) := by
  have hread : (Json.ofChars? e.toLine).bind Json.decode? = some (mapDecimals Decimal.plain e) := by
    rw [toLine, Json.ofChars?_toChars (e.readable_encode (d := 126))]
    exact Json.read?_encode .document trivial
  obtain ⟨cs, hcs⟩ := e.exists_toLine_eq
  rw [hcs] at hread
  have htrim : trimBlank (before ++ ('\x7b' :: cs ++ ['\x7d']) ++ after) =
      '\x7b' :: cs ++ ['\x7d'] := trimBlank_append hbefore hafter rfl rfl
  rw [FeedLine.ofChars, hcs, htrim]
  split
  · next h => exact nomatch h
  · next h => exact absurd (List.cons.inj h).1 (by decide)
  · rw [hread]

end MarketEvent

namespace Feed

/-! ## Lines -/

/-- Lines are what stands between line breaks. -/
theorem lines_eq_splitOn (cs : List Char) : lines cs = cs.splitOn '\n' := by
  induction cs with
  | nil => rw [lines, List.splitOn_nil]
  | cons c cs ih =>
    rw [lines, ih, List.splitOn_cons_eq_if_modifyHead]
    by_cases hc : c = '\n'
    · simp [hc]
    · rw [if_neg hc, if_neg (by simpa using hc)]
      cases h : cs.splitOn '\n' with
      | nil => exact absurd h (List.splitOn_ne_nil '\n' cs)
      | cons l ls => rfl

/-- White space that does not end a line. -/
abbrev Blanks := { cs : List Char // ∀ c ∈ cs, isBlank c ∧ c ≠ '\n' }

theorem Blanks.isBlank (b : Blanks) : ∀ c ∈ b.val, isBlank c := fun c hc => (b.2 c hc).1

theorem Blanks.newline_not_mem (b : Blanks) : '\n' ∉ b.val := fun h => (b.2 _ h).2 rfl

/-- A line of a recorded feed. -/
inductive Line where
  /-- The line of an event, with white space around it. -/
  | event (before : Blanks) (event : MarketEvent) (after : Blanks)
  | blank (blanks : Blanks)
  /-- A line whose first character, after white space, is `#`. -/
  | comment (before : Blanks) (cs : List Char) (oneLine : '\n' ∉ cs)
  /-- A line that is not the JSON of an event. -/
  | malformed (cs : List Char) (oneLine : '\n' ∉ cs)
    (noEvent : (Json.ofChars? (trimBlank cs)).bind Json.decode? = (none : Option MarketEvent))

namespace Line

/-- The characters of a line. -/
def chars : Line → List Char
  | event before e after => before.val ++ e.toLine ++ after.val
  | blank blanks => blanks.val
  | comment before cs _ => before.val ++ '#' :: cs
  | malformed cs _ _ => cs

/-- The event that was recorded in a line. -/
def event? : Line → Option MarketEvent
  | event _ e _ => some e
  | _ => none

theorem newline_not_mem_chars (l : Line) : '\n' ∉ l.chars := by
  cases l with
  | event before e after =>
    simp [chars, before.newline_not_mem, e.newline_not_mem_toLine, after.newline_not_mem]
  | blank blanks => exact blanks.newline_not_mem
  | comment before cs oneLine => simp [chars, before.newline_not_mem, oneLine]
  | malformed cs oneLine _ => exact oneLine

/-- A line holds the event that was recorded in it, and else none. -/
theorem event?_ofChars (l : Line) :
    (FeedLine.ofChars l.chars).event? = l.event?.map (mapDecimals Decimal.plain) := by
  cases l with
  | event before e after =>
    rw [chars, e.ofChars_toLine before.isBlank after.isBlank]
    rfl
  | blank blanks =>
    rw [chars, FeedLine.ofChars, trimBlank_eq_nil blanks.isBlank]
    rfl
  | comment before cs _ =>
    obtain ⟨rest, hrest⟩ : ∃ rest, trimBlank (before.val ++ '#' :: cs) = '#' :: rest :=
      exists_trimBlank_eq_cons before.isBlank rfl
    rw [chars, FeedLine.ofChars, hrest]
    rfl
  | malformed cs _ noEvent =>
    rw [chars, FeedLine.ofChars]
    split
    · rfl
    · rfl
    · rw [noEvent]
      rfl

end Line

/-! ## Feeds -/

/-- The text of lines. -/
def text (ls : List Line) : List Char := ['\n'].intercalate (ls.map Line.chars)

theorem lines_text {ls : List Line} (hne : ls ≠ []) : lines (text ls) = ls.map Line.chars := by
  rw [lines_eq_splitOn, text, List.splitOn_intercalate]
  · intro cs hcs
    obtain ⟨l, -, rfl⟩ := List.mem_map.mp hcs
    exact l.newline_not_mem_chars
  · simpa using hne

/-- The events of a recorded feed are those of its lines, in order. -/
theorem events_text (ls : List Line) :
    events (text ls) = mapDecimals Decimal.plain (ls.filterMap Line.event?) := by
  by_cases hne : ls = []
  · subst hne
    rfl
  · rw [events, lines_text hne, List.filterMap_map]
    simp only [Function.comp_def, Line.event?_ofChars, Json.mapDecimals_list, List.map_filterMap]

/-- The line of an event is one line and no comment, and is read back with any white space around
it; the other lines hold no event; replaying a feed gives the events recorded in it, in order. -/
theorem replay_text :
    (∀ (e : MarketEvent) (before after : Blanks),
      ∃ e', FeedLine.ofChars (before.val ++ e.toLine ++ after.val) = .event e' ∧
        SameValues e' e) ∧
    (∀ e : MarketEvent, lines e.toLine = [e.toLine] ∧ e.toLine.head? ≠ some '#') ∧
    (∀ l : Line, l.event? = none → (FeedLine.ofChars l.chars).event? = none) ∧
    ∀ ls : List Line, SameValues (events (text ls)) (ls.filterMap Line.event?) := by
  refine ⟨fun e before after => ⟨_, e.ofChars_toLine before.isBlank after.isBlank, ?_⟩,
    fun e => ⟨?_, ?_⟩, fun l hl => ?_, fun ls => ?_⟩
  · exact Json.sameValues_plain e
  · have hline := lines_text (List.cons_ne_nil (.event ⟨[], nofun⟩ e ⟨[], nofun⟩) [])
    simpa [text, Line.chars] using hline
  · obtain ⟨cs, hcs⟩ := e.exists_toLine_eq
    rw [hcs]
    exact fun h => absurd (Option.some.inj h) (by decide)
  · rw [l.event?_ofChars, hl]
    rfl
  · rw [events_text]
    exact Json.sameValues_plain _

end Feed

end SimBroker
