import SimBroker.Market.Event
import SimBroker.Json.Parser
import SimBroker.Json.Printer

/-!
# Recorded feeds

A recorded feed is a text of lines.  A line holds one event as JSON; blank lines and lines that
begin with `#` hold none, and white space at the ends of a line means nothing.  Replaying a feed
passes over the lines that are no event.
-/

namespace SimBroker

/-- What a line of a feed holds. -/
inductive FeedLine where
  /-- Nothing, or a comment. -/
  | empty
  | event (event : MarketEvent)
  | malformed
  deriving DecidableEq

namespace FeedLine

/-- Reads a line. -/
def ofChars (cs : List Char) : FeedLine :=
  match trimBlank cs with
  | [] => empty
  | '#' :: _ => empty
  | cs =>
    match (Json.ofChars? cs).bind Json.decode? with
    | some e => event e
    | none => malformed

/-- Reads a line from a string. -/
def ofText (s : String) : FeedLine := ofChars s.toList

/-- The event of a line. -/
def event? : FeedLine → Option MarketEvent
  | event e => some e
  | _ => none

end FeedLine

namespace MarketEvent

/-- The line of an event. -/
def toLine (e : MarketEvent) : List Char := (Json.encode e).toChars

end MarketEvent

namespace Feed

/-- The lines of a text, without the line breaks. -/
def lines : List Char → List (List Char)
  | [] => [[]]
  | c :: cs =>
    if c = '\n' then [] :: lines cs
    else
      match lines cs with
      | l :: ls => (c :: l) :: ls
      | [] => [[c]]

/-- The events of a recorded feed, in order. -/
def events (cs : List Char) : List MarketEvent :=
  (lines cs).filterMap fun l => (FeedLine.ofChars l).event?

end Feed

end SimBroker
