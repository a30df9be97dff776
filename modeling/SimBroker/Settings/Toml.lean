import SimBroker.Settings
import SimBroker.Toml.Parser
import SimBroker.Toml.Printer

/-!
# Settings as TOML

Settings are kept in a TOML document with a table for each section.  What a document does not name
has its default.
-/

namespace SimBroker

namespace Settings

/-- Why settings cannot be loaded from a text. -/
inductive LoadFault where
  /-- The text is not TOML, or a value does not fit its field. -/
  | malformed
  /-- The settings are refused. -/
  | refused (fault : Fault)
  deriving DecidableEq

/-- Reads settings from a TOML document. -/
def ofToml? (cs : List Char) : Option Settings :=
  (Toml.ofChars? cs).bind fun document => Json.read? .settings document.toJson

/-- The settings, unless they are refused. -/
def checked (s : Settings) : Except Fault Settings :=
  match s.fault? with
  | some fault => .error fault
  | none => .ok s

/-- Loads settings from a TOML document. -/
def load (cs : List Char) : Except LoadFault Settings :=
  match ofToml? cs with
  | some s => s.checked.mapError .refused
  | none => .error .malformed

/-- Writes settings as a TOML document; none if a number has no place in it. -/
def toToml? (s : Settings) : Option (List Char) := Toml.documentChars? (Json.encode s)

end Settings

end SimBroker
