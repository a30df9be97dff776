import SimBroker.Json.Basic

/-!
# TOML values

A tree of values, as a TOML document denotes them.  `toJson` gives the value that the readers of
records understand.
-/

namespace SimBroker

/-- A TOML value. -/
inductive Toml where
  | str (value : String)
  | int (value : Int)
  | float (value : Binary64)
  | bool (value : Bool)
  /-- A date, a time of day, or both, by its text. -/
  | moment (text : String)
  | arr (items : List Toml)
  | table (entries : List (String × Toml))

namespace Toml

instance : Inhabited Toml := ⟨table []⟩

mutual

/-- The same value in JSON.  A date or time, which no record of this library has, becomes an object
without any known field. -/
def toJson : Toml → Json
  | str s => .str s
  | int n => .int n
  | float x => .float x
  | bool b => .bool b
  | moment text => .obj [("moment", .str text)]
  | arr items => .arr (itemsToJson items)
  | table entries => .obj (entriesToJson entries)

/-- The items of an array in JSON. -/
def itemsToJson : List Toml → List Json
  | [] => []
  | v :: vs => toJson v :: itemsToJson vs

/-- The entries of a table in JSON. -/
def entriesToJson : List (String × Toml) → List (String × Json)
  | [] => []
  | (k, v) :: es => (k, toJson v) :: entriesToJson es

end

end Toml

end SimBroker
