import SimBroker.Binary64

/-!
# JSON values

A tree of values.  Members of an object keep their order, and a name may occur twice: it is for
the reader of a record to refuse that.  Whole numbers and floats are told apart, because a field
may take one and not the other.
-/

namespace SimBroker

/-- A JSON value. -/
inductive Json where
  | null
  | bool (value : Bool)
  | int (value : Int)
  | float (value : Binary64)
  | str (value : String)
  | arr (items : List Json)
  | obj (members : List (String × Json))

namespace Json

instance : Inhabited Json := ⟨null⟩

/-- The values that an object gives to a name, in order. -/
def valuesOf (name : String) (members : List (String × Json)) : List Json :=
  members.filterMap fun m => if m.1 = name then some m.2 else none

/-- The last value that an object gives to a name. -/
def get? (name : String) : Json → Option Json
  | obj members => (valuesOf name members).getLast?
  | _ => none

mutual

/-- The same value with the members of every object in the order of their names. -/
def sorted : Json → Json
  | arr items => .arr (sortedItems items)
  | obj members => .obj ((sortedMembers members).mergeSort fun a b => decide (a.1 ≤ b.1))
  | j => j

/-- The items of an array, sorted inside. -/
def sortedItems : List Json → List Json
  | [] => []
  | j :: js => sorted j :: sortedItems js

/-- The members of an object, sorted inside. -/
def sortedMembers : List (String × Json) → List (String × Json)
  | [] => []
  | (k, j) :: ms => (k, sorted j) :: sortedMembers ms

end

end Json

end SimBroker
