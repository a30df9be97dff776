import SimBroker.Json.Basic
import SimBroker.Instant.Text
import SimBroker.Uuid

/-!
# Values as JSON

`Codec α` says how values of `α` are written as JSON and read back.  The codec of a record is made
with `record`: fields are found by name in an object, where unknown names are ignored and a repeated
one is refused, or by position in an array.  A union is told apart by the name of its case, which
stands beside the fields of the case (`tagged`), or beside one value that holds its content
(`content`).

There is one way to write a value and there are several to read it: the forms that a reader takes
depend on the place of the value.
-/

namespace SimBroker

namespace Json

/-- Where a value stands, which decides in which forms it may be written. -/
inductive Place where
  /-- In a document. -/
  | document
  /-- Inside a union whose case is named beside its fields. -/
  | union
  /-- In a table of settings. -/
  | settings
  deriving DecidableEq

/-- Whether a value stands for no content: `null`, which settings do not have, and elsewhere than in
a document also the empty object; in settings the empty array too. -/
def Place.isNothing : Place → Json → Bool
  | .document, .null => true
  | .union, .null => true
  | .union, .obj [] => true
  | .settings, .obj [] => true
  | .settings, .arr [] => true
  | _, _ => false

/-- Whether an array may have more items than there are fields. -/
def Place.allowsRest : Place → Bool
  | .settings => true
  | _ => false

/-- A type whose values are written as JSON and read back. -/
class Codec (α : Type) where
  encode : α → Json
  /-- Reads a value at a place. -/
  read? : Place → Json → Option α

export Codec (encode read?)

/-- Reads a value in a document. -/
def decode? {α : Type} [Codec α] : Json → Option α := read? .document

/-! ## Basic values -/

instance : Codec Bool where
  encode := .bool
  read?
    | _, .bool b => some b
    | _, _ => none

instance : Codec String where
  encode := .str
  read?
    | _, .str s => some s
    | _, _ => none

/-- A natural number below a bound. -/
def natBelow? (bound : Nat) : Place → Json → Option Nat
  | _, .int (.ofNat n) => if n < bound then some n else none
  | _, _ => none

/-- Natural numbers of 64 bits. -/
instance : Codec Nat where
  encode n := .int n
  read? := natBelow? UInt64.size

/-- A decimal is written as a string; a number is read too, a float by its shortest digits. -/
instance : Codec Decimal where
  encode a := .str a.toText
  read?
    | _, .str s => Decimal.ofText? s
    | _, .int n => Decimal.ofParts? (decide (n < 0)) n.natAbs 0
    | _, .float x => Decimal.ofBinary64? x
    | _, _ => none

instance : Codec Instant where
  encode t := .str t.toText
  read?
    | _, .str s => Instant.ofText? s
    | _, _ => none

instance : Codec Uuid where
  encode u := .str u.toText
  read?
    | _, .str s => Uuid.ofText? s
    | _, _ => none

instance {α : Type} [Codec α] : Codec (Option α) where
  encode
    | some a => encode a
    | none => .null
  read?
    | _, .null => some none
    | place, j => (read? place j).map some

instance {α : Type} [Codec α] : Codec (List α) where
  encode xs := .arr (xs.map encode)
  read?
    | place, .arr xs => xs.mapM (read? place)
    | _, _ => none

/-! ## Cases without data -/

/-- The value of a name in a table. -/
def lookup? {α : Type} (table : List (String × α)) (name : String) : Option α :=
  (table.find? fun e => e.1 = name).map Prod.snd

/-- Reads a case without data: its name, or an object that gives nothing to its name. -/
def name? {α : Type} (table : List (String × α)) (place : Place) : Json → Option α
  | .str s => lookup? table s
  | .obj [(s, j)] => if place.isNothing j then lookup? table s else none
  | _ => none

/-- Reads the tag of a union: the name of a case, and inside another union also its number. -/
def tag? {α : Type} (cases : List (String × α)) : Place → Json → Option α
  | _, .str s => lookup? cases s
  | .union, .int (.ofNat n) => cases[n]?.map Prod.snd
  | _, _ => none

/-! ## Records -/

/-- Where the fields of a record come from: the members of an object, or the items of an array in
the order of the fields. -/
inductive Fields where
  | named (members : List (String × Json))
  | listed (items : List Json)

namespace Fields

/-- A reader of some of the fields of a record at a place. -/
abbrev Reader (α : Type) := ReaderT Place (StateT Fields Option) α

/-- The value of the next field, if there is one. -/
def next? (name : String) : Reader (Option Json) := fun _ fields =>
  match fields with
  | named members =>
    match valuesOf name members with
    | [] => some (none, named members)
    | [j] => some (some j, named members)
    | _ => none
  | listed [] => some (none, listed [])
  | listed (j :: items) => some (some j, listed items)

/-- A field that must be there, read in a given way. -/
def fieldBy {α : Type} (readValue : Place → Json → Option α) (name : String) : Reader α := do
  match ← next? name with
  | some j => readValue (← read) j
  | none => failure

/-- A field that must be there. -/
def field {α : Type} [Codec α] (name : String) : Reader α := fieldBy read? name

/-- A field that may be absent from an object, and then is the same as `null`. -/
def optional {α : Type} [Codec α] (name : String) : Reader (Option α) := do
  let isObject := match ← get with
    | named _ => true
    | listed _ => false
  match ← next? name with
  | some j => read? (α := Option α) (← read) j
  | none => if isObject then return none else failure

/-- A field that may be absent, and then has a default, read in a given way. -/
def fieldByD {α : Type} (readValue : Place → Json → Option α) (name : String) (default : α) :
    Reader α := do
  match ← next? name with
  | some j => readValue (← read) j
  | none => return default

/-- A field that may be absent, and then has a default. -/
def fieldD {α : Type} [Codec α] (name : String) (default : α) : Reader α :=
  fieldByD read? name default

/-- Runs a reader on all fields at a place. -/
def run? {α : Type} (fields : Fields) (reader : Reader α) (place : Place) : Option α := do
  let (a, rest) ← reader place fields
  match rest with
  | listed (_ :: _) => if place.allowsRest then some a else none
  | _ => some a

end Fields

/-- Reads a record from an object. -/
def object {α : Type} (reader : Fields.Reader α) (place : Place) : Json → Option α
  | .obj members => (Fields.named members).run? reader place
  | _ => none

/-- Reads a record from an object or an array. -/
def record {α : Type} (reader : Fields.Reader α) (place : Place) : Json → Option α
  | .obj members => (Fields.named members).run? reader place
  | .arr items => (Fields.listed items).run? reader place
  | _ => none

/-! ## Unions -/

/-- Reads a union whose case is named by the member `tag`, beside the fields of the case; in an
array the tag comes first. -/
def tagged {α : Type} (tag : String) (cases : List (String × Fields.Reader α)) (place : Place) :
    Json → Option α
  | .obj members =>
    match valuesOf tag members with
    | [j] => do (Fields.named (members.filter (·.1 ≠ tag))).run? (← tag? cases place j) .union
    | _ => none
  | .arr (j :: items) => do (Fields.listed items).run? (← tag? cases place j) .union
  | _ => none

/-- Reads a union whose tag and fields stand among the members of a larger object. -/
def flattened {α : Type} (tag : String) (cases : List (String × Fields.Reader α)) :
    Fields.Reader α := fun _ fields =>
  match fields with
  | .named members => do return (← tagged tag cases .union (.obj members), fields)
  | .listed _ => none

/-- Reads a union that is written as the name of its case and, beside it, its content.  In an object
the name may take any form of a case without data. -/
def content {α : Type} (tag value : String) (cases : List (String × (Place → Json → Option α))) :
    Place → Json → Option α :=
  record do
    let readTag := match ← get with
      | .named _ => name? cases
      | .listed _ => tag? cases
    let readContent ← Fields.fieldBy readTag tag
    Fields.fieldBy readContent value

/-- The members of an object. -/
def members : Json → List (String × Json)
  | .obj ms => ms
  | _ => []

end Json

end SimBroker
