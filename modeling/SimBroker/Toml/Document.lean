import SimBroker.Toml.Basic

/-!
# TOML documents

A document is a list of statements: a header opens a table, and an assignment gives a value to a key
of the open table.  `Document.run?` carries them out.  It refuses a document that defines a key or a
table twice, or that uses one way of defining a table to extend a table defined another way.
-/

namespace SimBroker

namespace Toml

/-- How a table came to be. -/
inductive Origin where
  /-- Its own header. -/
  | header
  /-- The header of a table inside it. -/
  | implied
  /-- A dotted key. -/
  | dotted
  deriving DecidableEq

/-- What a key of a document stands for. -/
inductive Node where
  | value (value : Toml)
  | table (origin : Origin) (entries : List (String × Node))
  /-- The tables of an array of tables; the last one is open. -/
  | tables (items : List (List (String × Node)))

/-- The entries of a table, in the order of their definition. -/
abbrev Entries := List (String × Node)

namespace Entries

/-- Whether a key is defined. -/
def hasKey (k : String) (es : Entries) : Bool := es.any fun e => e.1 = k

/-- Changes what a key stands for; a new key goes to the end. -/
def alter? (k : String) (f : Option Node → Option Node) : Entries → Option Entries
  | [] => (f none).map fun n => [(k, n)]
  | (k', n) :: es =>
    if k' = k then (f (some n)).map fun n => (k, n) :: es
    else (alter? k f es).map ((k', n) :: ·)

/-- Changes the last element of a list that has one. -/
def alterLast? {α : Type} (f : α → Option α) : List α → Option (List α)
  | [] => none
  | [x] => (f x).map fun y => [y]
  | x :: y :: xs => (alterLast? f (y :: xs)).map (x :: ·)

/-- Changes the table at the path of a header, and makes the tables on the way that are not
there. -/
def within? (f : Entries → Option Entries) : List String → Entries → Option Entries
  | [] => f
  | k :: ks => alter? k fun
    | none => (within? f ks []).map (.table .implied)
    | some (.table origin es) => (within? f ks es).map (.table origin)
    | some (.tables items) => (alterLast? (within? f ks) items).map .tables
    | some (.value _) => none

/-- Gives a value to a dotted key.  A table in which the last part may be defined is the open one,
or one that a dotted key has made (`mayHold`). -/
def assign? (value : Toml) : (mayHold : Bool) → List String → Entries → Option Entries
  | _, [], _ => none
  | mayHold, [k], es => if mayHold && !hasKey k es then some (es ++ [(k, .value value)]) else none
  | _, k :: k' :: ks, es => alter? k (fun
    | none => (assign? value true (k' :: ks) []).map (.table .dotted)
    | some (.table .dotted es) => (assign? value true (k' :: ks) es).map (.table .dotted)
    | some (.table .implied es) => (assign? value false (k' :: ks) es).map (.table .implied)
    | some (.tables items) => (alterLast? (assign? value false (k' :: ks)) items).map .tables
    | _ => none) es

/-- Opens a table by its header: a new one, or one implied by an earlier header. -/
def openTable? (path : List String) (es : Entries) : Option Entries := do
  let k ← path.getLast?
  within? (alter? k fun
    | none => some (.table .header [])
    | some (.table .implied es) => some (.table .header es)
    | _ => none) path.dropLast es

/-- Opens another table of an array of tables. -/
def openItem? (path : List String) (es : Entries) : Option Entries := do
  let k ← path.getLast?
  within? (alter? k fun
    | none => some (.tables [[]])
    | some (.tables items) => some (.tables (items ++ [[]]))
    | _ => none) path.dropLast es

end Entries

mutual

/-- The value that a node stands for. -/
def Node.toToml : Node → Toml
  | .value v => v
  | .table _ es => .table (entriesToToml es)
  | .tables items => .arr (itemsToToml items)

/-- The values of entries. -/
def entriesToToml : List (String × Node) → List (String × Toml)
  | [] => []
  | (k, n) :: es => (k, n.toToml) :: entriesToToml es

/-- The tables of an array of tables, as values. -/
def itemsToToml : List (List (String × Node)) → List Toml
  | [] => []
  | es :: items => .table (entriesToToml es) :: itemsToToml items

end

/-- A statement of a document. -/
inductive Statement where
  | assign (key : List String) (value : Toml)
  | openTable (path : List String)
  | openItem (path : List String)

/-- A document under way: what is defined, and the path of the open table. -/
structure Document where
  entries : Entries := []
  openPath : List String := []

namespace Document

/-- Carries out a statement. -/
def step? (d : Document) : Statement → Option Document
  | .assign key value => do
    return { d with
      entries := ← Entries.within? (Entries.assign? value true key) d.openPath d.entries }
  | .openTable path => do return ⟨← d.entries.openTable? path, path⟩
  | .openItem path => do return ⟨← d.entries.openItem? path, path⟩

/-- The table that a list of statements defines. -/
def run? (statements : List Statement) : Option Toml := do
  let d ← statements.foldlM step? {}
  return .table (entriesToToml d.entries)

end Document

/-- The inline table that a list of assignments defines. -/
def inlineTable? (assignments : List (List String × Toml)) : Option Toml := do
  let es ← assignments.foldlM (fun es a => Entries.assign? a.2 true a.1 es) []
  return .table (entriesToToml es)

end Toml

end SimBroker
