import SimBroker.Toml.Document
import SimBroker.Toml.Scalar

/-!
# Reading TOML

A document is read line by line into statements, which are then carried out.  A line holds a header,
an assignment or nothing, and may end in a comment.  Values nest at most 79 deep.
-/

namespace SimBroker

namespace Toml

/-- The greatest depth of arrays and inline tables inside one another, and the greatest number of
parts of a key. -/
def maxDepth : Nat := 79

/-! ## Lines -/

/-- What follows the rest of a line: white space, a comment and the line break, or the end of the
text. -/
def lineEnd? (cs : List Char) : Option (List Char) :=
  let rest :=
    match skipSpace cs with
    | '#' :: cs => cs.dropWhile isText
    | cs => cs
  match rest with
  | [] => some []
  | rest => newLine? rest

/-- The text without white space, line breaks and comments in front; a comment, in which the text
may begin, must end with its line. -/
def skipLines : (inComment : Bool) → List Char → Option (List Char)
  | false, '\n' :: cs => skipLines false cs
  | false, '\r' :: '\n' :: cs => skipLines false cs
  | false, '#' :: cs => skipLines true cs
  | false, ' ' :: cs => skipLines false cs
  | false, '\t' :: cs => skipLines false cs
  | false, cs => some cs
  | true, '\n' :: cs => skipLines false cs
  | true, '\r' :: '\n' :: cs => skipLines false cs
  | true, c :: cs => if isText c then skipLines true cs else none
  | true, [] => none

/-! ## Keys -/

/-- A character of a key without quotes. -/
def isBare (c : Char) : Bool := c.isAlphanum || c == '_' || c == '-'

/-- One part of a key: bare, or a string of one line. -/
def keyPart? : List Char → Option (String × List Char)
  | '"' :: cs => (basic? (cs.length + 1) cs).map fun (s, cs) => (String.ofList s, cs)
  | '\'' :: cs => (literal? cs).map fun (s, cs) => (String.ofList s, cs)
  | cs =>
    let part := cs.takeWhile isBare
    if part.isEmpty then none else some (String.ofList part, cs.dropWhile isBare)

/-- A key of at most so many parts, divided by points, with white space around each. -/
def key? : (maxParts : Nat) → List Char → Option (List String × List Char)
  | 0, _ => none
  | n + 1, cs => do
    let (part, cs) ← keyPart? (skipSpace cs)
    match skipSpace cs with
    | '.' :: cs =>
      let (parts, cs) ← key? n cs
      return (part :: parts, cs)
    | cs => return ([part], cs)

/-! ## Values -/

mutual

/-- A value, within `depth` levels.  Each call takes at least one character or ends, so twice the
length of the text is enough `fuel`. -/
def value? : (fuel depth : Nat) → List Char → Option (Toml × List Char)
  | 0, _, _ => none
  | fuel + 1, depth, cs =>
    match cs with
    | '[' :: cs =>
      match depth with
      | 0 => none
      | depth + 1 => (items? fuel depth cs).map fun (vs, cs) => (.arr vs, cs)
    | '\x7b' :: cs =>
      match depth with
      | 0 => none
      | depth + 1 => do
        match skipSpace cs with
        | '\x7d' :: cs => return (.table [], cs)
        | cs =>
          let (assignments, cs) ← assignments? fuel depth cs
          return (← inlineTable? assignments, cs)
    | cs => (string? cs).map (fun (s, cs) => (.str s, cs)) <|> scalar? cs

/-- The items of an array up to its closing bracket; a comma may follow the last one, and the items
may stand on several lines. -/
def items? : (fuel depth : Nat) → List Char → Option (List Toml × List Char)
  | 0, _, _ => none
  | fuel + 1, depth, cs => do
    match ← skipLines false cs with
    | ']' :: cs => return ([], cs)
    | cs =>
      let (v, cs) ← value? fuel depth cs
      match ← skipLines false cs with
      | ',' :: cs =>
        let (vs, cs) ← items? fuel depth cs
        return (v :: vs, cs)
      | ']' :: cs => return ([v], cs)
      | _ => none

/-- The assignments of an inline table up to its closing brace, at least one, on one line. -/
def assignments? : (fuel depth : Nat) → List Char → Option (List (List String × Toml) × List Char)
  | 0, _, _ => none
  | fuel + 1, depth, cs => do
    let (key, cs) ← key? maxDepth cs
    let (v, cs) ← value? fuel depth (skipSpace (← mark? '=' cs))
    match skipSpace cs with
    | ',' :: cs =>
      let (rest, cs) ← assignments? fuel depth cs
      return ((key, v) :: rest, cs)
    | '\x7d' :: cs => return ([(key, v)], cs)
    | _ => none

end

/-! ## Documents -/

/-- One line, if it holds a statement, and what follows it. -/
def statement? (cs : List Char) : Option (Option Statement × List Char) := do
  match cs with
  | '[' :: '[' :: cs =>
    let (path, cs) ← key? maxDepth cs
    let cs ← lineEnd? (← mark? ']' (← mark? ']' cs))
    return (some (.openItem path), cs)
  | '[' :: cs =>
    let (path, cs) ← key? maxDepth cs
    let cs ← lineEnd? (← mark? ']' cs)
    return (some (.openTable path), cs)
  | cs =>
    match lineEnd? cs with
    | some cs => return (none, cs)
    | none =>
      let (key, cs) ← key? maxDepth cs
      let (v, cs) ← value? (2 * cs.length + 2) maxDepth (skipSpace (← mark? '=' cs))
      return (some (.assign key v), ← lineEnd? cs)

/-- The statements of a text.  Each line takes at least one character, so the length of the text is
enough `fuel`. -/
def statements? : (fuel : Nat) → List Char → Option (List Statement)
  | 0, _ => none
  | fuel + 1, cs => do
    match skipSpace cs with
    | [] => return []
    | cs =>
      let (statement, cs) ← statement? cs
      return statement.toList ++ (← statements? fuel cs)

/-- Reads a document; a byte order mark in front means nothing. -/
def ofChars? (cs : List Char) : Option Toml := do
  let cs := match cs with
    | '\uFEFF' :: cs => cs
    | cs => cs
  Document.run? (← statements? (cs.length + 1) cs)

/-- Reads a document from a string. -/
def ofText? (s : String) : Option Toml := ofChars? s.toList

end Toml

end SimBroker
