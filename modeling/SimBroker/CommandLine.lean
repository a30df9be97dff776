import SimBroker.Decimal.Text

/-!
# The command line

A command line is a list of words: options and, among them, the name of a command with options of
its own.  An option may take a value, in the next word or attached to the option itself.  `ofWords`
reads a command line; `UsageFault` says why it does not make sense, or that it asks for help.

A value in a word of its own is looked at only when the next option or the end of the line is
reached, so of two faults the later one may be reported.
-/

namespace SimBroker

/-- How a summary is printed. -/
inductive OutputFormat where
  | table
  | json
  deriving DecidableEq

/-- The format of a name. -/
def OutputFormat.ofName? : String → Option OutputFormat
  | "table" => some table
  | "json" => some json
  | _ => none

/-- The name of a format. -/
def OutputFormat.name : OutputFormat → String
  | table => "table"
  | json => "json"

namespace CommandLine

/-- Why a command line does not run a command. -/
inductive UsageFault where
  | helpRequested
  | versionRequested
  /-- There is nothing but the program's name. -/
  | nothingGiven
  | missingCommand
  | unknownCommand
  | unknownOption
  /-- An option that must be given is not. -/
  | missingOption
  /-- A value is missing, empty or none of those allowed. -/
  | badValue
  /-- A value does not read as what the option takes. -/
  | unreadableValue
  /-- An option that takes no value has one. -/
  | needlessValue
  /-- An option is given twice. -/
  | repeatedOption
  deriving DecidableEq

/-! ## Options -/

/-- An option. -/
inductive Flag where
  | config
  | events
  | capital
  | stream
  | format
  | help
  | version
  deriving DecidableEq

/-- Whether an option takes a value. -/
def Flag.takesValue : Flag → Bool
  | .config | .events | .capital | .format => true
  | .stream | .help | .version => false

/-- Checks the value of an option. -/
def Flag.check (flag : Flag) (value : String) : Except UsageFault Unit :=
  match flag with
  | .events => if value.isEmpty then .error .badValue else .ok ()
  | .capital => if (Decimal.ofText? value).isSome then .ok () else .error .unreadableValue
  | .format => if (OutputFormat.ofName? value).isSome then .ok () else .error .badValue
  | _ => .ok ()

/-- The options and commands that words may name at one place of a command line. -/
structure Grammar where
  long : List (String × Flag)
  short : List (Char × Flag)
  commands : List String

/-- The words before the command. -/
def mainGrammar : Grammar where
  long := [("config", .config), ("help", .help), ("version", .version)]
  short := [('c', .config), ('h', .help), ('V', .version)]
  commands := ["run", "config", "help"]

/-- The words after `run`. -/
def runGrammar : Grammar where
  long := [("events", .events), ("capital", .capital), ("stream", .stream), ("format", .format),
    ("help", .help)]
  short := [('h', .help)]
  commands := []

/-- The words after `config`. -/
def configGrammar : Grammar where
  long := [("help", .help)]
  short := [('h', .help)]
  commands := []

/-- The option of a name. -/
def Grammar.long? (g : Grammar) (name : String) : Option Flag := g.long.lookup name

/-- The option of a letter. -/
def Grammar.short? (g : Grammar) (letter : Char) : Option Flag := g.short.lookup letter

/-! ## Reading words -/

/-- What has been read: the options given with their values, and one whose value has not been looked
at or has not come yet. -/
structure Reading where
  given : List (Flag × String) := []
  pending : Option (Flag × Option String) := none

namespace Reading

/-- The value of an option. -/
def value? (r : Reading) (flag : Flag) : Option String := r.given.lookup flag

/-- Takes an option with its value. -/
def take (r : Reading) (flag : Flag) (value : String) : Except UsageFault Reading := do
  if (r.value? flag).isSome then throw .repeatedOption
  flag.check value
  return { r with given := r.given ++ [(flag, value)] }

/-- Looks at the value of the pending option. -/
def settle (r : Reading) : Except UsageFault Reading :=
  let settled := { r with pending := none }
  match r.pending with
  | none => .ok settled
  | some (_, none) => .error .badValue
  | some (flag, some value) => settled.take flag value

/-- Whether the next word is the value of the pending option. -/
def awaitsValue (r : Reading) : Bool :=
  match r.pending with
  | some (_, none) => true
  | _ => false

/-- Takes an option that takes no value. -/
def takeBare (r : Reading) (flag : Flag) : Except UsageFault Reading := do
  let r ← r.settle
  match flag with
  | .help => throw .helpRequested
  | .version => throw .versionRequested
  | flag => r.take flag ""

/-- Takes an option that takes a value, attached to it or in the next word. -/
def takeValued (r : Reading) (flag : Flag) (attached : Option String) :
    Except UsageFault Reading := do
  let r ← r.settle
  match attached with
  | some value => r.take flag value
  | none => return { r with pending := some (flag, none) }

end Reading

/-- A word that begins with two hyphens: an option's name and, after `=`, its value. -/
def readLong (g : Grammar) (word : List Char) (r : Reading) : Except UsageFault Reading :=
  let name := String.ofList (word.takeWhile (· ≠ '='))
  let attached :=
    match word.dropWhile (· ≠ '=') with
    | _ :: value => some (String.ofList value)
    | [] => none
  match g.long? name with
  | none => .error .unknownOption
  | some flag =>
    if flag.takesValue then r.takeValued flag attached
    else if attached.isSome then .error .needlessValue
    else r.takeBare flag

/-- A word that begins with one hyphen: the letters of options, and after that of an option with a
value, the value. -/
def readShort (g : Grammar) : List Char → Reading → Except UsageFault Reading
  | [], r => .ok r
  | c :: cs, r =>
    match g.short? c with
    | none => .error .unknownOption
    | some flag =>
      if flag.takesValue then
        r.takeValued flag <|
          match cs with
          | [] => none
          | '=' :: value => some (String.ofList value)
          | value => some (String.ofList value)
      else do readShort g cs (← r.takeBare flag)

/-- A word where no option stands and none awaits a value. -/
def readStray (g : Grammar) (afterHyphens : Bool) (word : String) : Except UsageFault Reading :=
  if g.commands.isEmpty ∨ (afterHyphens ∧ g.commands.contains word) then .error .unknownOption
  else .error .unknownCommand

/-- Reads words up to the name of a command, which is returned with the words after it.  After the
word `--` there are no options and no commands. -/
def readWords (g : Grammar) :
    List String → Reading → Except UsageFault (Reading × Option (String × List String))
  | [], r => .ok (r, none)
  | word :: words, r =>
    if !r.awaitsValue && g.commands.contains word then .ok (r, some (word, words))
    else
      match word.toList with
      | ['-', '-'] =>
        match words with
        | [] => .ok (r, none)
        | word :: _ => do return (← readStray g true word, none)
      | '-' :: '-' :: cs => do readWords g words (← readLong g cs r)
      | '-' :: c :: cs => do readWords g words (← readShort g (c :: cs) r)
      | _ =>
        match r.pending with
        | some (flag, none) => readWords g words { r with pending := some (flag, some word) }
        | _ => do return (← readStray g false word, none)

/-- Reads the words of a command without commands of its own. -/
def readAll (g : Grammar) (words : List String) : Except UsageFault Reading := do
  let (r, _) ← readWords g words {}
  r.settle

end CommandLine

/-! ## Commands -/

/-- The options of `run`. -/
structure RunOptions where
  /-- The path of the file of events. -/
  events : String
  /-- The balance to start with instead of that of the settings. -/
  capital : Option Decimal := none
  /-- Whether every message is printed. -/
  stream : Bool := false
  format : OutputFormat := .table
  deriving DecidableEq

/-- What a command line asks for. -/
inductive Command where
  /-- Replays a file of events. -/
  | run (options : RunOptions)
  /-- Shows the settings. -/
  | config
  deriving DecidableEq

/-- A command line. -/
structure CommandLine where
  /-- The path of the settings. -/
  config : String
  command : Command
  deriving DecidableEq

namespace CommandLine

/-- Reads the options of `run`. -/
def readRun (words : List String) : Except UsageFault RunOptions := do
  let r ← readAll runGrammar words
  match r.value? .events with
  | none => throw .missingOption
  | some events => return {
      events
      capital := (r.value? .capital).bind Decimal.ofText?
      stream := (r.value? .stream).isSome
      format := ((r.value? .format).bind OutputFormat.ofName?).getD .table }

/-- Reads the words after `help`: nothing, or the name of a command. -/
def readHelp {α : Type} : List String → Except UsageFault α
  | [] => .error .helpRequested
  | [word] => if mainGrammar.commands.contains word then .error .helpRequested
    else .error .unknownCommand
  | _ => .error .unknownCommand

/-- Reads a command line, without the program's name. -/
def ofWords (words : List String) : Except UsageFault CommandLine := do
  let (r, rest) ← readWords mainGrammar words {}
  let command ←
    match rest with
    | none => pure none
    | some ("run", words) => do pure (some (Command.run (← readRun words)))
    | some ("config", words) => do
      let _ ← readAll configGrammar words
      pure (some .config)
    | some (_, words) => readHelp words
  let r ← r.settle
  match command with
  | some command => return ⟨(r.value? .config).getD "config.toml", command⟩
  | none => throw (if r.given.isEmpty then .nothingGiven else .missingCommand)

end CommandLine

end SimBroker
