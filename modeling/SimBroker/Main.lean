import SimBroker.CommandLine
import SimBroker.Market.Feed
import SimBroker.Session.Replay
import SimBroker.Settings.Toml
import Std.Time.DateTime.Timestamp

/-!
# The program

Reads the command line, the settings and the file of events, and prints what the library answers.
-/

namespace SimBroker

namespace Program

/-- How the program is used. -/
def usage : String :=
  "Simulated execution and risk core for automated trading\n\n" ++
  "Usage: simbroker [--config PATH] run --events PATH [--capital AMOUNT] [--stream] " ++
  "[--format table|json]\n" ++
  "       simbroker [--config PATH] config"

/-- The version of the program. -/
def version : String := "simbroker 0.1.0"

/-- What is wrong with a command line. -/
def usageMessage : CommandLine.UsageFault → String
  | .helpRequested | .versionRequested => ""
  | .nothingGiven | .missingCommand => "error: a command is required"
  | .unknownCommand => "error: unrecognized command"
  | .unknownOption => "error: unexpected argument"
  | .missingOption => "error: a required argument was not provided"
  | .badValue | .unreadableValue => "error: invalid value for an argument"
  | .needlessValue => "error: unexpected value for an argument"
  | .repeatedOption => "error: an argument cannot be used multiple times"

/-- The time. -/
def currentTime : IO Instant := do
  let t ← Std.Time.Timestamp.now
  return (Instant.ofParts? t.val.second.val t.val.nano.val.toNat).getD .epoch

/-- A number of 128 random bits, to count ids from. -/
def randomId : IO Uuid := do
  let high ← IO.rand 0 (UInt64.size - 1)
  let low ← IO.rand 0 (UInt64.size - 1)
  return .ofNat (high * UInt64.size + low)

/-- The settings in a file, or the default ones with a warning. -/
def loadSettings (path : String) : IO Settings := do
  let useDefault (reason : String) : IO Settings := do
    IO.eprintln s!"Warning: Could not load config from {path}: {reason}"
    IO.eprintln "Using default configuration"
    return {}
  match ← (IO.FS.readFile path).toBaseIO with
  | .error e => useDefault e.toString
  | .ok text =>
    match Settings.load text.toList with
    | .ok settings => return settings
    | .error .malformed => useDefault "not a valid configuration"
    | .error (.refused fault) => useDefault fault.message

/-- What a calculation gives; a fault ends the program. -/
def orFail {α : Type} : Calc α → IO α
  | .ok a => return a
  | .error fault => throw (IO.userError fault.message)

/-- Replays a file of events. -/
def run (settings : Settings) (options : RunOptions) : IO Unit := do
  match (settings.withCapital options.capital).checked with
  | .error fault => throw (IO.userError fault.message)
  | .ok settings =>
    let clock : Clock := .still (← currentTime)
    let events := (Feed.events (← IO.FS.readFile options.events).toList).map (·, clock)
    let firstId ← randomId
    if options.stream then
      match ← orFail (settings.replayMessages events firstId clock) with
      | .error e => throw (IO.userError e.message)
      | .ok messages =>
        for message in messages do
          IO.println message.toJson.toText
    let summary ← orFail (settings.replay events firstId clock clock)
    match options.format with
    | .table =>
      for line in ← orFail summary.lines do
        IO.println line
    | .json => IO.println summary.toJson.toPrettyText

/-- Shows the settings. -/
def showSettings (settings : Settings) : IO Unit := do
  IO.println "Current configuration:"
  match settings.toToml? with
  | some text => IO.print (String.ofList text)
  | none => throw (IO.userError "a number is too large for the configuration")

end Program

end SimBroker

open SimBroker in
/-- Runs the command that the command line names. -/
def main (words : List String) : IO UInt32 := do
  match CommandLine.ofWords words with
  | .error .helpRequested =>
    IO.println Program.usage
    return 0
  | .error .versionRequested =>
    IO.println Program.version
    return 0
  | .error fault =>
    IO.eprintln (Program.usageMessage fault)
    IO.eprintln Program.usage
    return 2
  | .ok line =>
    let settings ← Program.loadSettings line.config
    try
      match line.command with
      | .run options => Program.run settings options
      | .config => Program.showSettings settings
      return 0
    catch e =>
      IO.eprintln s!"Error: {e}"
      return 1
