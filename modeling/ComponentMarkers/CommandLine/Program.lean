import ComponentMarkers.CommandLine.Arguments
import ComponentMarkers.CommandLine.ScanCommand
import ComponentMarkers.CommandLine.WatchCommand
import ComponentMarkers.Log.File
import ComponentMarkers.Log.Filter

/-!
# Runs of the program

A run reads its arguments, opens its log file and carries out the command.  Of what the command logs,
only events that pass the filter are shown and kept.  A watch is run here up to the end of its first
round.
-/

namespace ComponentMarkers.CommandLine

/-- What a run is given. -/
structure Invocation where
  arguments : List String
  /-- The text of a filter for the log, if the user gave one. -/
  logSetting : Option String
  /-- The home of the user. -/
  home : Path
  now : Timestamp
  /-- The day, as it stands in the names of log files. -/
  day : String
  deriving DecidableEq, Repr

/-- What a run leaves behind. -/
structure Run where
  exitCode : Nat
  /-- The printed text. -/
  output : String
  /-- Lines for the user that are no events of the log. -/
  complaints : List String
  /-- The events that passed the filter. -/
  log : List LogEvent
  tree : FileTree
  deriving DecidableEq, Repr

namespace UsageStop

/-- What is wrong with the arguments. -/
def message : UsageStop → String
  | unknownArgument => "an argument is not known here"
  | unknownCommand => "there is no such command"
  | invalidValue => "an option lacks its value"
  | unwantedValue => "an option takes no value"
  | repeatedOption => "an option is given twice"
  | missingArgument => "a required argument is missing"
  | nothingAsked => "a command is required"
  | helpAsked => "help was asked for"
  | versionAsked => "the version was asked for"

/-- How the program is used. -/
def usage : List String :=
  ["Usage: cdigen scan <SOURCE_ROOT>... --out <CLASS_OUTPUT> [--dry-run] [--json]",
    "       cdigen watch <SOURCE_ROOT>... --out <CLASS_OUTPUT>",
    "       cdigen capabilities"]

/-- The version of the program. -/
def version : String :=
  "cdigen 0.1.0"

/-- A run without a command: it answers a question or complains. -/
def run (tree : FileTree) : UsageStop → Run
  | helpAsked => ⟨0, String.join (usage.map (· ++ "\n")), [], [], tree⟩
  | versionAsked => ⟨0, version ++ "\n", [], [], tree⟩
  | stop => ⟨2, "", ("error: " ++ stop.message) :: usage, [], tree⟩

end UsageStop

namespace Command

/-- The name under which a command logs. -/
def logTarget : Command → LogTarget
  | scan .. => .scan
  | watch .. => .watch
  | capabilities => .capabilities

/-- Carries out a command.  A watch may go on after that. -/
def perform (now : Timestamp) (tree : FileTree) : Command → Effect × Option Watch
  | scan roots out dryRun json => (CommandLine.scan now roots out dryRun json tree, none)
  | watch roots out => beginWatch now roots out tree
  | capabilities => (⟨none, Processor.new.capabilities.json.pretty ++ "\n", [], tree⟩, none)

end Command

/-- Carries out a command between the opening of the log file and its last lines. -/
def runCommand (invocation : Invocation) (tree : FileTree) (command : Command) :
    Run × Option Watch :=
  let filter := LogFilter.ofSetting invocation.logSetting
  let (file, tree) := tree.openLogFile invocation.home command.logTarget invocation.day
  let (effect, next) := command.perform invocation.now tree
  let (events, file?) : List LogEvent × Option Place :=
    match file with
    | .ok place => (effect.log, some place)
    | .error fault => (fault.event invocation.home :: effect.log, none)
  let shown := events.filter filter.passes
  let tree := (file?.map fun place => effect.tree.appendEvents place shown).getD effect.tree
  match effect.failure with
  | none => (⟨0, effect.output, [], shown, tree⟩, next)
  | some failure => (⟨1, effect.output, ["Error: " ++ failure.details], shown, tree⟩, none)

/-- Runs the program in a tree of files. -/
def run (invocation : Invocation) (tree : FileTree) : Run × Option Watch :=
  match readCommand invocation.arguments with
  | .error stop => (stop.run tree, none)
  | .ok command => runCommand invocation tree command

end ComponentMarkers.CommandLine
