/-!
# The log

Events of the program, in the order in which they happen.  Every event belongs to one part of the
program, by whose name a filter may let it through or hold it back.
-/

namespace ComponentMarkers

/-- The weight of an event. -/
inductive LogLevel where
  | info
  | warn
  | error
  deriving DecidableEq, Repr

namespace LogLevel

/-- The name of a level before a message. -/
def label : LogLevel → String
  | info => "INFO"
  | warn => "WARN"
  | error => "ERROR"

end LogLevel

/-- The parts of the program that events come from. -/
inductive LogSource where
  | collection
  | marking
  | messaging
  | logging
  | loading
  | scanning
  | watching
  deriving DecidableEq, Repr

namespace LogSource

/-- The name of a part in filters. -/
def label : LogSource → String
  | collection => "cdigen_core::processor::collector"
  | marking => "cdigen_core::processor"
  | messaging => "cdigen_core::messager"
  | logging => "cdigen_core::logging"
  | loading => "cdigen_java"
  | scanning => "cdigen_cli::scan"
  | watching => "cdigen_cli::watch"

end LogSource

/-- Something that happened. -/
structure LogEvent where
  level : LogLevel
  source : LogSource
  message : String
  deriving DecidableEq, Repr

namespace LogEvent

/-- An event as a line. -/
def line (event : LogEvent) : String :=
  event.level.label ++ " " ++ event.message

end LogEvent

end ComponentMarkers
