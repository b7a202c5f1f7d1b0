/-!
# Log files

Each command of the program logs into files of its own, one for every day.
-/

namespace ComponentMarkers

/-- The commands that log. -/
inductive LogTarget where
  | scan
  | watch
  | capabilities
  deriving DecidableEq, Repr

namespace LogTarget

/-- What the names of the log files of a command begin with. -/
def fileStem : LogTarget → String
  | scan => "cdigen-scan"
  | watch => "cdigen-watch"
  | capabilities => "cdigen-capabilities"

/-- The name of the log file of a command on a day. -/
def fileName (target : LogTarget) (day : String) : String :=
  target.fileStem ++ "." ++ day ++ ".log"

end LogTarget

end ComponentMarkers
