import ComponentMarkers.FileSystem.Change
import ComponentMarkers.Log.Target
import ComponentMarkers.Log.Written
import ComponentMarkers.Text.Encoded

/-!
# The log file of a run

A run adds its events to the log file of its command and day, which lies in a directory below the home
of the user.  The directory is made when it is missing.  A run that has no log file goes on without it.
-/

namespace ComponentMarkers

/-- The directory of the log files of a user. -/
def logDirectory (home : Path) : Path :=
  (home.join ⟨".cdigen"⟩).join ⟨"logs"⟩

/-- Why a run has no log file. -/
inductive LogFileFault where
  | noDirectory (error : IoError)
  | noFile (error : IoError)
  deriving DecidableEq, Repr

namespace LogFileFault

/-- The complaint in words. -/
def message : LogFileFault → String
  | noDirectory error => "failed to create log directory: " ++ error.message
  | noFile error => "failed to create initial log file: " ++ error.message

/-- The event that a run goes on without a log file. -/
def event (home : Path) (fault : LogFileFault) : LogEvent :=
  ⟨.warn, .logging,
    "File logging disabled, " ++ (logDirectory home).text ++ " unusable: " ++ fault.message⟩

end LogFileFault

namespace FileTree

/-- Opens the log file of a command on a day.  What it holds is kept. -/
def openLogFile (tree : FileTree) (home : Path) (target : LogTarget) (day : String) :
    Except LogFileFault Place × FileTree :=
  let directory := logDirectory home
  let path := directory.join ⟨target.fileName day⟩
  match tree.openFile true path with
  | .ok (place, tree) => (.ok place, tree)
  | .error _ =>
    match tree.makeDirectories directory.components with
    | (.error error, tree) => (.error (.noDirectory error), tree)
    | (.ok (), tree) =>
      match tree.openFile true path with
      | .ok (place, tree) => (.ok place, tree)
      | .error error => (.error (.noFile error), tree)

/-- Writes events at the end of the file at a place. -/
def appendEvents (tree : FileTree) (place : Place) (events : List LogEvent) : FileTree :=
  match tree.node? place with
  | some (.file content) =>
    let lines := events.map fun event => event.written ++ "\n"
    tree.writeAt place content.length (Text.encode (String.join lines))
  | _ => tree

end FileTree

end ComponentMarkers
