import ComponentMarkers.FileSystem.Tree
import ComponentMarkers.Log
import ComponentMarkers.Scan.Sources
import ComponentMarkers.Session
import ComponentMarkers.Text.Quoted

/-!
# What a command does

A command prints a text, logs events and leaves a tree of files behind.  When it fails it stops at once;
what it has done until then stays.
-/

namespace ComponentMarkers.CommandLine

/-- Why a command failed. -/
inductive Failure where
  | missingRoot (missing : Scan.MissingRoot)
  /-- A root to be watched leads to nothing. -/
  | unreachableRoot (error : IoError)
  /-- A round names an element that it does not have. -/
  | unknownElement (unknown : UnknownElement)
  deriving DecidableEq, Repr

namespace Failure

/-- The failure with all that is known of it. -/
def details : Failure → String
  | missingRoot missing => "MissingRoot(" ++ Text.quotePath missing.path.text ++ ")"
  | unreachableRoot error => error.details
  | unknownElement unknown => "UnknownElement(" ++ unknown.id.label ++ ")"

end Failure

/-- What a command has done. -/
structure Effect where
  failure : Option Failure
  /-- The printed text. -/
  output : String
  log : List LogEvent
  tree : FileTree
  deriving DecidableEq, Repr

/-- The events in which a round is summed up. -/
def summary (report : RoundReport) : List LogEvent :=
  let counts : LogEvent :=
    ⟨.info, .scanning,
      "Round " ++ toString report.round ++ ": " ++ toString report.written.length ++
        " marker(s) written, " ++ toString report.errorCount ++ " error(s)"⟩
  if report.errorCount = 0 then
    [counts]
  else
    [counts, ⟨.warn, .scanning, "Some component classes were not marked; see errors above"⟩]

end ComponentMarkers.CommandLine
