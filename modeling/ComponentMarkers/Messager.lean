import ComponentMarkers.Diagnostic
import ComponentMarkers.Log

/-!
# Messagers

A messager takes diagnostics in.  It keeps them in a record, forwards them to the log, or hands each of
them to two other messagers.  Records are known by number, so several messagers may share one.
-/

namespace ComponentMarkers

/-- The event a diagnostic becomes in the log. -/
def Diagnostic.event (diagnostic : Diagnostic) : LogEvent :=
  let level : LogLevel :=
    match diagnostic.kind with
    | .error => .error
    | .warning | .mandatoryWarning => .warn
    | .note | .other => .info
  ⟨level, .messaging, diagnostic.message⟩

/-- Where diagnostics go. -/
inductive Messager where
  /-- Keeps them in the record with a number. -/
  | record (number : Nat)
  /-- Forwards them to the log. -/
  | log
  /-- Hands them to the first messager and then to the second. -/
  | tee (first second : Messager)
  deriving DecidableEq, Repr

/-- All records, each in the order of entry. -/
structure Records where
  entries : Array (List Diagnostic)
  deriving DecidableEq, Repr

namespace Records

/-- No records. -/
def empty : Records :=
  ⟨#[]⟩

/-- A new record, and its number. -/
def openNew (records : Records) : Records × Nat :=
  (⟨records.entries.push []⟩, records.entries.size)

/-- The diagnostics in a record. -/
def diagnostics (records : Records) (number : Nat) : List Diagnostic :=
  (records.entries[number]?).getD []

/-- Adds a diagnostic to a record. -/
def add (records : Records) (number : Nat) (diagnostic : Diagnostic) : Records :=
  ⟨records.entries.modify number fun entries => entries ++ [diagnostic]⟩

/-- Empties a record. -/
def clear (records : Records) (number : Nat) : Records :=
  ⟨records.entries.modify number fun _ => []⟩

/-- Takes the diagnostics out of a record. -/
def take (records : Records) (number : Nat) : List Diagnostic × Records :=
  (records.diagnostics number, records.clear number)

end Records

namespace Messager

/-- Hands a diagnostic to a messager. -/
def print (diagnostic : Diagnostic) : Messager → Records × List LogEvent → Records × List LogEvent
  | record number, (records, events) => (records.add number diagnostic, events)
  | log, (records, events) => (records, events ++ [diagnostic.event])
  | tee first second, state => second.print diagnostic (first.print diagnostic state)

/-- Hands diagnostics to a messager one after the other. -/
def printAll (messager : Messager) (diagnostics : List Diagnostic)
    (state : Records × List LogEvent) : Records × List LogEvent :=
  diagnostics.foldl (fun state diagnostic => messager.print diagnostic state) state

/-- The record a messager reads from, if it has one. -/
def record? : Messager → Option Nat
  | record number => some number
  | _ => none

end Messager

end ComponentMarkers
