/-!
# Diagnostics

What a round has to say to the user, each message with the weight it has.
-/

namespace ComponentMarkers

/-- The weight of a message. -/
inductive DiagnosticKind where
  | error
  | warning
  | mandatoryWarning
  | note
  | other
  deriving DecidableEq, Repr

namespace DiagnosticKind

/-- All kinds. -/
def all : List DiagnosticKind :=
  [error, warning, mandatoryWarning, note, other]

/-- The name of the kind before a message. -/
def label : DiagnosticKind → String
  | error => "error"
  | warning => "warning"
  | mandatoryWarning => "mandatory warning"
  | note => "note"
  | other => "other"

/-- The name of the kind in reports, one word. -/
def code : DiagnosticKind → String
  | error => "error"
  | warning => "warning"
  | mandatoryWarning => "mandatory_warning"
  | note => "note"
  | other => "other"

end DiagnosticKind

/-- A message with its weight. -/
structure Diagnostic where
  kind : DiagnosticKind
  message : String
  deriving DecidableEq, Repr

namespace Diagnostic

/-- A message of the greatest weight. -/
def error (message : String) : Diagnostic :=
  ⟨.error, message⟩

/-- The message is an error. -/
def isError (diagnostic : Diagnostic) : Bool :=
  diagnostic.kind = .error

/-- The message after the name of its kind. -/
def display (diagnostic : Diagnostic) : String :=
  diagnostic.kind.label ++ ": " ++ diagnostic.message

/-- How many errors are among some diagnostics. -/
def errorCount (diagnostics : List Diagnostic) : Nat :=
  diagnostics.countP isError

end Diagnostic

end ComponentMarkers
