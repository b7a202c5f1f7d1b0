import ComponentMarkers.Capabilities
import ComponentMarkers.Diagnostic
import ComponentMarkers.Filer
import ComponentMarkers.Json.Reader
import ComponentMarkers.Marking.Identity

/-!
# The JSON forms of the domain

Kinds, locations and releases are written as their names, element numbers as numbers, and what has
fields as an object of these.
-/

namespace ComponentMarkers

/-- The member of a list that has a name. -/
def findNamed (all : List α) (nameOf : α → String) (name : String) : Option α :=
  all.find? fun value => nameOf value = name

namespace ElementKind

/-- The kind as JSON. -/
def json (kind : ElementKind) : JsonValue :=
  .string kind.label

/-- Reads a kind. -/
def reader : JsonReader ElementKind :=
  .oneOf ofLabel?

end ElementKind

namespace ElementId

/-- The number as JSON. -/
def json (id : ElementId) : JsonValue :=
  .number id.index

/-- Reads a number. -/
def reader : JsonReader ElementId := fun cs =>
  (JsonReader.countBelow count cs).map fun (n, rest) => (ofIndex n, rest)

end ElementId

namespace DiagnosticKind

/-- The kind as JSON. -/
def json (kind : DiagnosticKind) : JsonValue :=
  .string kind.code

/-- Reads a kind. -/
def reader : JsonReader DiagnosticKind :=
  .oneOf (findNamed all code)

end DiagnosticKind

namespace Diagnostic

/-- The diagnostic as JSON. -/
def json (diagnostic : Diagnostic) : JsonValue :=
  .object [("kind", diagnostic.kind.json), ("message", .string diagnostic.message)]

/-- Reads a diagnostic. -/
def reader : JsonReader Diagnostic := fun cs =>
  (JsonReader.record ⟨"kind", DiagnosticKind.reader, "message", .text⟩ cs).map
    fun ((kind, message), rest) => (⟨kind, message⟩, rest)

end Diagnostic

namespace Location

/-- The location as JSON. -/
def json (location : Location) : JsonValue :=
  .string location.code

/-- Reads a location. -/
def reader : JsonReader Location :=
  .oneOf (findNamed all code)

end Location

namespace SourceVersion

/-- The release as JSON. -/
def json (version : SourceVersion) : JsonValue :=
  .string version.label

/-- Reads a release. -/
def reader : JsonReader SourceVersion :=
  .oneOf (findNamed all label)

end SourceVersion

namespace Completion

/-- The suggestion as JSON. -/
def json (completion : Completion) : JsonValue :=
  .object [("value", .string completion.value), ("message", .string completion.message)]

/-- Reads a suggestion. -/
def reader : JsonReader Completion := fun cs =>
  (JsonReader.record ⟨"value", .text, "message", .text⟩ cs).map
    fun ((value, message), rest) => (⟨value, message⟩, rest)

end Completion

namespace ArtifactIdentity

/-- The identity as JSON. -/
def json (identity : ArtifactIdentity) : JsonValue :=
  .object
    [("package", .string identity.package), ("nested_name", .string identity.nestedName)]

/-- Reads an identity. -/
def reader : JsonReader ArtifactIdentity := fun cs =>
  (JsonReader.record ⟨"package", .text, "nested_name", .text⟩ cs).map
    fun ((package, nestedName), rest) => (⟨package, nestedName⟩, rest)

end ArtifactIdentity

end ComponentMarkers
