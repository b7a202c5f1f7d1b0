import ComponentMarkers.Element
import ComponentMarkers.Json.Value

/-!
# What a processor declares

The annotations a processor wants to see, the options it knows, and the release of the source language
it was made for.
-/

namespace ComponentMarkers

/-- Releases of the source language. -/
inductive SourceVersion where
  | release6
  | release7
  | release8
  | release11
  | release17
  | release21
  deriving DecidableEq, Repr

namespace SourceVersion

/-- All releases, in their order. -/
def all : List SourceVersion :=
  [release6, release7, release8, release11, release17, release21]

/-- The number of a release. -/
def release : SourceVersion → Nat
  | release6 => 6
  | release7 => 7
  | release8 => 8
  | release11 => 11
  | release17 => 17
  | release21 => 21

/-- The name of a release. -/
def label (version : SourceVersion) : String :=
  "RELEASE_" ++ toString version.release

end SourceVersion

/-- A suggested value for a member of an annotation. -/
structure Completion where
  value : String
  message : String
  deriving DecidableEq, Repr

/-- What a processor declares about itself. -/
structure Capabilities where
  annotations : List String
  options : List String
  sourceVersion : SourceVersion
  deriving DecidableEq, Repr

namespace Capabilities

/-- The declaration as a JSON object. -/
def json (capabilities : Capabilities) : JsonValue :=
  .object
    [("supported_annotation_types", .array (capabilities.annotations.map .string)),
      ("supported_options", .array (capabilities.options.map .string)),
      ("supported_source_version", .string capabilities.sourceVersion.label)]

end Capabilities

end ComponentMarkers
