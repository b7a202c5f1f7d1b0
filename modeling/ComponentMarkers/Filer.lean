import ComponentMarkers.Element
import ComponentMarkers.IoError

/-!
# Filers

A filer creates resources and takes their content in.  It works on a state of type `σ`; a resource
being written is a writer of type `ω`.  Several writers may be open at a time.  Closing a writer always
succeeds, and what closing it leaves behind is the filer's own rule.
-/

namespace ComponentMarkers

/-- What a resource is for. -/
inductive Location where
  | classOutput
  | sourceOutput
  deriving DecidableEq, Repr

namespace Location

/-- Both locations in their order. -/
def all : List Location :=
  [classOutput, sourceOutput]

/-- The name of the location in reports. -/
def code : Location → String
  | classOutput => "class_output"
  | sourceOutput => "source_output"

/-- The name of the location in messages to developers. -/
def title : Location → String
  | classOutput => "ClassOutput"
  | sourceOutput => "SourceOutput"

/-- The position of a location. -/
def rank : Location → Nat
  | classOutput => 0
  | sourceOutput => 1

/-- The order of locations. -/
def compare (a b : Location) : Ordering :=
  Ord.compare a.rank b.rank

end Location

/-- What a resource is called. -/
structure ResourceName where
  location : Location
  package : String
  /-- The name relative to the directory of the package. -/
  name : String
  deriving DecidableEq, Repr

namespace ResourceName

/-- The path of the resource relative to its output root. -/
def path (resource : ResourceName) : Path :=
  resourcePath resource.package resource.name

end ResourceName

/-- The operations of a filer. -/
structure Filer (σ ω : Type) where
  /-- Opens a resource.  The element it is derived from is for the filer's information only. -/
  create : ResourceName → Option ElementId → σ → Except IoError ω × σ
  /-- Adds content at the end of what was written so far. -/
  write : ω → List UInt8 → σ → (Except IoError Unit × ω) × σ
  /-- Makes sure that the content written so far has arrived. -/
  flush : ω → σ → (Except IoError Unit × ω) × σ
  /-- Gives a writer up. -/
  close : ω → σ → σ

namespace Filer

/-- Writes a whole resource.  Its writer is given up whether or not this succeeds. -/
def writeResource (filer : Filer σ ω) (resource : ResourceName) (origin : Option ElementId)
    (content : List UInt8) (state : σ) : Except IoError Unit × σ :=
  match filer.create resource origin state with
  | (.error e, state) => (.error e, state)
  | (.ok writer, state) =>
    match filer.write writer content state with
    | ((.error e, writer), state) => (.error e, filer.close writer state)
    | ((.ok (), writer), state) =>
      let ((result, writer), state) := filer.flush writer state
      (result, filer.close writer state)

end Filer

end ComponentMarkers
