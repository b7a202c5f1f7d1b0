import ComponentMarkers.Diagnostic
import ComponentMarkers.Filer
import ComponentMarkers.Marking.Collect
import ComponentMarkers.Marking.Identity
import ComponentMarkers.Text.Encoded
import ComponentMarkers.Timestamp

/-!
# Marking the classes of a round

Every class that the annotations of a round mark gets one marker: a resource in the class output that
says when it was written.  A class whose marker fails is reported and the others go on.
-/

namespace ComponentMarkers

/-- What stands before the time in a marker. -/
def provenanceStart : String :=
  "Component file created on "

/-- The content of a marker written at a time. -/
def provenance (now : Timestamp) : String :=
  provenanceStart ++ now.text

/-- What became of one class. -/
inductive MarkResult where
  | marked (identity : ArtifactIdentity)
  | unresolved (id : ElementId) (error : StructuralError)
  | unwritten (qualifiedName : String) (error : IoError)
  deriving DecidableEq, Repr

namespace MarkResult

/-- The identity of a class that was marked. -/
def artifact? : MarkResult → Option ArtifactIdentity
  | marked identity => some identity
  | _ => none

/-- What is to be told about a class that was not marked. -/
def diagnostic? : MarkResult → Option Diagnostic
  | marked _ => none
  | unresolved _ error =>
    some (.error ("Could not resolve owning package for: " ++ error.message))
  | unwritten name error =>
    some (.error ("Could not write source for: " ++ name ++ ": " ++ error.message))

/-- The event that a class was passed over. -/
def event? : MarkResult → Option LogEvent
  | unresolved id error =>
    some ⟨.warn, .marking, "Skipping class " ++ id.label ++ ": " ++ error.message⟩
  | _ => none

end MarkResult

/-- What one round produced. -/
structure RoundOutcome where
  artifacts : List ArtifactIdentity
  diagnostics : List Diagnostic
  deriving DecidableEq, Repr

namespace RoundOutcome

/-- The outcome in which the given things became of the classes. -/
def ofResults (results : List MarkResult) : RoundOutcome :=
  ⟨results.filterMap MarkResult.artifact?, results.filterMap MarkResult.diagnostic?⟩

end RoundOutcome

/-- The name of the resource that is the marker of a class. -/
def ArtifactIdentity.resource (identity : ArtifactIdentity) : ResourceName :=
  ⟨.classOutput, identity.package, identity.fileName⟩

/-- Writes the marker of one class. -/
def markClass (filer : Filer σ ω) (now : Timestamp) (table : ElementTable) (id : ElementId)
    (state : σ) : Except UnknownElement MarkResult × σ :=
  match resolveIdentity table id with
  | .error (.unknown unknown) => (.error unknown, state)
  | .error (.structural error) => (.ok (.unresolved id error), state)
  | .ok identity =>
    match filer.writeResource identity.resource (some id) (Text.encode (provenance now)) state with
    | (.ok (), state) => (.ok (.marked identity), state)
    | (.error error, state) =>
      (.ok (.unwritten (((table.get? id).map Element.qualifiedName).getD "") error), state)

/-- Writes the markers of some classes one after the other. -/
def markAll (filer : Filer σ ω) (now : Timestamp) (table : ElementTable) :
    List ElementId → σ → Except UnknownElement (List MarkResult) × σ
  | [], state => (.ok [], state)
  | id :: rest, state =>
    match markClass filer now table id state with
    | (.error unknown, state) => (.error unknown, state)
    | (.ok result, state) =>
      match markAll filer now table rest state with
      | (.error unknown, state) => (.error unknown, state)
      | (.ok results, state) => (.ok (result :: results), state)

/-- Marks the classes of a round.  What is returned beside the outcome are the events of the round and
the filer's state after it. -/
def processRound (filer : Filer σ ω) (now : Timestamp) (registry : MarkerRegistry)
    (annotations : List String) (round : Round) (state : σ) :
    (Except UnknownElement RoundOutcome × List LogEvent) × σ :=
  match discover registry annotations round with
  | (.error unknown, log) => ((.error unknown, log), state)
  | (.ok classes, log) =>
    match markAll filer now round.table classes.toList state with
    | (.error unknown, state) => ((.error unknown, log), state)
    | (.ok results, state) =>
      ((.ok (.ofResults results), log ++ results.filterMap MarkResult.event?), state)

end ComponentMarkers
