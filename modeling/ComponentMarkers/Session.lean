import ComponentMarkers.Filer.Recording
import ComponentMarkers.Json.Forms
import ComponentMarkers.Processor

/-!
# Sessions

A session hands rounds to a processor and reports what each of them produced.  The report is made from
what the host's facilities saw: the session puts a record before the filer and lets every diagnostic go
both to the host's messager and to a record of its own.
-/

namespace ComponentMarkers

/-- What one round of a session produced. -/
structure RoundReport where
  /-- Rounds are counted from 1. -/
  round : Nat
  /-- The supported annotations that the round contains. -/
  annotations : List String
  /-- The paths of the resources that were finished, relative to the output root. -/
  written : List Path
  diagnostics : List Diagnostic
  claimed : Bool
  deriving DecidableEq, Repr

namespace RoundReport

/-- The number of errors in the report. -/
def errorCount (report : RoundReport) : Nat :=
  Diagnostic.errorCount report.diagnostics

/-- The report as a JSON object. -/
def json (report : RoundReport) : JsonValue :=
  .object
    [("round", .number report.round),
      ("annotations", .array (report.annotations.map .string)),
      ("written", .array (report.written.map fun path => .string path.text)),
      ("diagnostics", .array (report.diagnostics.map Diagnostic.json)),
      ("claimed", .bool report.claimed)]

end RoundReport

/-- A processor that has been set up, and what its session keeps between rounds. -/
structure Session where
  processor : Processor
  /-- The number of the session's own record. -/
  record : Nat
  /-- Finished resources that no report has listed. -/
  written : List Path
  /-- How many rounds were run. -/
  rounds : Nat
  deriving DecidableEq, Repr

namespace Session

/-- Opens a session in which diagnostics also go to `messager`. -/
def start (processor : Processor) (messager : Messager) (host : HostState σ) :
    Session × HostState σ :=
  let (records, number) := host.records.openNew
  (⟨processor.init (.tee messager (.record number)), number, [], 0⟩,
    { host with records := records })

/-- The supported annotations that a round contains.  The round that ends a run contains none. -/
def presentAnnotations (session : Session) (round : Round) : List String :=
  if round.isOver then
    []
  else
    session.processor.registry.toList.filter fun identifier => !(round.annotated identifier).isEmpty

/-- Runs one round. -/
def runRound (filer : Filer σ ω) (now : Timestamp) (round : Round) (session : Session)
    (host : HostState σ) : Except UnknownElement RoundReport × Session × HostState σ :=
  let present := session.presentAnnotations round
  let session := { session with rounds := session.rounds + 1 }
  let seen : HostState (Recorded σ) := ⟨⟨host.resources, session.written⟩, host.records, host.log⟩
  let (claimed, seen) := session.processor.process (recordingFiler filer) now present round seen
  match claimed with
  | .error unknown =>
    (.error unknown, { session with written := seen.resources.written },
      ⟨seen.resources.state, seen.records, seen.log⟩)
  | .ok claimed =>
    let (diagnostics, records) := seen.records.take session.record
    (.ok ⟨session.rounds, present, seen.resources.written, diagnostics, claimed⟩,
      { session with written := [] }, ⟨seen.resources.state, records, seen.log⟩)

end Session

end ComponentMarkers
