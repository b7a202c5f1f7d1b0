import ComponentMarkers.Capabilities
import ComponentMarkers.Marking.Outcome
import ComponentMarkers.Messager

/-!
# The processor

The processor marks the classes of each round it is handed and reports what went wrong to the messager
it was given before the first round.  Without a messager it has not been set up, and passes rounds
over.
-/

namespace ComponentMarkers

/-- What the host keeps for processors and sessions: the state of its filer, the records of its
messagers and the log. -/
structure HostState (σ : Type) where
  resources : σ
  records : Records
  log : List LogEvent
  deriving DecidableEq, Repr

/-- The processor of component annotations. -/
structure Processor where
  registry : MarkerRegistry
  messager : Option Messager
  deriving DecidableEq, Repr

namespace Processor

/-- A processor that has not been set up. -/
def new : Processor :=
  ⟨.standard, none⟩

/-- Sets the processor up. -/
def init (processor : Processor) (messager : Messager) : Processor :=
  { processor with messager := some messager }

/-- What the processor declares about itself. -/
def capabilities (processor : Processor) : Capabilities :=
  ⟨processor.registry.toList, [], .release6⟩

/-- Suggestions for the value of a member of an annotation: there are none. -/
def completions (_ : Processor) (_element : ElementId) (_identifier : String)
    (_member : Option String) (_userText : String) : List Completion :=
  []

/-- Processes one round, of which the annotations present are listed.  The annotations are always
claimed. -/
def process (filer : Filer σ ω) (now : Timestamp) (processor : Processor)
    (annotations : List String) (round : Round) (host : HostState σ) :
    Except UnknownElement Bool × HostState σ :=
  match processor.messager with
  | none =>
    (.ok true,
      { host with
        log := host.log ++
          [⟨.warn, .marking, "Component processor invoked before init; round ignored"⟩] })
  | some messager =>
    match processRound filer now processor.registry annotations round host.resources with
    | ((.error unknown, events), resources) =>
      (.error unknown, { host with resources := resources, log := host.log ++ events })
    | ((.ok outcome, events), resources) =>
      let (records, log) :=
        messager.printAll outcome.diagnostics (host.records, host.log ++ events)
      let marked : List LogEvent :=
        if outcome.artifacts.isEmpty then
          []
        else
          [⟨.info, .marking,
            "Marked " ++ toString outcome.artifacts.length ++ " component class(es)"⟩]
      (.ok true, ⟨resources, records, log ++ marked⟩)

end Processor

end ComponentMarkers
