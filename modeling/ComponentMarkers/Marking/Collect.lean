import ComponentMarkers.Log
import ComponentMarkers.MarkerRegistry
import ComponentMarkers.Marking.Chain
import ComponentMarkers.Round

/-!
# Collecting the classes to mark

An annotated element marks every class it is written in, and itself when it is a class.  Classes are
listed in the order in which they are met, each once.
-/

namespace ComponentMarkers

/-- The event that the chain from an element does not reach the top. -/
def loopEvent (start back : ElementId) : LogEvent :=
  ⟨.warn, .collection, "Enclosing chain of " ++ start.label ++ " loops back to " ++ back.label⟩

/-- The classes among the links of a chain. -/
def EnclosingChain.classes (chain : EnclosingChain) : List ElementId :=
  (chain.links.filter fun link => link.2.kind.isClass).map Prod.fst

/-- Adds the classes that the elements are written in to those collected so far.  An element that is
not in the table ends the collection. -/
def collectInto (table : ElementTable) : (classes : OrderedSet ElementId) → (log : List LogEvent) →
    List ElementId → Except UnknownElement (OrderedSet ElementId) × List LogEvent
  | classes, log, [] => (.ok classes, log)
  | classes, log, id :: rest =>
    let chain := table.enclosingChain id
    let classes := classes.insertAll chain.classes
    match chain.ending with
    | .top => collectInto table classes log rest
    | .loop back => collectInto table classes (log ++ [loopEvent id back]) rest
    | .unknown unknown => (.error ⟨unknown⟩, log)

/-- The classes that some elements are written in, and the events of collecting them. -/
def collectClasses (table : ElementTable) (annotated : List ElementId) :
    Except UnknownElement (OrderedSet ElementId) × List LogEvent :=
  collectInto table .empty [] annotated

/-- The classes that the given annotations mark.  Annotations outside the registry mark none. -/
def discover (registry : MarkerRegistry) (annotations : List String) (round : Round) :
    Except UnknownElement (OrderedSet ElementId) × List LogEvent :=
  collectClasses round.table ((annotations.filter registry.contains).flatMap round.annotated)

end ComponentMarkers
