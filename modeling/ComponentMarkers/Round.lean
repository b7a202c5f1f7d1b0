import ComponentMarkers.Element

/-!
# Rounds

A round is what a processor sees of the program at one time: its elements, and which of them carry an
annotation.  The last round of a run is marked as such and brings nothing new.
-/

namespace ComponentMarkers

/-- One round as a host presents it. -/
structure Round where
  table : ElementTable
  /-- The elements that carry the annotation with a given identifier. -/
  annotated : String → List ElementId
  /-- The run is over. -/
  isOver : Bool

end ComponentMarkers
