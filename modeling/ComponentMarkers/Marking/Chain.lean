import ComponentMarkers.Element

/-!
# Chains of enclosing elements

From an element one gets to the element it is written in, and on to the top.  A broken table may lead
round in a circle or to numbers it does not know; a chain ends there.
-/

namespace ComponentMarkers

/-- Why a chain has no further links. -/
inductive ChainEnd where
  /-- The last element is in no other. -/
  | top
  /-- The next element is one of the chain. -/
  | loop (back : ElementId)
  /-- The next element is not in the table. -/
  | unknown (id : ElementId)
  deriving DecidableEq, Repr

/-- Distinct elements, each written in the next one, and why there are no more. -/
structure EnclosingChain where
  links : List (ElementId × Element)
  ending : ChainEnd
  deriving DecidableEq, Repr

namespace ElementTable

/-- The chain that goes on with `next` when the elements in `visited` are on it already; it has at most
`bound` links and one more. -/
def chainFrom (table : ElementTable) : (bound : Nat) → (visited : List ElementId) →
    (next : Option ElementId) → EnclosingChain
  | _, _, none => ⟨[], .top⟩
  | bound, visited, some id =>
    if visited.contains id then
      ⟨[], .loop id⟩
    else
      match table.get? id with
      | none => ⟨[], .unknown id⟩
      | some element =>
        match bound with
        | 0 => ⟨[(id, element)], .top⟩
        | bound + 1 =>
          let rest := chainFrom table bound (id :: visited) element.enclosing
          ⟨(id, element) :: rest.links, rest.ending⟩

/-- The chain from an element, which is its first link, up to the top. -/
def enclosingChain (table : ElementTable) (id : ElementId) : EnclosingChain :=
  table.chainFrom table.elements.size [] (some id)

end ElementTable

end ComponentMarkers
