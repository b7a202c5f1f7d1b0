import ComponentMarkers.OrderedSet

/-!
# Marking annotations

The annotations that make a class a component: the scopes and the interceptor annotation.  They are
told apart by their full identifiers, letter by letter.
-/

namespace ComponentMarkers

/-- The identifiers of the annotations that mark a class. -/
structure MarkerRegistry where
  identifiers : OrderedSet String
  deriving DecidableEq, Repr

namespace MarkerRegistry

/-- The registry of a list of identifiers, each counted once. -/
def ofList (identifiers : List String) : MarkerRegistry :=
  ⟨.ofList identifiers⟩

/-- The identifier is registered. -/
def contains (registry : MarkerRegistry) (identifier : String) : Bool :=
  registry.identifiers.contains identifier

/-- The registered identifiers in the order of entry. -/
def toList (registry : MarkerRegistry) : List String :=
  registry.identifiers.toList

/-- The scopes, followed by the interceptor annotation. -/
def standardIdentifiers : List String :=
  ["javax.enterprise.context.Dependent", "javax.enterprise.context.ApplicationScoped",
    "javax.enterprise.context.SessionScoped", "javax.enterprise.context.ConversationScoped",
    "javax.enterprise.context.RequestScoped", "javax.interceptor.Interceptor"]

/-- The registry that is used unless another one is given. -/
def standard : MarkerRegistry :=
  ofList standardIdentifiers

end MarkerRegistry

end ComponentMarkers
