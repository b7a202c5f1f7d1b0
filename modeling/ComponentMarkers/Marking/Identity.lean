import ComponentMarkers.Marking.Chain
import ComponentMarkers.ResourcePath

/-!
# Identities of markers

The marker of a class is named after the package the class belongs to and the simple names of the types
around it, the outermost first.
-/

namespace ComponentMarkers

/-- Package and nested name of a class. -/
structure ArtifactIdentity where
  /-- Empty for the unnamed package. -/
  package : String
  nestedName : String
  deriving DecidableEq, Repr

namespace ArtifactIdentity

/-- What stands between the simple names of nested types. -/
def separator : String :=
  "$"

/-- The name of the marker in the directory of its package. -/
def fileName (identity : ArtifactIdentity) : String :=
  identity.nestedName ++ ".component"

/-- The path of the marker relative to the output root. -/
def relativePath (identity : ArtifactIdentity) : Path :=
  resourcePath identity.package identity.fileName

/-- The identity as a dotted name. -/
def display (identity : ArtifactIdentity) : String :=
  Text.qualify identity.package identity.nestedName

end ArtifactIdentity

/-- What keeps an element from having an identity. -/
inductive ChainFault where
  | endsEarly
  | loopsBack (id : ElementId)
  | enclosedBy (kind : ElementKind)
  deriving DecidableEq, Repr

namespace ChainFault

/-- The fault in words. -/
def reason : ChainFault → String
  | endsEarly => "chain ends before reaching a package"
  | loopsBack id => "chain loops back to " ++ id.label
  | enclosedBy kind => "enclosed by a " ++ kind.label ++ " rather than a type or package"

end ChainFault

/-- An element without an identity, by its qualified name. -/
structure StructuralError where
  element : String
  fault : ChainFault
  deriving DecidableEq, Repr

namespace StructuralError

/-- The error in words. -/
def message (error : StructuralError) : String :=
  error.element ++ ": " ++ error.fault.reason

end StructuralError

/-- Why an identity could not be resolved. -/
inductive ResolveError where
  | unknown (element : UnknownElement)
  | structural (error : StructuralError)
  deriving DecidableEq, Repr

/-- The way from an element to its package: the package's name and the simple names on the way, the
outermost first.  `names` are the simple names met so far, the outermost first. -/
def climb (ending : ChainEnd) : (names : List String) → List (ElementId × Element) →
    Except (ChainFault ⊕ UnknownElement) (String × List String)
  | names, (_, owner) :: rest =>
    if owner.kind.isPackage then .ok (owner.qualifiedName, names)
    else if owner.kind.isType then climb ending (owner.simpleName :: names) rest
    else .error (.inl (.enclosedBy owner.kind))
  | _, [] =>
    match ending with
    | .top => .error (.inl .endsEarly)
    | .loop back => .error (.inl (.loopsBack back))
    | .unknown id => .error (.inr ⟨id⟩)

/-- The identity of a class.  On the way up to its package there may be types only. -/
def resolveIdentity (table : ElementTable) (id : ElementId) :
    Except ResolveError ArtifactIdentity :=
  match table.get? id with
  | none => .error (.unknown ⟨id⟩)
  | some element =>
    let chain := table.enclosingChain id
    match climb chain.ending [element.simpleName] chain.links.tail with
    | .ok (package, names) => .ok ⟨package, ArtifactIdentity.separator.intercalate names⟩
    | .error (.inl fault) => .error (.structural ⟨element.qualifiedName, fault⟩)
    | .error (.inr unknown) => .error (.unknown unknown)

end ComponentMarkers
