import ComponentMarkers.Element
import ComponentMarkers.Path

/-!
# Compilation units

What one source file declares: its package, its imports and its types with their members.  Names of
annotations and superclasses are kept as they are written; the round resolves them.
-/

namespace ComponentMarkers.Source

/-- An import.  `name` is the dotted name without the `.*` of an import on demand. -/
structure Import where
  name : String
  onDemand : Bool
  isStatic : Bool
  deriving DecidableEq, Repr

/-- A type or a member of a type.  Constructors are all named `<init>`. -/
structure Declaration where
  kind : ElementKind
  name : String
  annotations : List String
  /-- The class named in the `extends` clause of a class, without type arguments. -/
  superclass : Option String
  members : List Declaration
  deriving Repr

namespace Declaration

/-- The name every constructor has. -/
def constructorName : String :=
  "<init>"

/-- The first direct member with a name. -/
def member? (declaration : Declaration) (name : String) : Option Declaration :=
  declaration.members.find? fun member => member.name = name

end Declaration

/-- The declarations of one source file. -/
structure CompilationUnit where
  path : Option Path
  /-- No package stands for the unnamed one. -/
  package : Option String
  packageAnnotations : List String
  imports : List Import
  types : List Declaration
  deriving Repr

end ComponentMarkers.Source
