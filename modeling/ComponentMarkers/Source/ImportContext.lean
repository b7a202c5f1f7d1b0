import ComponentMarkers.Source.Declaration
import ComponentMarkers.Text.Dotted

/-!
# Names seen from a compilation unit

A simple name written in a unit is looked up among the unit's imports, in its package and in the
packages it imports on demand.  A single-type import of a name hides everything else of that name.
Static imports bring no types into scope.
-/

namespace ComponentMarkers.Source

open ComponentMarkers.Text

/-- The package whose types every unit sees. -/
def implicitPackage : String :=
  "java.lang"

/-- What the names written in one unit are resolved against. -/
structure ImportContext where
  /-- Empty for the unnamed package. -/
  package : String
  /-- Qualified names of the types imported one by one, in written order. -/
  singleTypes : List String
  /-- Packages imported on demand, in written order. -/
  onDemand : List String
  deriving DecidableEq, Repr, Inhabited

namespace ImportContext

/-- The context of a unit with the given package and imports. -/
def ofImports (package : Option String) (imports : List Import) : ImportContext :=
  let plain := imports.filter fun item => !item.isStatic
  { package := package.getD ""
    singleTypes := (plain.filter fun item => !item.onDemand).map Import.name
    onDemand := (plain.filter fun item => item.onDemand).map Import.name }

/-- The first single-type import of a simple name. -/
def imported? (context : ImportContext) (simple : String) : Option String :=
  context.singleTypes.find? fun name => lastSegment name = simple

/-- An annotation written as `written` is the one with the qualified name `identifier`. -/
def denotes (context : ImportContext) (written identifier : String) : Bool :=
  if written.toList.contains '.' then
    written = identifier
  else
    let (package, simple) := (splitLast? identifier).getD ("", identifier)
    if written ≠ simple then
      false
    else
      match context.imported? written with
      | some imported => imported = identifier
      | none =>
        package = context.package || package = implicitPackage || context.onDemand.contains package

/-- The qualified names a simple name may stand for, the nearest first. -/
def typeCandidates (context : ImportContext) (simple : String) : List String :=
  match context.imported? simple with
  | some imported => [imported]
  | none =>
    (context.package :: context.onDemand ++ [implicitPackage]).map fun package =>
      qualify package simple

end ImportContext

end ComponentMarkers.Source
