import ComponentMarkers.Path
import ComponentMarkers.Text.Quoted

/-!
# Paths of resources

A resource has a package and a name relative to it.  The segments of the package become directories.
Names that lead out of the directory of their package are refused.
-/

namespace ComponentMarkers

open Text

/-- The directory of a package: its segments one below the other, empty ones left out. -/
def packagePath (package : String) : Path :=
  ((segments package).filter (· ≠ "")).foldl (fun path segment => path.join ⟨segment⟩) ⟨""⟩

/-- Where a resource lies relative to the output root. -/
def resourcePath (package name : String) : Path :=
  (packagePath package).join ⟨name⟩

/-- A name is plain when it leads below the directory it is taken from, step by step. -/
def isPlainName (name : String) : Bool :=
  !name.isEmpty && ((Path.mk name).components.all fun step => step.name?.isSome)

/-- The complaint about a name that is not plain. -/
def invalidNameMessage (name : String) : String :=
  "invalid relative resource name: " ++ quoteName name

end ComponentMarkers
