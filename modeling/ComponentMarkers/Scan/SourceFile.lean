import ComponentMarkers.Path

/-!
# Which files are sources

Sources are told by their extension.  Directories that hold build products or hidden things never
matter, at whatever depth below the root of a scan.
-/

namespace ComponentMarkers.Scan

/-- The extension of sources. -/
def sourceExtension : String :=
  "java"

/-- Names of directories that never hold sources written by hand. -/
def skippedNames : List String :=
  ["target", "build", "node_modules"]

/-- The path has the extension of sources. -/
def isSourceFile (path : Path) : Bool :=
  path.extension? = some sourceExtension

/-- A name that begins with a dot. -/
def isHiddenName (name : String) : Bool :=
  name.toList.head? = some '.'

/-- A step to something hidden or skipped. -/
def isSkippedStep : Component → Bool
  | .normal name => isHiddenName name || skippedNames.contains name
  | _ => false

/-- A change of the file at `path` can change what a scan of `root` finds. -/
def isRelevant (root path : Path) : Bool :=
  !((root.below? path).getD path.components).any isSkippedStep && isSourceFile path

end ComponentMarkers.Scan
