import ComponentMarkers.Scan.SourceFile
import ComponentMarkers.Scan.Surroundings

/-!
# The sources below some roots

A root is walked into all its directories that no rule leaves out; a root itself is never left out.
Links to directories are followed only where they are roots.  Sources are listed in the order of paths,
each once.
-/

namespace ComponentMarkers.Scan

/-- The first root that leads to nothing. -/
structure MissingRoot where
  path : Path
  deriving DecidableEq, Repr

namespace MissingRoot

/-- The complaint in words. -/
def message (missing : MissingRoot) : String :=
  "Source root does not exist: " ++ missing.path.text

end MissingRoot

/-- An entry is left out of a walk. -/
def isLeftOut (surroundings : Surroundings) (path : Path) (name : String) (isDirectory : Bool) :
    Bool :=
  skippedNames.contains name ||
    match surroundings.verdict path isDirectory with
    | .ignored => true
    | .kept => false
    | .undecided => isHiddenName name

/-- Everything but directories in and below a directory; a walk goes down at most `bound` levels. -/
def walkInto (tree : FileTree) : (bound : Nat) → Surroundings → Path → Place → List Path
  | 0, _, _, _ => []
  | bound + 1, surroundings, directory, place =>
    let inside := surroundings.enter tree directory
    (tree.namesIn place).flatMap fun name =>
      let path := directory.join ⟨name⟩
      let isDirectory := tree.isDirectoryAt (place ++ [name])
      if isLeftOut inside path name isDirectory then []
      else if isDirectory then walkInto tree bound inside path (place ++ [name])
      else [path]

/-- Everything but directories at and below a root.  The path `-`, however it is spelled, stands for the
input of the program and holds nothing. -/
def walk (tree : FileTree) (root : Path) : List Path :=
  if root.same ⟨"-"⟩ then
    []
  else
    match tree.resolve? root with
    | .error _ => []
    | .ok place =>
      if tree.isDirectoryAt place then
        walkInto tree (tree.entries.length + 1) (.above tree place) root place
      else
        [root]

/-- The sources at and below a root. -/
def sourcesBelow (tree : FileTree) (root : Path) : List Path :=
  (walk tree root).filter fun path => tree.isFile path && isSourceFile path

/-- A list in which of neighbours that are spellings of one path only the first is left. -/
def withoutRepetitions : List Path → List Path
  | [] => []
  | path :: rest =>
    match withoutRepetitions rest with
    | [] => [path]
    | next :: more => if path.same next then path :: more else path :: next :: more

/-- The sources below some roots, or the first root that is missing. -/
def collectSources (tree : FileTree) (roots : List Path) : Except MissingRoot (List Path) :=
  match roots.find? fun root => !tree.isPresent root with
  | some root => .error ⟨root⟩
  | none =>
    .ok (withoutRepetitions
      ((roots.flatMap (sourcesBelow tree)).mergeSort fun a b => a.compare b != .gt))

end ComponentMarkers.Scan
