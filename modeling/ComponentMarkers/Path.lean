import ComponentMarkers.Text.Dotted

/-!
# Paths

A path is a text.  What it leads to depends only on its components, and paths are compared by these:
`a//b`, `a/./b` and `a/b/` are spellings of one path, and what is below `a` comes before `a-b`.
Spellings are kept, because a path is printed as it was given.
-/

namespace ComponentMarkers

open Text

/-- A path as it is spelled. -/
structure Path where
  text : String
  deriving DecidableEq, Repr, Inhabited

/-- A step that a path takes.  A step to the directory one is in is one only where a path begins. -/
inductive Component where
  | root
  | current
  | parent
  | normal (name : String)
  deriving DecidableEq, Repr

namespace Component

/-- The position of the kind of step in the order of paths. -/
def rank : Component → Nat
  | root => 0
  | current => 1
  | parent => 2
  | normal _ => 3

/-- The order of steps: by kind, and names among themselves by code points. -/
def compare (a b : Component) : Ordering :=
  match a, b with
  | normal x, normal y => Ord.compare x y
  | _, _ => Ord.compare a.rank b.rank

/-- The name of a step into a directory or to a file. -/
def name? : Component → Option String
  | normal name => some name
  | _ => none

/-- A step as it is spelled. -/
def text : Component → String
  | root => "/"
  | current => "."
  | parent => ".."
  | normal name => name

/-- The step that a piece between two slashes stands for, if it stands for any. -/
def ofPiece? : String → Option Component
  | "" => none
  | "." => none
  | ".." => some parent
  | name => some (normal name)

end Component

namespace Path

/-- The path begins at the root of the file system. -/
def isAbsolute (path : Path) : Bool :=
  path.text.toList.head? = some '/'

/-- The path ends with a slash. -/
def endsWithSlash (path : Path) : Bool :=
  path.text.toList.getLast? = some '/'

/-- The steps a path takes. -/
def components (path : Path) : List Component :=
  match splitText '/' path.text with
  | [] => []
  | first :: pieces =>
    let steps := pieces.filterMap Component.ofPiece?
    if path.isAbsolute then .root :: steps
    else if first = "." then .current :: steps
    else (Component.ofPiece? first).toList ++ steps

/-- The order of lists of components: the first difference decides, and a path comes before what is
below it. -/
def compareComponents : List Component → List Component → Ordering
  | [], [] => .eq
  | [], _ :: _ => .lt
  | _ :: _, [] => .gt
  | a :: as, b :: bs => (a.compare b).then (compareComponents as bs)

/-- The order of paths. -/
def compare (a b : Path) : Ordering :=
  compareComponents a.components b.components

/-- Two spellings of one path. -/
def same (a b : Path) : Bool :=
  a.components = b.components

/-- The path that `other` is when it is taken from where `path` leads.  An absolute path leads to the
same place from everywhere. -/
def join (path other : Path) : Path :=
  if other.isAbsolute then other
  else if path.text.isEmpty || path.endsWithSlash then ⟨path.text ++ other.text⟩
  else ⟨path.text ++ "/" ++ other.text⟩

/-- The last step, if it goes to a file or directory by its name. -/
def fileName? (path : Path) : Option String :=
  path.components.getLast?.bind Component.name?

/-- The part of the file name after its last dot.  A dot at the begin of a name starts no extension. -/
def extension? (path : Path) : Option String :=
  match path.fileName?.bind splitLast? with
  | some ("", _) => none
  | some (_, extension) => some extension
  | none => none

/-- The pieces between the slashes, empty ones left out. -/
def pieces (path : Path) : List String :=
  (splitText '/' path.text).filter (· ≠ "")

/-- The spelling of some steps that has no more in it than it needs. -/
def ofComponents (steps : List Component) : Path :=
  match steps with
  | .root :: rest => ⟨"/" ++ "/".intercalate (rest.map Component.text)⟩
  | _ => ⟨"/".intercalate (steps.map Component.text)⟩

/-- The steps from the directory `root` to `path`, none when `path` is not below it. -/
def below? (root path : Path) : Option (List Component) :=
  if root.components.isPrefixOf path.components then
    some (path.components.drop root.components.length)
  else
    none

end Path

end ComponentMarkers
