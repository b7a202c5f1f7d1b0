import ComponentMarkers.IoError

/-!
# A tree of files

Directories, files and symbolic links, each at a place: the list of names that lead to it from the
root.  The program works in one of the directories, from which relative paths are taken.  The ignore
file that the user has for all repositories is known by its content alone.

A path leads to a place step by step, links on the way being followed.  At most 40 links are followed
for one path.
-/

namespace ComponentMarkers

/-- What may stand at a place. -/
inductive Node where
  | directory
  | file (content : List UInt8)
  | link (target : Path)
  deriving DecidableEq, Repr

/-- The names that lead to a place from the root. -/
abbrev Place := List String

/-- The path of a place from the root of the file system. -/
def absolutePath (place : Place) : Path :=
  ⟨"/" ++ "/".intercalate place⟩

/-- A tree of files, the directory in which the program works, and what lies outside of the tree and is
read by the program. -/
structure FileTree where
  /-- What stands at each place but the root.  Of several entries for one place the first counts. -/
  entries : List (Place × Node)
  workingDirectory : Place
  /-- The bytes of the user's ignore file for all repositories; no bytes where there is no such file. -/
  userIgnoreFile : List UInt8 := []
  deriving DecidableEq, Repr

/-- Where the steps of a path lead as far as they lead without a link. -/
inductive Stop where
  | arrived (place : Place)
  /-- A link in a directory, with the steps that come after it. -/
  | link (directory : Place) (target : Path) (rest : List String)
  deriving DecidableEq, Repr

namespace FileTree

/-- What stands at a place. -/
def node? (tree : FileTree) (place : Place) : Option Node :=
  if place = [] then some .directory else tree.entries.lookup place

/-- Puts a node at a place instead of what is there. -/
def put (tree : FileTree) (place : Place) (node : Node) : FileTree :=
  { tree with entries := (place, node) :: tree.entries.filter fun entry => entry.1 ≠ place }

/-- There is a directory at a place. -/
def isDirectoryAt (tree : FileTree) (place : Place) : Bool :=
  tree.node? place = some .directory

/-- The fault that there is no directory at a place. -/
def directoryFault? (tree : FileTree) (place : Place) : Option SystemFault :=
  match tree.node? place with
  | some .directory => none
  | some _ => some .notDirectory
  | none => some .notFound

/-- The greatest number of bytes in a name. -/
def longestName : Nat :=
  255

/-- The number of bytes that a path has to stay below. -/
def pathLimit : Nat :=
  4096

/-- The greatest number of links that are followed for one path. -/
def mostLinks : Nat :=
  40

/-- Takes steps from a place up to the first link.  Every step but the last has to lead to a
directory. -/
def advance (tree : FileTree) : Place → List String → Except SystemFault Stop
  | place, [] => .ok (.arrived place)
  | place, name :: rest =>
    match tree.directoryFault? place with
    | some fault => .error fault
    | none =>
      if name = "." then tree.advance place rest
      else if name = ".." then tree.advance place.dropLast rest
      else if longestName < name.utf8ByteSize then .error .nameTooLong
      else
        match tree.node? (place ++ [name]) with
        | some (.link target) => .ok (.link place target rest)
        | _ => tree.advance (place ++ [name]) rest

/-- Where a path starts when it is taken from a directory. -/
def startOf (directory : Place) (path : Path) : Place :=
  if path.isAbsolute then [] else directory

/-- The steps of a path.  A slash at its end asks for a directory. -/
def stepsOf (path : Path) : List String :=
  if path.endsWithSlash then path.pieces ++ ["."] else path.pieces

/-- Takes steps from a place and follows up to `links` links. -/
def follow (tree : FileTree) : (links : Nat) → Place → List String → Except SystemFault Place
  | links, place, steps =>
    match tree.advance place steps with
    | .error fault => .error fault
    | .ok (.arrived place) => .ok place
    | .ok (.link directory target rest) =>
      match links with
      | 0 => .error .tooManyLinks
      | links + 1 => follow tree links (startOf directory target) (stepsOf target ++ rest)

/-- The path is one the file system looks at. -/
def pathFault? (path : Path) : Option IoError :=
  if path.text.toList.contains '\x00' then some .nulInPath
  else if path.text.isEmpty then some (.system .notFound)
  else if pathLimit ≤ path.text.utf8ByteSize then some (.system .nameTooLong)
  else none

/-- Takes the steps of a path from where the path starts. -/
def walk (tree : FileTree) (path : Path) (steps : List String) : Except SystemFault Place :=
  tree.follow mostLinks (startOf tree.workingDirectory path) steps

/-- The place a path leads to, links followed; something has to be there. -/
def resolve? (tree : FileTree) (path : Path) : Except IoError Place :=
  match pathFault? path with
  | some fault => .error fault
  | none =>
    match tree.walk path (stepsOf path) with
    | .error fault => .error (.system fault)
    | .ok place =>
      if (tree.node? place).isSome then .ok place else .error (.system .notFound)

/-- What a path leads to, links followed. -/
def nodeOf? (tree : FileTree) (path : Path) : Option Node :=
  match tree.resolve? path with
  | .ok place => tree.node? place
  | .error _ => none

/-- The path leads to something. -/
def isPresent (tree : FileTree) (path : Path) : Bool :=
  (tree.nodeOf? path).isSome

/-- The path leads to a directory. -/
def isDirectory (tree : FileTree) (path : Path) : Bool :=
  tree.nodeOf? path = some .directory

/-- The path leads to a file. -/
def isFile (tree : FileTree) (path : Path) : Bool :=
  match tree.nodeOf? path with
  | some (.file _) => true
  | _ => false

/-- The bytes of the file a path leads to. -/
def readFile (tree : FileTree) (path : Path) : Except IoError (List UInt8) :=
  match tree.resolve? path with
  | .error fault => .error fault
  | .ok place =>
    match tree.node? place with
    | some (.file content) => .ok content
    | some .directory => .error (.system .isDirectory)
    | _ => .error (.system .notFound)

/-- The names in a directory, in ascending order. -/
def namesIn (tree : FileTree) (directory : Place) : List String :=
  let names := tree.entries.filterMap fun entry =>
    if entry.1.dropLast = directory then entry.1.getLast? else none
  names.mergeSort fun a b => compare a b != .gt

/-- The files at and below a place, as steps from there, in ascending order. -/
def filesBelow (tree : FileTree) (place : Place) : List (Place × List UInt8) :=
  let files := tree.entries.filterMap fun entry =>
    match entry.2 with
    | .file content =>
      if place.isPrefixOf entry.1 then some (entry.1.drop place.length, content) else none
    | _ => none
  files.mergeSort fun a b => compare a.1 b.1 != .gt

end FileTree

end ComponentMarkers
