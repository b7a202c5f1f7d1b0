import ComponentMarkers.FileSystem.Tree

/-!
# Changes to a tree of files

Directories are made and files are created and written.  A file that is created empties what was at its
place, if that was a file; nothing is ever removed.
-/

namespace ComponentMarkers.FileTree

/-- Puts a node at a place and directories at the places on the way to it where nothing is. -/
def install (tree : FileTree) (place : Place) (node : Node) : FileTree :=
  let ancestors := (List.range place.length).map place.take
  let tree := ancestors.foldl
    (fun tree place =>
      if (tree.node? place).isSome then tree else tree.put place .directory)
    tree
  tree.put place node

/-- Makes the directory that `name` is to be in `directory`. -/
def makeIn (tree : FileTree) (directory : Place) (name : String) :
    Except SystemFault FileTree :=
  match tree.directoryFault? directory with
  | some fault => .error fault
  | none =>
    if longestName < name.utf8ByteSize then
      .error .nameTooLong
    else
      match tree.node? (directory ++ [name]) with
      | some _ => .error .alreadyExists
      | none => .ok (tree.put (directory ++ [name]) .directory)

/-- Makes the directory that a path names.  The directory it is to be in has to be there already. -/
def makeDirectory (tree : FileTree) (path : Path) : Except IoError FileTree :=
  match pathFault? path with
  | some fault => .error fault
  | none =>
    match path.pieces.getLast? with
    | none => .error (.system .alreadyExists)
    | some name =>
      match tree.walk path path.pieces.dropLast with
      | .error fault => .error (.system fault)
      | .ok directory =>
        if name = "." || name = ".." then
          .error (.system ((tree.directoryFault? directory).getD .alreadyExists))
        else
          (tree.makeIn directory name).mapError .system

/-- Makes the directory to which steps lead, the last step being given first, with all directories on
the way to it that are missing.  Directories that were made before a failure stay. -/
def makeDirectoriesFrom (tree : FileTree) : (steps : List Component) →
    Except IoError Unit × FileTree
  | [] => (.ok (), tree)
  | last :: earlier =>
    let path := Path.ofComponents (last :: earlier).reverse
    match tree.makeDirectory path with
    | .ok tree => (.ok (), tree)
    | .error (.system .notFound) =>
      match tree.makeDirectoriesFrom earlier with
      | (.error fault, tree) => (.error fault, tree)
      | (.ok (), tree) =>
        match tree.makeDirectory path with
        | .ok tree => (.ok (), tree)
        | .error fault => (if tree.isDirectory path then .ok () else .error fault, tree)
    | .error fault => (if tree.isDirectory path then .ok () else .error fault, tree)

/-- Makes the directory to which steps lead, with all directories on the way. -/
def makeDirectories (tree : FileTree) (steps : List Component) : Except IoError Unit × FileTree :=
  tree.makeDirectoriesFrom steps.reverse

/-- Opens a file at a place.  It is created when nothing is there; what a file there holds is kept only
if `keeps` is set. -/
def openAt (tree : FileTree) (keeps : Bool) (place : Place) : Except SystemFault FileTree :=
  match tree.node? place with
  | some .directory => .error .isDirectory
  | some (.file _) => .ok (if keeps then tree else tree.put place (.file []))
  | _ => .ok (tree.put place (.file []))

/-- Opens the file that a path names.  The result is the file's place. -/
def openFile (tree : FileTree) (keeps : Bool) (path : Path) : Except IoError (Place × FileTree) :=
  match pathFault? path with
  | some fault => .error fault
  | none =>
    if path.endsWithSlash then
      match tree.walk path path.pieces.dropLast with
      | .error fault => .error (.system fault)
      | .ok directory => .error (.system ((tree.directoryFault? directory).getD .isDirectory))
    else
      match tree.walk path path.pieces with
      | .error fault => .error (.system fault)
      | .ok place =>
        match tree.openAt keeps place with
        | .error fault => .error (.system fault)
        | .ok tree => .ok (place, tree)

/-- Opens the file that a path names and empties it. -/
def createFile (tree : FileTree) (path : Path) : Except IoError (Place × FileTree) :=
  tree.openFile false path

/-- Bytes written over a content from an offset on.  A gap before the offset is filled with zeros. -/
def overwrite (content : List UInt8) (offset : Nat) (bytes : List UInt8) : List UInt8 :=
  content.take offset ++ List.replicate (offset - content.length) 0 ++ bytes ++
    content.drop (offset + bytes.length)

/-- Writes bytes into the file at a place. -/
def writeAt (tree : FileTree) (place : Place) (offset : Nat) (bytes : List UInt8) : FileTree :=
  match tree.node? place with
  | some (.file content) => tree.put place (.file (overwrite content offset bytes))
  | _ => tree

/-- What stands in `after` and not in `before`, the places nearer to the root first. -/
def additions (before after : FileTree) : List (Place × Node) :=
  let changed := after.entries.filter fun entry => before.node? entry.1 ≠ some entry.2
  changed.mergeSort fun a b => a.1.length ≤ b.1.length

/-- The places at which two trees differ. -/
def differences (before after : FileTree) : List Place :=
  let removed := before.entries.filter fun entry => (after.node? entry.1).isNone
  (before.additions after).map Prod.fst ++ removed.map Prod.fst

end ComponentMarkers.FileTree
