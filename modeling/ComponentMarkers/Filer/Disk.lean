import ComponentMarkers.FileSystem.Change
import ComponentMarkers.Filer

/-!
# Resources on disk

Resources of both locations become files below one output root.  The directories on the way to a file
are made when it is created.  Writers gather content and hand it on in larger pieces: at the latest
when they are flushed or closed all of it is in the file.
-/

namespace ComponentMarkers

/-- A file being written: where the next bytes go, and the bytes that are still kept back. -/
structure DiskWriter where
  place : Place
  offset : Nat
  kept : List UInt8
  deriving DecidableEq, Repr

namespace DiskWriter

/-- The number of bytes that a writer can keep back. -/
def capacity : Nat :=
  8192

/-- Hands bytes on to the file. -/
def handOn (writer : DiskWriter) (bytes : List UInt8) (tree : FileTree) : DiskWriter × FileTree :=
  ({ writer with offset := writer.offset + bytes.length },
    tree.writeAt writer.place writer.offset bytes)

/-- Hands on what is kept back. -/
def flush (writer : DiskWriter) (tree : FileTree) : DiskWriter × FileTree :=
  if writer.kept.isEmpty then
    (writer, tree)
  else
    let (writer, tree) := writer.handOn writer.kept tree
    ({ writer with kept := [] }, tree)

/-- Takes bytes in.  They are kept back if there is room for them; else what is kept back is handed on
first, and a piece that fills the room by itself is handed on at once. -/
def write (writer : DiskWriter) (bytes : List UInt8) (tree : FileTree) : DiskWriter × FileTree :=
  let room := capacity - writer.kept.length
  if bytes.length < room then
    ({ writer with kept := writer.kept ++ bytes }, tree)
  else
    let (writer, tree) := if room < bytes.length then writer.flush tree else (writer, tree)
    if capacity ≤ bytes.length then
      writer.handOn bytes tree
    else
      ({ writer with kept := writer.kept ++ bytes }, tree)

end DiskWriter

/-- Creates the file of a resource below an output root. -/
def createOnDisk (root : Path) (resource : ResourceName) (tree : FileTree) :
    Except IoError DiskWriter × FileTree :=
  if isPlainName resource.name then
    let path := root.join resource.path
    match tree.makeDirectories path.components.dropLast with
    | (.error fault, tree) => (.error fault, tree)
    | (.ok (), tree) =>
      match tree.createFile path with
      | .error fault => (.error fault, tree)
      | .ok (place, tree) => (.ok ⟨place, 0, []⟩, tree)
  else
    (.error (.invalidName resource.name), tree)

/-- The filer that writes files below an output root. -/
def diskFiler (root : Path) : Filer FileTree DiskWriter where
  create resource _ tree := createOnDisk root resource tree
  write writer bytes tree :=
    let (writer, tree) := writer.write bytes tree
    ((.ok (), writer), tree)
  flush writer tree :=
    let (writer, tree) := writer.flush tree
    ((.ok (), writer), tree)
  close writer tree := (writer.flush tree).2

end ComponentMarkers
