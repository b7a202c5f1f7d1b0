import ComponentMarkers.Filer
import ComponentMarkers.Text.Encoded

/-!
# Resources in memory

A store keeps the content of resources by location and path, in the order of both.  What a writer has
taken in becomes the content of its resource when the writer is flushed and again when it is closed;
each time it replaces what was there.
-/

namespace ComponentMarkers

/-- A resource and its content. -/
structure StoredResource where
  location : Location
  path : Path
  content : List UInt8
  deriving DecidableEq, Repr

namespace StoredResource

/-- The order of resources: by location, then by path. -/
def compareTo (resource : StoredResource) (location : Location) (path : Path) : Ordering :=
  (resource.location.compare location).then (resource.path.compare path)

end StoredResource

/-- Resources in ascending order, no two with equal location and path. -/
structure MemoryStore where
  resources : List StoredResource
  deriving DecidableEq, Repr

/-- The resources after one of them is given a content.  A resource that is there already keeps the
spelling of its path. -/
def storeAmong (location : Location) (path : Path) (content : List UInt8) :
    List StoredResource → List StoredResource
  | [] => [⟨location, path, content⟩]
  | resource :: rest =>
    match resource.compareTo location path with
    | .lt => resource :: storeAmong location path content rest
    | .eq => { resource with content := content } :: rest
    | .gt => ⟨location, path, content⟩ :: resource :: rest

namespace MemoryStore

/-- The store without resources. -/
def empty : MemoryStore :=
  ⟨[]⟩

/-- Gives a resource its content. -/
def put (store : MemoryStore) (location : Location) (path : Path) (content : List UInt8) :
    MemoryStore :=
  ⟨storeAmong location path content store.resources⟩

/-- The content of a resource. -/
def get? (store : MemoryStore) (location : Location) (path : Path) : Option (List UInt8) :=
  (store.resources.find? fun resource => resource.compareTo location path = .eq).map
    StoredResource.content

/-- The content of a resource as text. -/
def read? (store : MemoryStore) (location : Location) (path : Path) : Option String :=
  (store.get? location path).map Text.decodeLenient

/-- The resources at a location. -/
def resourcesAt (store : MemoryStore) (location : Location) : List StoredResource :=
  store.resources.filter fun resource => resource.location = location

/-- The paths of the resources at a location, in ascending order. -/
def paths (store : MemoryStore) (location : Location) : List Path :=
  (store.resourcesAt location).map StoredResource.path

/-- The number of resources. -/
def size (store : MemoryStore) : Nat :=
  store.resources.length

end MemoryStore

/-- A resource being written, and what was written so far. -/
structure MemoryWriter where
  location : Location
  path : Path
  content : List UInt8
  deriving DecidableEq, Repr

namespace MemoryWriter

/-- Makes what was written the content of the resource. -/
def commit (writer : MemoryWriter) (store : MemoryStore) : MemoryStore :=
  store.put writer.location writer.path writer.content

end MemoryWriter

/-- The filer that writes into a store. -/
def memoryFiler : Filer MemoryStore MemoryWriter where
  create resource _ store :=
    if isPlainName resource.name then
      (.ok ⟨resource.location, resource.path, []⟩, store)
    else
      (.error (.invalidName resource.name), store)
  write writer bytes store :=
    ((.ok (), { writer with content := writer.content ++ bytes }), store)
  flush writer store := ((.ok (), writer), writer.commit store)
  close writer store := writer.commit store

end ComponentMarkers
