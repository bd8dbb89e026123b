/-
# Storage in memory

The store is a finite map from places to bytes. A place is a list of
components, so two spellings of a path are one place, and the map is ordered as
places are. A directory is not stored: there is one at a place while some file
lies strictly beneath it.

Key definitions: `MemoryStore`, `MemoryStore.file?`, `MemoryStore.put`,
`MemoryStore.children`, `MemoryStore.move`, `MemoryStore.remove`,
`MemoryStore.driver`.
-/
import ContainerRegistry.Storage.Driver
import Std.Data.TreeSet

namespace ContainerRegistry

/-- The files of a store, by place. -/
structure MemoryStore where
  files : Std.TreeMap (List Component) Bytes

namespace MemoryStore

/-- The store without files. -/
def empty : MemoryStore :=
  ⟨∅⟩

instance : Inhabited MemoryStore :=
  ⟨empty⟩

/-- The bytes of the file at a path. -/
def file? (s : MemoryStore) (p : Path) : Option Bytes :=
  s.files[p.components]?

/-- The store with a file at a path. -/
def put (s : MemoryStore) (p : Path) (bytes : Bytes) : MemoryStore :=
  ⟨s.files.insert p.components bytes⟩

/-- Whether a file lies at or beneath a path. -/
def occupied (s : MemoryStore) (p : Path) : Bool :=
  s.files.keys.any (Components.isWithin p.components)

/-- The next components of the files beneath a path, in order. -/
def children (s : MemoryStore) (p : Path) : List Component :=
  let next := s.files.keys.filterMap fun place =>
    (Components.strip? p.components place).bind List.head?
  (Std.TreeSet.ofList next).toList

/-- The store without the files at or beneath a path. -/
def remove (s : MemoryStore) (p : Path) : MemoryStore :=
  ⟨s.files.filter fun place _ => !Components.isWithin p.components place⟩

/-- The store after the file at `place`, if it is still there, has moved from
beneath `source` to beneath `destination`. -/
def moveFile (source destination : List Component) (s : MemoryStore) (place : List Component) :
    MemoryStore :=
  match s.files[place]? with
  | none => s
  | some bytes =>
    let rest := (Components.strip? source place).getD []
    ⟨(s.files.erase place).insert (Components.append destination rest) bytes⟩

/-- The store after everything at or beneath `source` has moved, file by file in
order, to `destination`, from which what was there is removed first. -/
def move (s : MemoryStore) (source destination : Path) : MemoryStore :=
  let moving := s.files.keys.filter (Components.isWithin source.components)
  moving.foldl (moveFile source.components destination.components) (s.remove destination)

/-- The engine's name in failures. -/
def engine : String := "inmemory"

/-- Fails because nothing is at a path. -/
def missing {α : Type} (p : Path) : Action MemoryStore StorageError α :=
  throw (.notFound engine p)

/-- The bytes of the file at a path. -/
def getContent (p : Path) : Action MemoryStore StorageError Bytes := do
  match (← get).file? p with
  | some bytes => pure bytes
  | none => missing p

/-- Stores a file. -/
def putContent (p : Path) (bytes : Bytes) : Action MemoryStore StorageError Unit :=
  modify fun s => s.put p bytes

/-- Opens a file: the stream is what lies from the offset on at this moment. -/
def readStream (p : Path) (offset : Nat) : Action MemoryStore StorageError Bytes := do
  match (← get).file? p with
  | none => missing p
  | some bytes =>
    if bytes.length < offset then throw (.invalidOffset engine p offset bytes.length)
    else pure (bytes.drop offset)

/-- Takes the whole source, then writes it; a failed source writes nothing. -/
def writeStream (p : Path) (offset : Nat) (source : Source) :
    Action MemoryStore StorageError Transfer := do
  match source.failure with
  | some e => throw (.ofIo engine p e)
  | none =>
    let s ← get
    let file := (s.file? p).getD []
    if file.length < offset then throw (.invalidOffset engine p offset file.length)
    else do
      set (s.put p (splice file offset source.bytes))
      pure ⟨source.bytes.length, source.bytes.length⟩

/-- What is at a path: a file, or a directory if a file lies beneath it. -/
def stat (p : Path) : Action MemoryStore StorageError Metadata := do
  let s ← get
  match s.file? p with
  | some bytes => pure ⟨bytes.length, false⟩
  | none => if s.occupied p then pure ⟨0, true⟩ else missing p

/-- The children of a directory. -/
def list (p : Path) : Action MemoryStore StorageError (List Path) := do
  let s ← get
  if (s.file? p).isSome then
    throw ⟨.invalidRequest, engine, some p.text, some "list", s!"not a directory: {p.text}"⟩
  else
    match s.children p with
    | [] => missing p
    | children => pure (children.map fun c => p.join c.text)

/-- Moves a subtree. -/
def rename (source destination : Path) : Action MemoryStore StorageError Unit := do
  let s ← get
  if s.occupied source then set (s.move source destination) else missing source

/-- Deletes a subtree. -/
def delete (p : Path) : Action MemoryStore StorageError Unit := do
  let s ← get
  if s.occupied p then set (s.remove p) else missing p

/-- The driver that keeps its files in memory. -/
def driver : Driver MemoryStore Bytes where
  name := engine
  getContent := getContent
  putContent := putContent
  readStream := readStream
  fetch rest room _ := ⟨rest.take room, none, rest.drop room⟩
  pull rest limit _ := ⟨upTo limit rest, none, beyond limit rest⟩
  writeStream := writeStream
  stat := stat
  list := list
  rename := rename
  delete := delete
  extent s := s.files.keys.foldr (fun place rest => place.length + rest) 1

end MemoryStore

end ContainerRegistry
