/-
# Storage in a directory of a file tree

Each path is a route beneath the driver's root: a leading slash is the root
itself. Content that is put goes into a scratch file beside its place and is
renamed into it, so that no reader sees half of it; names that start with a dot
are such files, and are not listed.

A source is written as it comes, and a write does not wait for the system to have
all of it before it looks whether the source has failed. How much of a failed
source is in the file is therefore up to the system: nothing, all that it yielded
or any part from its front. What is not in the file by the time the failure is
reported is taken as lost.

A system error is reported with the path it is about and the step that failed.

Key definitions: `LocalStore`, `LocalStore.Place`, `LocalStore.route`,
`LocalStore.landing`, `LocalStore.driver`.
Key theorems: `LocalStore.landing_of_whole`, `LocalStore.landing_isPrefix`.
-/
import ContainerRegistry.Storage.Disk
import ContainerRegistry.Storage.FileStream

namespace ContainerRegistry

/-- The state of a local driver. -/
structure LocalStore where
  disk : Disk
  /-- The number of scratch files so far, which wraps around. -/
  scratch : UInt64
  /-- How many bytes the system lets land of each source that fails from now on, one
  after the other. Of those that are not told of, all that they yield lands. -/
  tears : List Nat

namespace LocalStore

/-- Where a driver keeps its files. -/
structure Place where
  /-- The directory beneath which everything lies. -/
  root : List String
  /-- The number that marks this driver's scratch files. -/
  process : Nat

/-- The size that the system states for a directory. -/
def directorySize : Nat := 4096

/-- What a part of a path's text is in a route. -/
def part (text : List Char) : Part :=
  if text = [] then .blank
  else if text = ['.'] then .dot
  else if text = ['.', '.'] then .step .up
  else .step (.name (String.ofList text))

/-- The parts of a path beneath the root. Of an absolute path what stands before
the first step and after the last does not count. -/
def partsBeneath (p : Path) : List Part :=
  let parts := (p.text.toList.splitOn '/').map part
  if !p.isAbsolute then parts
  else if (Part.trim parts).isEmpty then [.blank]
  else Part.trim parts

/-- The route of a path. -/
def route (place : Place) (p : Path) : Route :=
  ⟨(Route.ofNames place.root).parts ++ partsBeneath p⟩

/-- The engine's name in failures. -/
def engine : String := "filesystem"

/-- The failure of a step on a path. -/
def failure (p : Path) (context : String) (e : IoError) : StorageError :=
  ⟨.ofIo e.kind, engine, some p.text, some context, e.message⟩

/-- Makes a system call. -/
def system {α : Type} (c : Disk.Call α) : Action LocalStore IoError α :=
  c.zoom LocalStore.disk fun s d => { s with disk := d }

/-- Makes a system call as a step on a path. -/
def call {α : Type} (p : Path) (context : String) (c : Disk.Call α) :
    Action LocalStore StorageError α :=
  (system c).mapError (failure p context)

/-- Makes the directories above a route. -/
def createParent (p : Path) (r : Route) : Action LocalStore StorageError Unit :=
  call p "create parent directories" (Disk.createDirectories r.parent)

variable (place : Place)

/-- The bytes of a file. -/
def getContent (p : Path) : Action LocalStore StorageError Bytes :=
  call p "read" do
    match ← Disk.look (route place p) with
    | (_, .directory) => Disk.fail .isDirectory
    | (_, .file id) => pure ((← get).bytes id)

/-- The name of the next scratch file for a route. -/
def scratchName (r : Route) (count : UInt64) : String :=
  let name := r.fileName?.getD "content"
  s!".{name}.{place.process}.{count}"

/-- Writes a scratch file and renames it into place. -/
def putContent (p : Path) (bytes : Bytes) : Action LocalStore StorageError Unit := do
  let r := route place p
  createParent p r
  let count := (← get).scratch
  modify fun s => { s with scratch := s.scratch + 1 }
  let scratch := r.withFileName (scratchName place r count)
  call p "write scratch file" (Disk.writeFile scratch bytes)
  call p "rename scratch file" (Disk.rename scratch r)

/-- An open entry, and its size. -/
def opened (d : Disk) : Entry → Option Nat × Nat
  | .directory => (none, directorySize)
  | .file id => (some id, (d.bytes id).length)

/-- Opens a file at an offset. -/
def readStream (p : Path) (offset : Nat) : Action LocalStore StorageError FileStream := do
  let (_, entry) ← call p "open for reading" (Disk.look (route place p))
  let (file, size) := opened (← get).disk entry
  if size < offset then throw (.invalidOffset engine p offset size)
  else pure ⟨file, offset, []⟩

/-- Takes what comes next from an open file. -/
def fetch (stream : FileStream) (room : Nat) (s : LocalStore) : Pulled FileStream :=
  match stream.file with
  | some id =>
    let (bytes, rest) := stream.fetch (s.disk.bytes id) room
    ⟨bytes, none, rest⟩
  | none => ⟨[], some (.system .isDirectory), stream⟩

/-- Pulls from an open file. -/
def pull (stream : FileStream) (limit : Option Nat) (s : LocalStore) : Pulled FileStream :=
  match stream.file with
  | some id => stream.pullFrom (s.disk.bytes id) limit
  | none => if limit = some 0 then ⟨[], none, stream⟩ else ⟨[], some (.system .isDirectory), stream⟩

/-- The part of a source that lands in its file, and what is left of the tears. -/
def landing (s : LocalStore) (source : Source) : Bytes × List Nat :=
  match source.failure with
  | none => (source.bytes, s.tears)
  | some _ => (upTo s.tears.head? source.bytes, s.tears.tail)

/-- A source that does not fail lands as a whole. -/
theorem landing_of_whole {source : Source} (h : source.failure = none) (s : LocalStore) :
    s.landing source = (source.bytes, s.tears) := by
  rw [landing, h]

/-- What lands is the front of what the source yields. -/
theorem landing_isPrefix (s : LocalStore) (source : Source) :
    (s.landing source).1 <+: source.bytes := by
  rw [landing]
  cases source.failure with
  | none => exact List.prefix_rfl
  | some e => exact upTo_isPrefix _ _

/-- Writes a source over a file as it comes. What has landed when it fails stays
written. -/
def writeStream (p : Path) (offset : Nat) (source : Source) :
    Action LocalStore StorageError Transfer := do
  let r := route place p
  if offset = 0 then createParent p r
  match ← (system (Disk.openFile r (offset == 0))).attempt with
  | .error e =>
    if e.kind = .notFound then throw (.invalidOffset engine p offset 0)
    else throw (failure p "open for writing" e)
  | .ok id => do
    let file := (← get).disk.bytes id
    if file.length < offset then throw (.invalidOffset engine p offset file.length)
    else do
      modify fun s =>
        let landed := s.landing source
        { s with disk := s.disk.setBytes id (splice file offset landed.1), tears := landed.2 }
      match source.failure with
      | some e => throw (failure p "copy" e)
      | none => pure ⟨source.bytes.length, source.bytes.length⟩

/-- What is at a path. -/
def stat (p : Path) : Action LocalStore StorageError Metadata :=
  call p "metadata" do
    match ← Disk.look (route place p) with
    | (_, .directory) => pure ⟨0, true⟩
    | (_, .file id) => pure ⟨((← get).bytes id).length, false⟩

/-- Whether a name is listed. -/
def isListed (name : String) : Bool :=
  name.toList.head? != some '.'

/-- The listed children of a directory. -/
def list (p : Path) : Action LocalStore StorageError (List Path) := do
  match ← (system (Disk.children (route place p))).attempt with
  | .ok names => pure ((names.filter isListed).map p.join)
  | .error e =>
    let failed := failure p "list" e
    throw (if e = .system .notDirectory then { failed with kind := .invalidRequest } else failed)

/-- Moves an entry; a directory at the destination is removed first. -/
def rename (source destination : Path) : Action LocalStore StorageError Unit := do
  let old := route place source
  let new := route place destination
  let _ ← call source "rename source" (Disk.look old)
  createParent destination new
  if (← get).disk.isDirectory new then
    call destination "clear rename destination" (Disk.removeTree new)
  call source "rename" (Disk.rename old new)

/-- Deletes an entry. -/
def delete (p : Path) : Action LocalStore StorageError Unit := do
  let r := route place p
  match ← call p "delete" (Disk.look r) with
  | (_, .directory) => call p "remove directory" (Disk.removeTree r)
  | (_, .file _) => call p "remove file" (Disk.removeFile r)

/-- The driver that keeps its files beneath a directory. -/
def driver : Driver LocalStore FileStream where
  name := engine
  getContent := getContent place
  putContent := putContent place
  readStream := readStream place
  fetch := fetch
  pull := pull
  writeStream := writeStream place
  stat := stat place
  list := list place
  rename := rename place
  delete := delete place
  extent s := s.disk.entries.size + 1

/-- The driver over a directory that is removed when the driver is done; it goes
by a name of its own, and its failures by the local one's. -/
def temporary : Driver LocalStore FileStream :=
  { driver place with name := "temp" }

/-- The route of the root. -/
def rootRoute : Route :=
  .ofNames place.root

/-- Whether the root is there. -/
def hasRoot (s : LocalStore) : Bool :=
  s.disk.isDirectory (rootRoute place)

/-- What a temporary driver leaves when it is done: its root is removed, if it can be. -/
def dropped (s : LocalStore) : LocalStore :=
  { s with disk := ((Disk.removeTree (rootRoute place)).outcome s.disk).2 }

/-- A tree in which the directories above a root exist, and the root if asked for. -/
def fresh (place : Place) (withRoot : Bool) : LocalStore :=
  let above := if withRoot then place.root else place.root.dropLast
  let places := (List.range above.length).map fun n => above.take (n + 1)
  ⟨places.foldl Disk.addDirectory Disk.empty, 0, []⟩

end LocalStore

end ContainerRegistry
