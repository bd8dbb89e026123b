/-
# A file tree and its system calls

The tree is a finite map from places to entries; a place is the list of names
from the top, and an entry is a directory or a file. A file is an identity with
bytes: an open file keeps its identity when its name is removed or given to
another file. A route is walked from the top one directory at a time.

Calls answer as the system does on a tree without links, permissions or other
failures of its own: a missing step is `noEntry`, a file where a directory is
needed is `notDirectory`, a name or a route that is too long is `nameTooLong`, and
a rename refuses to put a directory inside itself.

Key definitions: `Disk`, `Disk.walk`, `Disk.look`, `Disk.createDirectories`,
`Disk.openFile`, `Disk.writeFile`, `Disk.rename`, `Disk.removeDirectory`,
`Disk.removeTree`, `Disk.removeFile`, `Disk.children`.
-/
import ContainerRegistry.Storage.Route

namespace ContainerRegistry

/-- What a place holds. -/
inductive Entry where
  | directory
  | file (id : Nat)
  deriving DecidableEq, Repr

/-- A file tree. -/
structure Disk where
  /-- The entries by place; the top itself is always a directory. -/
  entries : Std.TreeMap (List String) Entry
  /-- The bytes of every file, named or still open. -/
  contents : Std.TreeMap Nat Bytes
  /-- More than every identity in use. -/
  nextId : Nat

/-- Where a route's last step leads. -/
inductive Target where
  /-- The directory reached by a step up, or the top. -/
  | reached (place : List String)
  /-- A name, of an entry or not, in a directory. -/
  | named (parent : List String) (name : String)
  deriving DecidableEq, Repr

namespace Disk

/-- The tree with nothing in it. -/
def empty : Disk :=
  ⟨∅, ∅, 0⟩

/-- The entry at a place. -/
def entryAt? (d : Disk) (place : List String) : Option Entry :=
  if place = [] then some .directory else d.entries[place]?

/-- The bytes of a file. -/
def bytes (d : Disk) (id : Nat) : Bytes :=
  (d.contents[id]?).getD []

/-- Walks steps, each of which must lead to a directory. -/
def walk (d : Disk) : List String → List Step → Except Errno (List String)
  | place, [] => .ok place
  | place, .up :: steps => d.walk place.dropLast steps
  | place, .name text :: steps =>
    if Route.longestName < text.utf8ByteSize then .error .nameTooLong
    else
      match d.entryAt? (place ++ [text]) with
      | none => .error .noEntry
      | some (.file _) => .error .notDirectory
      | some .directory => d.walk (place ++ [text]) steps

/-- Where a route leads. -/
def target (d : Disk) (steps : List Step) : Except Errno Target := do
  let parent ← d.walk [] steps.dropLast
  match steps.getLast? with
  | none => .ok (.reached parent)
  | some .up => .ok (.reached parent.dropLast)
  | some (.name text) =>
    if Route.longestName < text.utf8ByteSize then .error .nameTooLong
    else .ok (.named parent text)

/-- The place and the entry that a route leads to. -/
def find (d : Disk) (r : Route) : Except Errno (List String × Entry) := do
  match ← d.target r.steps with
  | .reached place => .ok (place, .directory)
  | .named parent text =>
    match d.entryAt? (parent ++ [text]) with
    | none => .error .noEntry
    | some (.file id) =>
      if r.asksDirectory then .error .notDirectory else .ok (parent ++ [text], .file id)
    | some .directory => .ok (parent ++ [text], .directory)

/-- Whether a place lies at or beneath another. -/
def isWithin (base place : List String) : Bool :=
  base.isPrefixOf place

/-- The tree with a new directory. -/
def addDirectory (d : Disk) (place : List String) : Disk :=
  { d with entries := d.entries.insert place .directory }

/-- The tree with a new file. -/
def addFile (d : Disk) (place : List String) (bytes : Bytes) : Disk :=
  ⟨d.entries.insert place (.file d.nextId), d.contents.insert d.nextId bytes, d.nextId + 1⟩

/-- The tree with other bytes in a file. -/
def setBytes (d : Disk) (id : Nat) (bytes : Bytes) : Disk :=
  { d with contents := d.contents.insert id bytes }

/-- The tree without what lies at or beneath a place. -/
def prune (d : Disk) (place : List String) : Disk :=
  { d with entries := d.entries.filter fun p _ => !isWithin place p }

/-- The tree with nothing beneath a directory. -/
def clear (d : Disk) (place : List String) : Disk :=
  if place = [] then d.prune place else (d.prune place).addDirectory place

/-- The tree with what lies at or beneath one place put at another. -/
def relabel (d : Disk) (source destination : List String) : Disk :=
  let moving := d.entries.toList.filter fun e => isWithin source e.1
  { d with
    entries := moving.foldl
      (fun entries e => entries.insert (destination ++ e.1.drop source.length) e.2)
      ((d.prune destination).prune source).entries }

/-- The names of the entries of a directory, in order. -/
def names (d : Disk) (place : List String) : List String :=
  d.entries.keys.filterMap fun p =>
    match p.getLast? with
    | some name => if p.dropLast = place then some name else none
    | none => none

/-- A system call. -/
abbrev Call := Action Disk IoError

/-- Fails with a system error. -/
def fail {α : Type} (e : Errno) : Call α :=
  throw (.system e)

/-- The answer of a walk. -/
def answer {α : Type} : Except Errno α → Call α
  | .ok a => pure a
  | .error e => fail e

/-- Gives a route to the system. -/
def submit (r : Route) : Call Unit :=
  match r.fault? with
  | none => pure ()
  | some e => throw e

/-- What a route leads to. -/
def look (r : Route) : Call (List String × Entry) := do
  submit r
  answer ((← get).find r)

/-- Whether a route leads to a directory. -/
def isDirectory (d : Disk) (r : Route) : Bool :=
  match r.fault?, d.find r with
  | none, .ok (_, .directory) => true
  | _, _ => false

/-- Makes a directory. -/
def makeDirectory (r : Route) : Call Unit := do
  submit r
  let d ← get
  match ← answer (d.target r.steps) with
  | .reached _ => fail .exists
  | .named parent text =>
    match d.entryAt? (parent ++ [text]) with
    | some _ => fail .exists
    | none => set (d.addDirectory (parent ++ [text]))

/-- Makes a directory unless there is one already. -/
def ensureDirectory (r : Route) : Call Unit := do
  match ← (makeDirectory r).attempt with
  | .ok _ => pure ()
  | .error e => if (← get).isDirectory r then pure () else throw e

/-- Makes a directory and the missing ones above it; the last part comes first. -/
def createReversed : List Part → Call Unit
  | [] => pure ()
  | .step step :: above => do
    let r : Route := ⟨(.step step :: above).reverse⟩
    match ← (makeDirectory r).attempt with
    | .ok _ => pure ()
    | .error (.system .noEntry) => do
      createReversed above
      ensureDirectory r
    | .error e => if (← get).isDirectory r then pure () else throw e
  | _ :: above => createReversed above

/-- Makes a directory and the missing ones above it. -/
def createDirectories (r : Route) : Call Unit :=
  createReversed r.parts.reverse

/-- Opens a file for writing, and creates it if asked to. A slash at the end is
refused before the name is looked at when the file may be created. -/
def openFile (r : Route) (create : Bool) : Call Nat := do
  submit r
  let d ← get
  if create && r.ending == .slash then do
    let _ ← answer (d.walk [] r.leading)
    fail .isDirectory
  else
    match ← answer (d.target r.steps) with
    | .reached _ => fail .isDirectory
    | .named parent text =>
      match d.entryAt? (parent ++ [text]) with
      | some .directory => fail .isDirectory
      | some (.file id) => if r.asksDirectory then fail .notDirectory else pure id
      | none =>
        if !create || r.asksDirectory then fail .noEntry
        else do
          set (d.addFile (parent ++ [text]) [])
          pure d.nextId

/-- Replaces the bytes of a file, or creates it. -/
def writeFile (r : Route) (bytes : Bytes) : Call Unit := do
  let id ← openFile r true
  modify fun d => d.setBytes id bytes

/-- Gives an entry another name, in place of what has that name. -/
def rename (source destination : Route) : Call Unit := do
  submit source
  submit destination
  let d ← get
  let sourceParent ← answer (d.walk [] source.leading)
  let destinationParent ← answer (d.walk [] destination.leading)
  match source.last?, destination.last? with
  | some oldName, some newName =>
    let old := sourceParent ++ [oldName]
    let new := destinationParent ++ [newName]
    if Route.longestName < oldName.utf8ByteSize then fail .nameTooLong
    else
      match d.entryAt? old with
      | none => fail .noEntry
      | some entry =>
        let isFile := entry != .directory
        if Route.longestName < newName.utf8ByteSize then fail .nameTooLong
        else if isFile && (source.asksDirectory || destination.asksDirectory) then fail .notDirectory
        else if isWithin old destinationParent then fail .invalid
        else if isWithin new sourceParent then fail .notEmpty
        else
          match d.entryAt? new with
          | none => set (d.relabel old new)
          | some .directory =>
            if isFile then fail .isDirectory
            else if old = new then pure ()
            else if (d.names new).isEmpty then set (d.relabel old new)
            else fail .notEmpty
          | some (.file _) =>
            if !isFile then fail .notDirectory
            else if old = new then pure ()
            else set (d.relabel old new)
  | _, _ => fail .busy

/-- Removes the name of an empty directory. -/
def removeDirectory (r : Route) : Call Unit := do
  submit r
  let d ← get
  let parent ← answer (d.walk [] r.leading)
  match r.last? with
  | none => fail (if r.ending = .dot then .invalid else .notEmpty)
  | some text =>
    match d.entryAt? (parent ++ [text]) with
    | none => fail .noEntry
    | some (.file _) => fail .notDirectory
    | some .directory =>
      if (d.names (parent ++ [text])).isEmpty then set (d.prune (parent ++ [text]))
      else fail .notEmpty

/-- Removes everything beneath a directory and then the directory. That the route
leads nowhere by then, since it went through what was removed, is no failure. -/
def removeTree (r : Route) : Call Unit := do
  let (place, entry) ← look r
  match entry with
  | .file _ => fail .notDirectory
  | .directory => do
    modify fun d => d.clear place
    match ← (removeDirectory r).attempt with
    | .ok _ => pure ()
    | .error e => if e = .system .noEntry then pure () else throw e

/-- Removes a file's name. -/
def removeFile (r : Route) : Call Unit := do
  let (place, entry) ← look r
  match entry with
  | .directory => fail .isDirectory
  | .file _ => modify fun d => d.prune place

/-- The names in a directory, in order. -/
def children (r : Route) : Call (List String) := do
  let (place, entry) ← look r
  match entry with
  | .file _ => fail .notDirectory
  | .directory => pure ((← get).names place)

end Disk

end ContainerRegistry
