/-
# Uploads

An upload lives under its identifier in a repository until it is finished or
cancelled. All that is needed to go on with it is in storage, so any number of
handles may be open on one upload, and a handle may be dropped and opened again.

Bytes are written strictly in order: a write starts at the size that storage
reports. A handle keeps a running digest of a prefix of the stored bytes, and
moves it on only past bytes that the driver confirmed; before it is needed, it
is brought up to the stored size from storage itself. Finishing compares the
digest of the stored bytes with the claimed one, and only then moves them into
the blob store and links them.

Actions on a handle run over the handle and the storage together, and both are
kept when they fail.

Key definitions: `Upload`, `Upload.start`, `Upload.resume`, `Upload.size`,
`Upload.catchUp`, `Upload.write`, `Upload.finish`, `Upload.cancel`,
`Repository.cancelUpload`.
-/
import ContainerRegistry.Digest.Running
import ContainerRegistry.Registry.Link
import ContainerRegistry.Time.Instant

namespace ContainerRegistry

/-- Where a handle is in its life. -/
inductive UploadState where
  | writing
  | finished
  | cancelled
  deriving DecidableEq, Repr

/-- The state as a word. -/
def UploadState.text : UploadState → String
  | writing => "writing"
  | finished => "finished"
  | cancelled => "cancelled"

/-- The state as a programmer sees it. -/
def UploadState.debugText : UploadState → String
  | writing => "Writing"
  | finished => "Finished"
  | cancelled => "Cancelled"

/-- A handle on an upload. -/
structure Upload where
  id : UploadId
  /-- The repository that is uploaded into. -/
  name : RepositoryName
  started : Instant
  /-- The digest of the first `hashed` stored bytes. -/
  running : RunningDigest
  hashed : Nat
  state : UploadState
  deriving DecidableEq

/-- What is done with a handle, over the handle and the states of the storage. -/
abbrev UploadAction (σ : Type) := Action (Upload × σ) RegistryError

namespace Upload

variable {σ ρ α : Type}

/-- A handle that has hashed nothing yet. -/
def opened (id : UploadId) (name : RepositoryName) (started : Instant) : Upload :=
  ⟨id, name, started, Algorithm.sha256.start, 0, .writing⟩

/-- The handle as a programmer sees it. -/
def debugText (u : Upload) : String :=
  "BlobWriter \x7b id: " ++ u.id.text ++ ", name: " ++ u.name.debugText ++ ", started: " ++
    u.started.toZuluText ++ ", hashed: " ++ toString u.hashed ++ ", state: " ++
    u.state.debugText ++ " \x7d"

/-- The failure of reading a start time that is none. -/
def unreadableStart (path : Path) (cause : String) : RegistryError :=
  .storage ⟨.other, "upload", some path.text, some "unreadable start time", cause⟩

/-- The instant that the content of a start file names, blanks around it aside. -/
def startOfContent (path : Path) (content : Bytes) : Except RegistryError Instant :=
  match Bytes.text? content with
  | none => .error (unreadableStart path notUtf8)
  | some text =>
    match Instant.parse (Blank.trim text) with
    | some started => .ok started
    | none => .error (unreadableStart path "<rfc3339>")

/-- Starts an upload, under a fresh identifier, at an instant. -/
def start (n : Repository σ ρ) (id : UploadId) (now : Instant) : RegistryAction σ Upload := do
  let r := n.registry
  stored (r.storage.putContent (r.path (.uploadStartedAt n.name id))
    (Bytes.ofText now.toOffsetText))
  stored (r.storage.putContent (r.path (.uploadData n.name id)) [])
  pure (opened id n.name now)

/-- Opens another handle on an upload. -/
def resume (n : Repository σ ρ) (id : UploadId) : RegistryAction σ Upload := do
  let path := n.registry.path (.uploadStartedAt n.name id)
  let content ← orUnknown (.uploadUnknown id) (n.registry.storage.getContent path)
  let started ← MonadExcept.ofExcept (startOfContent path content)
  pure (opened id n.name started)

/-- Removes the directory of an upload. That it could not be removed is no failure. -/
def remove (r : Registry σ ρ) (name : RepositoryName) (id : UploadId) : RegistryAction σ Unit := do
  let _ ← (r.storage.delete (r.path (.upload name id))).attempt
  pure ()

/-- What the storage does while a handle is at work. -/
def onStorage (action : RegistryAction σ α) : UploadAction σ α :=
  action.zoom Prod.snd fun p s => (p.1, s)

/-- The handle. -/
def handle : UploadAction σ Upload := do
  return (← get).1

/-- Changes the handle. -/
def change (f : Upload → Upload) : UploadAction σ Unit :=
  modify fun p => (f p.1, p.2)

/-- Fails unless the handle still writes. -/
def ensureOpen : UploadAction σ Unit := do
  if (← handle).state = .writing then pure () else throw .layerClosed

variable (r : Registry σ ρ)

/-- The path of the bytes of an upload. -/
def dataPath (u : Upload) : Path :=
  r.path (.uploadData u.name u.id)

/-- The number of bytes stored so far. -/
def size : UploadAction σ Nat := do
  ensureOpen
  let u ← handle
  let metadata ← onStorage (orUnknown (.uploadUnknown u.id) (r.storage.stat (dataPath r u)))
  pure metadata.size

/-- Takes bytes that are stored into the running digest. -/
def hash (bytes : Bytes) (u : Upload) : Upload :=
  { u with running := u.running.update bytes, hashed := u.hashed + bytes.length }

/-- Forgets the running digest if it covers more than is stored. -/
def shrink (size : Nat) (u : Upload) : Upload :=
  if size < u.hashed then { u with running := u.running.algorithm.start, hashed := 0 } else u

/-- Brings the running digest up to the stored size, from storage. What was read
before a failure stays hashed. -/
def catchUp (size : Nat) : UploadAction σ Unit := do
  change (shrink size)
  let u ← handle
  if u.hashed = size then pure ()
  else do
    let stream ← onStorage (orUnknown (.uploadUnknown u.id)
      (r.storage.readStream (dataPath r u) u.hashed))
    let pulled := r.storage.pull stream (some (size - u.hashed)) (← get).2
    change (hash pulled.bytes)
    match pulled.failure with
    | none => pure ()
    | some e => throw (.io e)

/-- Appends a source, which must start at the stored size, and answers how many
bytes were written. The running digest moves on only if all that was taken was
written. -/
def write (offset : Nat) (source : Source) : UploadAction σ Nat := do
  let size ← size r
  if offset ≠ size then throw (.invalidOffset size offset)
  else do
    catchUp r size
    let u ← handle
    let transfer ← onStorage (stored (r.storage.writeStream (dataPath r u) offset source))
    if transfer.taken = transfer.written then change (hash (source.bytes.take transfer.taken))
    pure transfer.written

/-- The digest of all stored bytes, computed afresh. -/
def rehash (algorithm : Algorithm) : UploadAction σ Digest := do
  let u ← handle
  let stream ← onStorage (orUnknown (.uploadUnknown u.id)
    (r.storage.readStream (dataPath r u) 0))
  let pulled := r.storage.pull stream none (← get).2
  match pulled.failure with
  | none => pure (algorithm.start.update pulled.bytes).finish
  | some e => throw (.io e)

/-- The digest of the stored bytes, in the algorithm of the claimed one. -/
def actualDigest (algorithm : Algorithm) : UploadAction σ Digest := do
  let u ← handle
  if algorithm = u.running.algorithm then pure u.running.finish else rehash r algorithm

/-- Links the stored blob and retires the upload. -/
def commit (expected : Digest) : UploadAction σ Descriptor := do
  let u ← handle
  onStorage (Repository.linkLayer ⟨r, u.name⟩ expected (r.blobPath expected))
  onStorage (remove r u.name u.id)
  change fun u => { u with state := .finished }
  onStorage (r.blobStat expected)

/-- Whether an earlier attempt may have moved the bytes into the blob store: they
are gone, and the claimed blob is there. -/
def isMoved (expected : Digest) : UploadAction σ Bool := do
  let u ← handle
  match ← onStorage (found (r.storage.stat (dataPath r u))) with
  | some _ => pure false
  | none => onStorage (r.blobExists expected)

/-- Compares the stored bytes with the claimed digest and moves them into the
blob store, unless the blob is there already. -/
def settle (expected : Digest) : UploadAction σ Unit := do
  let size ← size r
  catchUp r size
  let actual ← actualDigest r expected.algorithm
  if actual ≠ expected then throw (.digestMismatch expected actual)
  else if ← onStorage (r.blobExists expected) then pure ()
  else do
    let u ← handle
    onStorage (stored (r.storage.rename (dataPath r u) (r.blobPath expected)))

/-- Finishes an upload whose bytes must have the claimed digest. -/
def finish (expected : Digest) : UploadAction σ Descriptor := do
  ensureOpen
  if ← isMoved r expected then commit r expected
  else do
    settle r expected
    commit r expected

/-- Abandons an upload. Doing so again is harmless. -/
def cancel : UploadAction σ Unit := do
  let u ← handle
  match u.state with
  | .cancelled => pure ()
  | .finished => throw .layerClosed
  | .writing => do
    onStorage (remove r u.name u.id)
    change fun u => { u with state := .cancelled }

end Upload

/-- Removes an upload by its identifier, known or not. -/
def Repository.cancelUpload {σ ρ : Type} (n : Repository σ ρ) (id : UploadId) :
    RegistryAction σ Unit :=
  Upload.remove n.registry n.name id

end ContainerRegistry
