/-
# The blob store

Content is stored once, under its digest, and shared by all repositories. A blob
is read through a reader, which knows what it reads, how far it is and its
stream; a closed reader has no stream, and reading from it fails. A plain read
gives what comes next, which may be less than is asked for; who wants more reads
on, until enough bytes are at hand or none are left.

Key definitions: `Descriptor`, `Registry.blobExists`, `Registry.blobStat`,
`Registry.blobOpen`, `Registry.putBlob`, `BlobReader`, `BlobReader.read`,
`BlobReader.readUpTo`, `BlobReader.readToEnd`, `BlobReader.close`.
-/
import ContainerRegistry.Registry.Basic

namespace ContainerRegistry

/-- What is known of stored content. -/
structure Descriptor where
  digest : Digest
  /-- The size in bytes. -/
  size : Nat
  deriving DecidableEq

/-- A reader on stored content. -/
structure BlobReader (ρ : Type) where
  descriptor : Descriptor
  /-- The offset of the next byte. -/
  position : Nat
  /-- The open stream, or none once closed. -/
  stream : Option ρ

namespace Registry

variable {σ ρ : Type} (r : Registry σ ρ)

/-- The path of a blob. -/
def blobPath (digest : Digest) : Path :=
  r.path (.blobData digest)

/-- Whether a blob is stored. -/
def blobExists (digest : Digest) : RegistryAction σ Bool := do
  match ← found (r.storage.stat (r.blobPath digest)) with
  | some metadata => pure !metadata.isDirectory
  | none => pure false

/-- Describes the content at a path, which should be that of a digest. -/
def blobStatAt (digest : Digest) (path : Path) : RegistryAction σ Descriptor := do
  let metadata ← orUnknown (.blobUnknown digest) (r.storage.stat path)
  if metadata.isDirectory then throw (.blobUnknown digest)
  else pure ⟨digest, metadata.size⟩

/-- Describes a blob. -/
def blobStat (digest : Digest) : RegistryAction σ Descriptor :=
  r.blobStatAt digest (r.blobPath digest)

/-- Opens the content at a path from an offset. -/
def blobOpenAt (digest : Digest) (path : Path) (offset : Nat) :
    RegistryAction σ (BlobReader ρ) := do
  let descriptor ← r.blobStatAt digest path
  if descriptor.size < offset then throw (.invalidOffset descriptor.size offset)
  else do
    let stream ← orUnknown (.blobUnknown digest) (r.storage.readStream path offset)
    pure ⟨descriptor, offset, some stream⟩

/-- Opens a blob from an offset. -/
def blobOpen (digest : Digest) (offset : Nat) : RegistryAction σ (BlobReader ρ) :=
  r.blobOpenAt digest (r.blobPath digest) offset

/-- Stores content that is at hand, unless it is stored already. -/
def putBlob (content : Bytes) : RegistryAction σ Descriptor := do
  let digest := Digest.sha256 content
  if !(← r.blobExists digest) then
    stored (r.storage.putContent (r.blobPath digest) content)
  r.blobStat digest

/-- The content of a blob. -/
def blobContent (digest : Digest) : RegistryAction σ Bytes :=
  orUnknown (.blobUnknown digest) (r.storage.getContent (r.blobPath digest))

end Registry

namespace BlobReader

variable {σ ρ : Type}

/-- Whether the reader is closed. -/
def isClosed (b : BlobReader ρ) : Bool :=
  b.stream.isNone

/-- The size of the content. -/
def size (b : BlobReader ρ) : Nat :=
  b.descriptor.size

/-- The reader as a programmer sees it. When the content was stored is not known
here, and is shown as `<time>`. -/
def debugText (b : BlobReader ρ) : String :=
  "BlobReader \x7b descriptor: Descriptor \x7b digest: " ++ b.descriptor.digest.debugText ++
    ", size: " ++ toString b.descriptor.size ++ ", created: <time> \x7d, position: " ++
    toString b.position ++ ", closed: " ++ (if b.isClosed then "true" else "false") ++ " \x7d"

/-- Gives up the stream. -/
def close (b : BlobReader ρ) : BlobReader ρ :=
  { b with stream := none }

/-- The failure of a plain read from a closed reader. -/
def closedRead : RegistryError :=
  .io (.custom .other RegistryError.layerClosed.message)

/-- What a reader gives of what was taken from its stream. It moves on past all
that came. -/
def advance (b : BlobReader ρ) (taken : Pulled ρ) : Except RegistryError Bytes × BlobReader ρ :=
  let moved := ⟨b.descriptor, b.position + taken.bytes.length, some taken.rest⟩
  match taken.failure with
  | none => (.ok taken.bytes, moved)
  | some e => (.error (.io e), moved)

/-- Reads once, with room for so many bytes: what comes may be fewer. -/
def read (d : Driver σ ρ) (b : BlobReader ρ) (count : Nat) (s : σ) :
    Except RegistryError Bytes × BlobReader ρ :=
  match b.stream with
  | none => (.error closedRead, b)
  | some stream => b.advance (d.fetch stream count s)

/-- Reads until so many bytes are at hand or none are left. For no bytes the
reader is not asked, closed or not. -/
def readUpTo (d : Driver σ ρ) (b : BlobReader ρ) (count : Nat) (s : σ) :
    Except RegistryError Bytes × BlobReader ρ :=
  if count = 0 then (.ok [], b)
  else
    match b.stream with
    | none => (.error closedRead, b)
    | some stream => b.advance (d.pull stream (some count) s)

/-- Reads all bytes that are left. -/
def readToEnd (d : Driver σ ρ) (b : BlobReader ρ) (s : σ) :
    Except RegistryError Bytes × BlobReader ρ :=
  match b.stream with
  | none => (.error .layerClosed, b)
  | some stream => b.advance (d.pull stream none s)

end BlobReader

end ContainerRegistry
