/-
# Links

A link is a small file in a repository that points at shared content. A layer
link holds the path of a blob, and a repository sees exactly the blobs that it
has such links to. Revision links and tag links hold the text of a digest.

Key definitions: `Registry.readLink`, `Registry.writeLink`,
`Repository.linkLayer`, `Repository.resolveLayer`, `Repository.layerStat`,
`Repository.layerExists`, `Repository.layerOpen`, `Repository.mount`.
-/
import ContainerRegistry.Registry.Blob
import ContainerRegistry.Text.Blank

namespace ContainerRegistry

/-- The failure of reading a link whose content is no link. -/
def corruptLink (path : Path) (cause : String) : RegistryError :=
  .storage ⟨.other, "link", some path.text, some "corrupt link", cause⟩

/-- The cause that content is not UTF-8. -/
def notUtf8 : String := "<utf8>"

/-- The digest that the content of a link names, blanks around it aside. -/
def digestOfLink (path : Path) (content : Bytes) : Except RegistryError Digest :=
  match Bytes.text? content with
  | none => .error (corruptLink path notUtf8)
  | some text =>
    match Digest.parse (Blank.trim text) with
    | .ok digest => .ok digest
    | .error e => .error (corruptLink path e.message)

/-- The path that the content of a layer link holds. -/
def pathOfLink (path : Path) (content : Bytes) : Except RegistryError Path :=
  match Bytes.text? content with
  | none => .error (corruptLink path notUtf8)
  | some text => if text = "" then .error (corruptLink path "link is empty") else .ok ⟨text⟩

namespace Registry

variable {σ ρ : Type} (r : Registry σ ρ)

/-- The digest that a link holds, if there is a link. -/
def readLink (path : Path) : RegistryAction σ (Option Digest) := do
  match ← found (r.storage.getContent path) with
  | none => pure none
  | some content => do
    let digest ← MonadExcept.ofExcept (digestOfLink path content)
    pure (some digest)

/-- Points a link at a digest. -/
def writeLink (path : Path) (digest : Digest) : RegistryAction σ Unit :=
  stored (r.storage.putContent path (Bytes.ofText digest.toText))

end Registry

namespace Repository

variable {σ ρ : Type} (n : Repository σ ρ)

/-- The path of a layer link. -/
def layerPath (digest : Digest) : Path :=
  n.registry.path (.layerLink n.name digest)

/-- The failure that a layer is unknown here. -/
def unknownLayer (digest : Digest) : RegistryError :=
  .layerUnknown n.name digest

/-- Names an unknown blob as an unknown layer of this repository. -/
def asLayer (digest : Digest) : RegistryError → RegistryError
  | .blobUnknown _ => n.unknownLayer digest
  | e => e

/-- Makes a blob visible here. -/
def linkLayer (digest : Digest) (target : Path) : RegistryAction σ Unit :=
  stored (n.registry.storage.putContent (n.layerPath digest) (Bytes.ofText target.text))

/-- The path that a layer is linked to. -/
def resolveLayer (digest : Digest) : RegistryAction σ Path := do
  let path := n.layerPath digest
  let content ← orUnknown (n.unknownLayer digest) (n.registry.storage.getContent path)
  MonadExcept.ofExcept (pathOfLink path content)

/-- Describes a linked layer. -/
def layerStat (digest : Digest) : RegistryAction σ Descriptor := do
  let target ← n.resolveLayer digest
  (n.registry.blobStatAt digest target).mapError (n.asLayer digest)

/-- Whether a layer is linked here and its content is there. -/
def layerExists (digest : Digest) : RegistryAction σ Bool := do
  match ← (n.layerStat digest).attempt with
  | .ok _ => pure true
  | .error e => if e.isUnknown then pure false else throw e

/-- Opens a linked layer from an offset. -/
def layerOpen (digest : Digest) (offset : Nat) : RegistryAction σ (BlobReader ρ) := do
  let target ← n.resolveLayer digest
  (n.registry.blobOpenAt digest target offset).mapError (n.asLayer digest)

/-- Makes a stored blob visible here without another upload. -/
def mount (digest : Digest) : RegistryAction σ Descriptor := do
  let descriptor ← n.registry.blobStat digest
  n.linkLayer digest (n.registry.blobPath digest)
  pure descriptor

end Repository

end ContainerRegistry
