/-
# The manifests of a repository

The document of a manifest is a blob. The repository holds a revision link for
each manifest that was put into it, and for each tag a link to the manifest that
the tag means now. A manifest is put in only under its own name and tag, and only
if the repository has all its layers; the blob is stored first, then the revision
link, and the tag last.

Key definitions: `Repository.putManifest`, `Repository.resolveTag`,
`Repository.manifest`, `Repository.manifestByDigest`,
`Repository.manifestExists`, `Repository.tags`, `Repository.deleteManifest`.
-/
import ContainerRegistry.Manifest.Signed
import ContainerRegistry.Registry.Link

namespace ContainerRegistry
namespace Repository

variable {σ ρ : Type} (n : Repository σ ρ)

/-- The failure that a manifest is unknown here. -/
def unknownManifest (reference : String) : RegistryError :=
  .manifestUnknown n.name reference

/-- The path of a revision link. -/
def revisionPath (digest : Digest) : Path :=
  n.registry.path (.revisionLink n.name digest)

/-- The path of a tag's link. -/
def currentPath (tag : Tag) : Path :=
  n.registry.path (.currentLink n.name tag)

/-- The tag that a text is. -/
def tagOf (text : String) : Except RegistryError Tag :=
  match Tag.parse text with
  | .ok tag => .ok tag
  | .error e => .error (.invalidTag e)

/-- What keeps a manifest from being put here under a tag. -/
def identityFault? (tag : Tag) (m : Manifest) : Option RegistryError :=
  if m.name ≠ n.name.text then
    some (.manifestInvalid
      s!"manifest name {Quoted.quote m.name} does not match repository {n.name.text}")
  else if m.tag ≠ tag.text then
    some (.manifestInvalid s!"manifest tag {Quoted.quote m.tag} does not match tag {tag.text}")
  else none

/-- Fails at the first layer that is unknown here. -/
def requireLayers : List Digest → RegistryAction σ Unit
  | [] => pure ()
  | digest :: rest => do
    let _ ← n.layerStat digest
    requireLayers rest

/-- Stores a manifest and points a tag at it. -/
def putManifest (tag : String) (m : SignedManifest) : RegistryAction σ Digest := do
  let tag ← MonadExcept.ofExcept (tagOf tag)
  match n.identityFault? tag m.manifest with
  | some e => throw e
  | none => do
    n.requireLayers m.manifest.layers
    let descriptor ← n.registry.putBlob m.raw
    n.registry.writeLink (n.revisionPath descriptor.digest) descriptor.digest
    n.registry.writeLink (n.currentPath tag) descriptor.digest
    pure descriptor.digest

/-- The digest that a tag means now. -/
def resolveTag (tag : String) : RegistryAction σ Digest := do
  let tag ← MonadExcept.ofExcept (tagOf tag)
  match ← n.registry.readLink (n.currentPath tag) with
  | some digest => pure digest
  | none => throw (n.unknownManifest tag.text)

/-- Names an unknown blob as an unknown manifest. -/
def asManifest (reference : String) : RegistryError → RegistryError
  | .blobUnknown _ => n.unknownManifest reference
  | e => e

/-- The manifest of a revision that the repository holds. -/
def manifestByDigest (digest : Digest) : RegistryAction σ SignedManifest := do
  match ← n.registry.readLink (n.revisionPath digest) with
  | none => throw (n.unknownManifest digest.toText)
  | some target => do
    let content ← (n.registry.blobContent target).mapError (n.asManifest digest.toText)
    MonadExcept.ofExcept (SignedManifest.parse content)

/-- Names an unknown manifest by the reference that was asked for. -/
def asReference (reference : String) : RegistryError → RegistryError
  | .manifestUnknown _ _ => n.unknownManifest reference
  | e => e

/-- The manifest that a tag means now. -/
def manifest (tag : String) : RegistryAction σ SignedManifest := do
  let digest ← n.resolveTag tag
  (n.manifestByDigest digest).mapError (n.asReference tag)

/-- Whether a tag means a stored manifest. -/
def manifestExists (tag : String) : RegistryAction σ Bool := do
  match ← (n.resolveTag tag).attempt with
  | .error e => if e.isUnknown then pure false else throw e
  | .ok digest =>
    match ← n.registry.readLink (n.revisionPath digest) with
    | none => pure false
    | some _ => n.registry.blobExists digest

/-- The entries of the directory of tags, sorted. -/
def tags : RegistryAction σ (List String) := do
  let entries ← found (n.registry.storage.list (n.registry.path (.tags n.name)))
  let names := (entries.getD []).filterMap Path.fileName?
  pure (names.mergeSort fun a b => a ≤ b)

/-- Manifests are not deleted. -/
def deleteManifest (_ : Repository σ ρ) (_ : String) : RegistryAction σ Unit :=
  throw (.unsupported "manifest deletion")

end Repository
end ContainerRegistry
