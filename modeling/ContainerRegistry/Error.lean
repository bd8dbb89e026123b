/-
# Failures of the registry

A registry answers with one of these failures. Each has a report, and a code for
the protocol that a registry is served over. The four that say that an object is
unknown are absences rather than failures.

Key definitions: `RegistryError`, `RegistryError.message`, `RegistryError.code`,
`RegistryError.isUnknown`.
-/
import ContainerRegistry.Digest.Basic
import ContainerRegistry.Name.Repository
import ContainerRegistry.Name.Tag
import ContainerRegistry.Name.UploadId
import ContainerRegistry.Storage.Error

namespace ContainerRegistry

/-- A failure of the registry. -/
inductive RegistryError where
  /-- No blob is stored under the digest. -/
  | blobUnknown (digest : Digest)
  /-- The repository has no layer of that digest. -/
  | layerUnknown (name : RepositoryName) (digest : Digest)
  /-- The repository has no manifest under that tag or digest. -/
  | manifestUnknown (name : RepositoryName) (reference : String)
  | uploadUnknown (id : UploadId)
  /-- A read or a write does not start where the stored bytes allow it. -/
  | invalidOffset (expected requested : Nat)
  /-- The content is not what its claimed digest names. -/
  | digestMismatch (expected actual : Digest)
  | invalidName (error : NameError)
  | invalidTag (error : TagError)
  | invalidDigestFormat (error : DigestError)
  /-- The upload or the reader is done with. -/
  | layerClosed
  | unsupportedSchemaVersion (version : Nat)
  | manifestInvalid (reason : String)
  | signatureInvalid (reason : String)
  | unsupported (operation : String)
  | storage (error : StorageError)
  /-- A stream broke. -/
  | io (error : IoError)
  | config (reason : String)
  deriving DecidableEq

namespace RegistryError

/-- The report of a failure. -/
def message : RegistryError → String
  | blobUnknown digest => s!"blob unknown to registry: {digest.toText}"
  | layerUnknown name digest => s!"layer {digest.toText} unknown to repository {name.text}"
  | manifestUnknown name reference => s!"manifest unknown: {name.text}:{reference}"
  | uploadUnknown id => s!"upload unknown: {id.text}"
  | invalidOffset expected requested => s!"invalid offset {requested}, expected {expected}"
  | digestMismatch expected actual =>
    s!"digest mismatch: expected {expected.toText}, got {actual.toText}"
  | invalidName error => s!"invalid repository name: {error.message}"
  | invalidTag error => error.message
  | invalidDigestFormat error => s!"invalid digest: {error.message}"
  | layerClosed => "layer closed"
  | unsupportedSchemaVersion version => s!"unsupported manifest schema version {version}"
  | manifestInvalid reason => s!"invalid manifest: {reason}"
  | signatureInvalid reason => s!"invalid manifest signature: {reason}"
  | unsupported operation => s!"unsupported operation: {operation}"
  | storage error => s!"storage error: {error.message}"
  | io error => s!"IO error: {error.message}"
  | config reason => s!"invalid configuration: {reason}"

/-- The code of a failure in answers to clients. -/
def code : RegistryError → String
  | blobUnknown _ | layerUnknown _ _ => "BLOB_UNKNOWN"
  | manifestUnknown _ _ => "MANIFEST_UNKNOWN"
  | uploadUnknown _ => "BLOB_UPLOAD_UNKNOWN"
  | invalidOffset _ _ | layerClosed => "BLOB_UPLOAD_INVALID"
  | digestMismatch _ _ | invalidDigestFormat _ => "DIGEST_INVALID"
  | invalidName _ => "NAME_INVALID"
  | invalidTag _ => "TAG_INVALID"
  | unsupportedSchemaVersion _ | manifestInvalid _ => "MANIFEST_INVALID"
  | signatureInvalid _ => "MANIFEST_UNVERIFIED"
  | unsupported _ => "UNSUPPORTED"
  | storage _ | io _ | config _ => "UNKNOWN"

/-- Whether a failure says that an object is not there. -/
def isUnknown : RegistryError → Bool
  | blobUnknown _ | layerUnknown _ _ | manifestUnknown _ _ | uploadUnknown _ => true
  | _ => false

end RegistryError

end ContainerRegistry
