/-
# Where a registry keeps what

Everything lies beneath one root. Blobs are shared and lie under their digest;
each repository has a directory of its own, in which `_layers` links to the
blobs that it may serve, `_uploads` holds what is being uploaded, and
`_manifests` holds one link for each revision and one for each tag.

```text
blobs/<algorithm>/<first two digits>/<hash>/data
repositories/<name>/_layers/<algorithm>/<hash>/link
repositories/<name>/_uploads/<id>/data
repositories/<name>/_uploads/<id>/startedat
repositories/<name>/_manifests/revisions/<algorithm>/<hash>/link
repositories/<name>/_manifests/tags/<tag>/current/link
```

Key definitions: `Resource`, `Layout`, `Layout.path`.
-/
import ContainerRegistry.Digest.Basic
import ContainerRegistry.Name.Repository
import ContainerRegistry.Name.Tag
import ContainerRegistry.Name.UploadId
import ContainerRegistry.Path

namespace ContainerRegistry

/-- What a registry keeps a file or a directory for. -/
inductive Resource where
  /-- The content of a blob. -/
  | blobData (digest : Digest)
  /-- The link by which a repository serves a blob as a layer. -/
  | layerLink (name : RepositoryName) (digest : Digest)
  /-- The directory of an upload. -/
  | upload (name : RepositoryName) (id : UploadId)
  /-- The bytes of an upload so far. -/
  | uploadData (name : RepositoryName) (id : UploadId)
  /-- The time at which an upload started. -/
  | uploadStartedAt (name : RepositoryName) (id : UploadId)
  /-- The link by which a repository holds a manifest. -/
  | revisionLink (name : RepositoryName) (digest : Digest)
  /-- The directory of the tags of a repository. -/
  | tags (name : RepositoryName)
  /-- The link from a tag to its manifest. -/
  | currentLink (name : RepositoryName) (tag : Tag)
  /-- The directory of a repository. -/
  | repository (name : RepositoryName)
  /-- The directory of all repositories. -/
  | repositories
  deriving DecidableEq

/-- The root of a registry's files. -/
structure Layout where
  root : Path
  deriving DecidableEq, Repr

namespace Layout

/-- The root that is used unless another is chosen. -/
def defaultRoot : Path :=
  ⟨"/docker/registry/v2"⟩

instance : Inhabited Layout :=
  ⟨⟨defaultRoot⟩⟩

/-- The directory of all repositories. -/
def repositories (l : Layout) : Path :=
  l.root.join "repositories"

/-- The directory of a repository. -/
def repository (l : Layout) (name : RepositoryName) : Path :=
  l.repositories.join name.text

/-- The directory of an upload. -/
def upload (l : Layout) (name : RepositoryName) (id : UploadId) : Path :=
  (l.repository name).join s!"_uploads/{id.text}"

/-- The directory of the tags of a repository. -/
def tags (l : Layout) (name : RepositoryName) : Path :=
  (l.repository name).join "_manifests/tags"

/-- The first two digits of a digest, which spread the blobs over directories. -/
def shard (digest : Digest) : String :=
  String.ofList (digest.hex.toList.take 2)

/-- The path of a resource. -/
def path (l : Layout) : Resource → Path
  | .blobData digest =>
    l.root.join s!"blobs/{digest.algorithm.name}/{shard digest}/{digest.hex}/data"
  | .layerLink name digest =>
    (l.repository name).join s!"_layers/{digest.algorithm.name}/{digest.hex}/link"
  | .upload name id => l.upload name id
  | .uploadData name id => (l.upload name id).join "data"
  | .uploadStartedAt name id => (l.upload name id).join "startedat"
  | .revisionLink name digest =>
    (l.repository name).join s!"_manifests/revisions/{digest.algorithm.name}/{digest.hex}/link"
  | .tags name => l.tags name
  | .currentLink name tag => (l.tags name).join s!"{tag.text}/current/link"
  | .repository name => l.repository name
  | .repositories => l.repositories

end Layout

end ContainerRegistry
