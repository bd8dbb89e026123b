import ContainerRegistry.Config
import ContainerRegistry.Proofs.Memory
import ContainerRegistry.Registry.Catalog
import ContainerRegistry.Registry.Manifest
import ContainerRegistry.Registry.Upload
import ContainerRegistry.Proofs.Ensures
import ContainerRegistry.Proofs.Unreliable
import ContainerRegistry.Proofs.Edit
import ContainerRegistry.Proofs.Link
import ContainerRegistry.Proofs.Handle
import ContainerRegistry.Proofs.Finish
import ContainerRegistry.Proofs.Session
import ContainerRegistry.Proofs.World
import ContainerRegistry.Proofs.Reliable
import ContainerRegistry.Proofs.Verdict
import ContainerRegistry.Proofs.Recovery
import ContainerRegistry.Proofs.Integrity
import ContainerRegistry.Proofs.Frame
import ContainerRegistry.Proofs.Listing
import ContainerRegistry.Proofs.Pointing
import ContainerRegistry.Proofs.Publish
import ContainerRegistry.Proofs.TagMap
import ContainerRegistry.Proofs.Untagged
import ContainerRegistry.Proofs.Interrupted
import ContainerRegistry.Proofs.Base64
import ContainerRegistry.Proofs.JsonText
import ContainerRegistry.Proofs.JsonTree
import ContainerRegistry.Proofs.Signing
import ContainerRegistry.Proofs.Backends
import ContainerRegistry.Proofs.Separation
import ContainerRegistry.Proofs.Isolation
import ContainerRegistry.Proofs.Visibility
import ContainerRegistry.Proofs.Reading
import ContainerRegistry.Proofs.Acceptance
import ContainerRegistry.Proofs.Instant
import ContainerRegistry.Proofs.Outcome
import ContainerRegistry.Proofs.Lifecycle
import ContainerRegistry.Proofs.Resumption
import ContainerRegistry.Proofs.Commuting
import ContainerRegistry.Proofs.Perspective
import ContainerRegistry.Proofs.FileMap
import ContainerRegistry.Proofs.FileTree
import ContainerRegistry.Proofs.Subtree
import ContainerRegistry.Proofs.Lookup
import ContainerRegistry.Proofs.Repositories
import ContainerRegistry.Proofs.Clearing
import ContainerRegistry.Proofs.Overlap
import ContainerRegistry.Proofs.Reports
import ContainerRegistry.Proofs.Absence
import ContainerRegistry.Proofs.Relocation
import ContainerRegistry.Proofs.Confinement
import ContainerRegistry.Proofs.Beneath
import ContainerRegistry.Proofs.Containment
import ContainerRegistry.Proofs.Delivery
import ContainerRegistry.Proofs.Languages
import ContainerRegistry.Proofs.DigestText
import ContainerRegistry.Proofs.Coverage
import ContainerRegistry.Proofs.Incremental
