/-
# Registries and repositories

A registry is a storage driver and a layout on it; a repository is a name within
a registry. What they do are actions over the driver's state that fail with a
registry's failure. A storage call enters such an action in one of three ways:
its failure stays a storage failure (`stored`), or that nothing was found becomes
the failure that names what is unknown (`orUnknown`) or the answer `none`
(`found`).

Key definitions: `Registry`, `Repository`, `Registry.repository`, `stored`,
`orUnknown`, `found`.
-/
import ContainerRegistry.Error
import ContainerRegistry.Layout
import ContainerRegistry.Storage.Driver

namespace ContainerRegistry

/-- A registry with storage states `σ` and streams `ρ`. -/
structure Registry (σ ρ : Type) where
  storage : Driver σ ρ
  layout : Layout

/-- A repository of a registry. -/
structure Repository (σ ρ : Type) where
  registry : Registry σ ρ
  name : RepositoryName

/-- What a registry does over the states of its storage. -/
abbrev RegistryAction (σ : Type) := Action σ RegistryError

namespace Registry

variable {σ ρ : Type}

/-- The path of a resource. -/
def path (r : Registry σ ρ) (resource : Resource) : Path :=
  r.layout.path resource

/-- The repository that a text names. The name is checked before storage is touched. -/
def repository (r : Registry σ ρ) (name : String) : Except RegistryError (Repository σ ρ) :=
  match RepositoryName.parse name with
  | .ok name => .ok ⟨r, name⟩
  | .error e => .error (.invalidName e)

end Registry

section Absence

variable {σ α : Type}

/-- A storage call whose failures are storage failures. -/
def stored (call : Action σ StorageError α) : RegistryAction σ α :=
  call.mapError .storage

/-- A storage call that names what is unknown when nothing is at its path. -/
def orUnknown (unknown : RegistryError) (call : Action σ StorageError α) : RegistryAction σ α :=
  call.mapError fun e => if e.isNotFound then unknown else .storage e

/-- A storage call that answers `none` when nothing is at its path. -/
def found (call : Action σ StorageError α) : RegistryAction σ (Option α) :=
  Action.ofOutcome fun s =>
    match call.outcome s with
    | (.ok a, s) => (.ok (some a), s)
    | (.error e, s) => (if e.isNotFound then .ok none else .error (.storage e), s)

end Absence

end ContainerRegistry
