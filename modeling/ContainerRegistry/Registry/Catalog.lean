/-
# The catalog

The repositories of a registry are found by walking its directories. A directory
is a repository when one of the three directories that only repositories have is
in it and is not empty, and when its path beneath the root is a repository name;
a cancelled upload leaves only an empty one behind. Entries that start with an
underscore are not walked. The walk ends because a driver states how many
directories there can be.

Key definitions: `Catalog.nameAt?`, `Registry.walk`, `Registry.catalog`.
-/
import ContainerRegistry.Registry.Basic

namespace ContainerRegistry
namespace Catalog

/-- The directories that only repositories have. -/
def markers : List String :=
  ["_layers", "_manifests", "_uploads"]

/-- Whether an entry is one of those directories. -/
def isMarker (p : Path) : Bool :=
  match p.fileName? with
  | some name => markers.contains name
  | none => false

/-- Whether an entry is a directory that may hold repositories. -/
def isBranch (p : Path) : Bool :=
  match p.fileName? with
  | some name => name.toList.head? != some '_'
  | none => false

/-- The repository that a directory is, by its place beneath the root. -/
def nameAt? (root dir : Path) : Option RepositoryName := do
  let relative ← Components.strip? root.components dir.components
  (RepositoryName.parse (Components.relativeText relative)).toOption

end Catalog

namespace Registry

variable {σ ρ : Type} (r : Registry σ ρ)

/-- Whether one of some directories has entries; the later ones are not asked then. -/
def anyFilled : List Path → RegistryAction σ Bool
  | [] => pure false
  | marker :: rest => do
    match ← found (r.storage.list marker) with
    | some (_ :: _) => pure true
    | _ => anyFilled rest

/-- Walks the directories on a stack, at most so many, and adds the repositories
among them to those found. -/
def walk : Nat → List Path → List RepositoryName → RegistryAction σ (List RepositoryName)
  | 0, _, names => pure names
  | _ + 1, [], names => pure names
  | fuel + 1, dir :: pending, names => do
    match ← found (r.storage.list dir) with
    | none => walk fuel pending names
    | some children => do
      let branches := children.filter Catalog.isBranch
      let filled ← r.anyFilled (children.filter Catalog.isMarker)
      let name := if filled then Catalog.nameAt? (r.path .repositories) dir else none
      walk fuel (branches.reverse ++ pending) (name.toList ++ names)

/-- All repositories with layers, manifests or uploads, sorted by name. -/
def catalog : RegistryAction σ (List RepositoryName) := do
  let fuel := r.storage.extent (← get)
  let names ← r.walk fuel [r.path .repositories] []
  pure (names.mergeSort fun a b => a.text ≤ b.text)

end Registry
end ContainerRegistry
