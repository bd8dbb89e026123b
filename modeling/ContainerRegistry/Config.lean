/-
# Configuration

A registry is configured by a JSON record of two fields: the root of its files,
which may be absent, and the storage, which is a driver's name with parameters
for it. Storage is in memory unless it is configured.

Key definitions: `StorageConfig`, `RegistryConfig`, `RegistryConfig.read?`,
`RegistryConfig.toJson`, `RegistryConfig.setup`.
-/
import ContainerRegistry.Json.Record
import ContainerRegistry.Setup
import ContainerRegistry.Storage.Drivers

namespace ContainerRegistry

/-- Which driver to use, and how. -/
structure StorageConfig where
  driver : String
  parameters : Parameters
  deriving Repr

namespace StorageConfig

/-- Storage in memory. -/
def default : StorageConfig :=
  ⟨Backend.memory.name, []⟩

/-- Reads parameters. -/
def parametersOfTree : Json.Decoder Parameters := fun room t =>
  match t.value? room with
  | some (.object members) => some members
  | _ => none

/-- Reads the choice of a driver. -/
def decode : Json.Decoder StorageConfig := fun room t => do
  let r ← t.record? room 2
  let driver ← r.required 0 "driver" Json.textOfTree
  let parameters ← r.defaulted 1 "parameters" (parametersOfTree (room - 1)) []
  some ⟨driver, parameters⟩

/-- The JSON of the choice of a driver. -/
def toJson (c : StorageConfig) : Json :=
  .object [("driver", .text c.driver), ("parameters", .object c.parameters)]

end StorageConfig

/-- How a registry is set up. -/
structure RegistryConfig where
  root : Option Path
  storage : StorageConfig
  deriving Repr

namespace RegistryConfig

/-- Reads a path. -/
def pathOfTree (t : Json.Tree) : Option Path :=
  (Json.textOfTree t).map Path.mk

/-- Reads a configuration. -/
def decode : Json.Decoder RegistryConfig := fun room t => do
  let r ← t.record? room 2
  let root ← r.absent 0 "root" pathOfTree
  let storage ← r.defaulted 1 "storage" (StorageConfig.decode (room - 1)) .default
  some ⟨root, storage⟩

/-- The configuration that a text of JSON is. -/
def read? (bytes : Bytes) : Option RegistryConfig :=
  Json.decode? decode bytes

/-- The JSON of a configuration. -/
def toJson (c : RegistryConfig) : Json :=
  .object <|
    (c.root.map fun root => ("root", Json.text root.text)).toList ++ [("storage", c.storage.toJson)]

/-- The setup that a configuration means. -/
def setup (c : RegistryConfig) (drivers : Drivers) : Except RegistryError Setup :=
  match drivers.create c.storage.driver c.storage.parameters with
  | .error e => .error (.storage e)
  | .ok backend => (Draft.mk (some backend) c.root).complete

end RegistryConfig

end ContainerRegistry
