/-
# The choice of a storage

A backend says where a registry keeps its files: in memory, in a directory, or in
a temporary directory that goes away with the storage. Opening a backend gives a
storage, which is a driver with the state that it starts in. Nothing is stored
yet then: a directory need not even exist, a temporary one does.

Key definitions: `Backend`, `Storage`, `Backend.storage`, `Storage.faulty`.
Key theorems: `Backend.name_storage`.
-/
import ContainerRegistry.Storage.Faulty
import ContainerRegistry.Storage.Local
import ContainerRegistry.Storage.Memory

namespace ContainerRegistry

/-- Where files are kept. -/
inductive Backend where
  | memory
  | directory (root : Path)
  | temporary
  deriving DecidableEq, Repr

/-- A driver and the state it starts in. -/
structure Storage where
  State : Type
  Stream : Type
  driver : Driver State Stream
  initial : State

namespace Backend

/-- The name of the driver. -/
def name : Backend → String
  | memory => "inmemory"
  | directory _ => "filesystem"
  | temporary => "temp"

/-- The directory that was chosen for the files. -/
def root? : Backend → Option Path
  | directory root => some root
  | _ => none

/-- The names on the way to a directory. -/
def names (root : Path) : List String :=
  root.components.filterMap fun
    | .name text => some text
    | _ => none

/-- The number that marks the scratch files of the drivers. -/
def process : Nat := 1

/-- The place of a temporary directory. -/
def temporaryPlace : LocalStore.Place :=
  ⟨["tmp", ".tmp000000"], process⟩

/-- The storage of a backend. -/
def storage : Backend → Storage
  | memory => ⟨_, _, MemoryStore.driver, .empty⟩
  | directory root =>
    let place : LocalStore.Place := ⟨names root, process⟩
    ⟨_, _, LocalStore.driver place, .fresh place false⟩
  | temporary => ⟨_, _, LocalStore.temporary temporaryPlace, .fresh temporaryPlace true⟩

/-- A storage goes by the name of its backend. -/
theorem name_storage : ∀ b : Backend, b.storage.driver.name = b.name
  | memory => rfl
  | directory _ => rfl
  | temporary => rfl

end Backend

/-- A storage that fails on request, with no fault waiting yet. -/
def Storage.faulty (s : Storage) : Storage :=
  ⟨_, _, Faulty.driver s.driver, ⟨s.initial, []⟩⟩

end ContainerRegistry
