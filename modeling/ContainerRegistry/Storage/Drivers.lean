/-
# Drivers by name

Which drivers there are is a table of factories by name. A factory makes a
backend of its parameters, which are the members of a JSON object, or says what
is wrong with them. A name that is registered again means the new factory.

Key definitions: `Parameters`, `Factory`, `Drivers`, `Drivers.create`,
`Drivers.builtIn`.
Key theorems: `Drivers.create_register`, `Drivers.create_register_of_ne`.
-/
import ContainerRegistry.Json.Value
import ContainerRegistry.Storage.Backend
import ContainerRegistry.Text.Quoted
import Std.Data.TreeMap.Lemmas

namespace ContainerRegistry

/-- The parameters of a driver, by name. -/
abbrev Parameters := List (String × Json)

/-- Makes a backend of parameters. -/
abbrev Factory := Parameters → Except StorageError Backend

namespace Factory

/-- A factory that does not look at its parameters. -/
def always (b : Backend) : Factory :=
  fun _ => .ok b

/-- Takes the directory from the parameter `root`, which must be a text. -/
def directory : Factory := fun parameters =>
  match parameters.lookup "root" with
  | some (.text root) => .ok (.directory ⟨root⟩)
  | _ => .error (.plain LocalStore.engine .invalidRequest "filesystem driver parameters")

end Factory

/-- The factories by name. -/
structure Drivers where
  factories : Std.TreeMap String Factory

namespace Drivers

/-- The table without drivers. -/
def empty : Drivers :=
  ⟨∅⟩

/-- The table in which a name means a factory. -/
def register (d : Drivers) (name : String) (factory : Factory) : Drivers :=
  ⟨d.factories.insert name factory⟩

/-- The table of the drivers that are always there. -/
def builtIn : Drivers :=
  ((empty.register "inmemory" (.always .memory)).register "filesystem" .directory).register "temp"
    (.always .temporary)

/-- The registered names, sorted. -/
def names (d : Drivers) : List String :=
  d.factories.keys

/-- The table as a programmer sees it. -/
def debugText (d : Drivers) : String :=
  "DriverRegistry \x7b drivers: [" ++ ", ".intercalate (d.names.map Quoted.quote) ++ "] \x7d"

/-- The failure that a name means no driver. -/
def unregistered (name : String) : StorageError :=
  ⟨.invalidRequest, "registry", none, some "create driver",
    s!"storage driver {name} is not registered"⟩

/-- Makes the backend that a name and parameters mean. -/
def create (d : Drivers) (name : String) (parameters : Parameters) : Except StorageError Backend :=
  match d.factories[name]? with
  | some factory => factory parameters
  | none => .error (unregistered name)

theorem create_register (d : Drivers) (name : String) (factory : Factory)
    (parameters : Parameters) :
    (d.register name factory).create name parameters = factory parameters := by
  simp [create, register]

theorem create_register_of_ne (d : Drivers) {name other : String} (h : name ≠ other)
    (factory : Factory) (parameters : Parameters) :
    (d.register name factory).create other parameters = d.create other parameters := by
  simp [create, register, Std.TreeMap.getElem?_insert, h]

end Drivers

end ContainerRegistry
