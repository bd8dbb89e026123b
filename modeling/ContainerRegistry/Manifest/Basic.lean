/-
# Manifests

A manifest describes an image of a repository: the layers it is made of, most
recent first, and for each of them a history entry, which is kept as text. As
JSON it is an object with its fields in a fixed order; a layer is an object with
the one member `blobSum`, and a history entry one with `v1Compatibility`.

Key definitions: `Manifest`, `Manifest.ofLayers`, `Manifest.toJson`,
`Manifest.ofRecord?`, `Manifest.decode`.
-/
import ContainerRegistry.Digest.Basic
import ContainerRegistry.Json.Record

namespace ContainerRegistry

/-- The unsigned body of a manifest. -/
structure Manifest where
  schemaVersion : Nat
  /-- The repository that the manifest belongs to. -/
  name : String
  /-- The tag that it is published under. -/
  tag : String
  architecture : String
  layers : List Digest
  history : List String
  deriving DecidableEq

namespace Manifest

/-- The schema version that is understood. -/
def currentVersion : Nat := 1

/-- A manifest of layers with empty history entries. -/
def ofLayers (name tag : String) (layers : List Digest) : Manifest :=
  ⟨currentVersion, name, tag, "amd64", layers, layers.map fun _ => "\x7b\x7d"⟩

/-- The JSON of a layer. -/
def layerJson (digest : Digest) : Json :=
  .object [("blobSum", .text digest.toText)]

/-- The JSON of a history entry. -/
def historyJson (entry : String) : Json :=
  .object [("v1Compatibility", .text entry)]

/-- The JSON of a manifest. -/
def toJson (m : Manifest) : Json :=
  .object [
    ("schemaVersion", .number (.whole m.schemaVersion)),
    ("name", .text m.name),
    ("tag", .text m.tag),
    ("architecture", .text m.architecture),
    ("fsLayers", .array (m.layers.map layerJson)),
    ("history", .array (m.history.map historyJson))]

/-- Reads a digest. -/
def digestOfTree (t : Json.Tree) : Option Digest := do
  let text ← Json.textOfTree t
  (Digest.parse text).toOption

/-- Reads a layer. -/
def layerOfTree : Json.Decoder Digest := fun room t => do
  let r ← t.record? room 1
  r.required 0 "blobSum" digestOfTree

/-- Reads a history entry. -/
def historyOfTree : Json.Decoder String := fun room t => do
  let r ← t.record? room 1
  r.required 0 "v1Compatibility" Json.textOfTree

/-- Reads a manifest from its fields. -/
def ofRecord? (room : Nat) (r : Json.Record) : Option Manifest := do
  let schemaVersion ← r.required 0 "schemaVersion" Json.natOfTree
  let name ← r.required 1 "name" Json.textOfTree
  let tag ← r.required 2 "tag" Json.textOfTree
  let architecture ← r.defaulted 3 "architecture" Json.textOfTree ""
  let layers ← r.required 4 "fsLayers" (Json.listOfTree layerOfTree room)
  let history ← r.defaulted 5 "history" (Json.listOfTree historyOfTree room) []
  some ⟨schemaVersion, name, tag, architecture, layers, history⟩

/-- Reads a manifest. -/
def decode : Json.Decoder Manifest := fun room t => do
  let r ← t.record? room 6
  ofRecord? (room - 1) r

end Manifest

end ContainerRegistry
