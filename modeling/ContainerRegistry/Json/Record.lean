/-
# Records in JSON

A record is given as an object, whose members are found by name, or as an array
of its fields in order. An object may have members that are no fields, and what
they hold does not matter, but a field may not be given twice; an array may not
be longer than the record. A field that is missing has its default if there is
one. A field that may be absent is absent when it is `null`, and also when an
object does not mention it.

Key definitions: `Json.Decoder`, `Json.Record`, `Json.Tree.record?`,
`Json.Record.required`, `Json.Record.absent`, `Json.Record.defaulted`.
-/
import ContainerRegistry.Json.Tree

namespace ContainerRegistry
namespace Json

/-- Reads trees, with so much room for containers. -/
abbrev Decoder (α : Type) := Nat → Tree → Option α

/-- The fields of a record as they are given. -/
inductive Record where
  | named (members : List (String × Tree))
  | ordered (items : List Tree)
  deriving Repr

/-- Members whose keys are all texts. -/
def keyed? (members : List (Option String × Tree)) : Option (List (String × Tree)) :=
  members.mapM fun m => m.1.map fun key => (key, m.2)

/-- The record of at most `size` fields that a tree is. -/
def Tree.record? (room size : Nat) : Tree → Option Record
  | .array items => if 1 < room ∧ items.length ≤ size then some (.ordered items) else none
  | .object members => if 1 < room then (keyed? members).map .named else none
  | _ => none

namespace Record

variable {α : Type}

/-- The tree of a field, if the field is given; fails if it is given twice. -/
def field? (r : Record) (index : Nat) (name : String) : Option (Option Tree) :=
  match r with
  | ordered items => some items[index]?
  | named members =>
    match members.filter fun m => m.1 == name with
    | [] => some none
    | [m] => some (some m.2)
    | _ => none

/-- A field that must be given. -/
def required (r : Record) (index : Nat) (name : String) (read : Tree → Option α) : Option α := do
  (← r.field? index name).bind read

/-- A field with a default. -/
def defaulted (r : Record) (index : Nat) (name : String) (read : Tree → Option α) (default : α) :
    Option α := do
  match ← r.field? index name with
  | none => some default
  | some t => read t

/-- Reads a tree that may be `null`. -/
def nullable (read : Tree → Option α) : Tree → Option (Option α)
  | .null => some none
  | t => (read t).map some

/-- A field that may be absent, also from an array. -/
def absent (r : Record) (index : Nat) (name : String) (read : Tree → Option α) :
    Option (Option α) :=
  r.defaulted index name (nullable read) none

/-- A field that may be absent from an object, but not from an array. -/
def absentByName (r : Record) (index : Nat) (name : String) (read : Tree → Option α) :
    Option (Option α) :=
  match r with
  | ordered _ => r.required index name (nullable read)
  | named _ => r.absent index name read

end Record

/-- Reads a text. -/
def textOfTree : Tree → Option String
  | .text s => s
  | _ => none

/-- Reads a number of at most 64 bits that is not negative. -/
def natOfTree : Tree → Option Nat
  | .number (some (.whole n)) => if 0 ≤ n then some n.toNat else none
  | _ => none

/-- Reads a list. -/
def listOfTree {α : Type} (read : Decoder α) (room : Nat) : Tree → Option (List α)
  | .array items => if 1 < room then items.mapM (read (room - 1)) else none
  | _ => none

/-- Reads a text of JSON as a whole. -/
def decode? {α : Type} (read : Decoder α) (bytes : Bytes) : Option α := do
  let tree ← parse? bytes
  read depthLimit tree

end Json
end ContainerRegistry
