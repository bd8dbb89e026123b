/-
# Trees of JSON

A tree is what the tokens of a text build: a value in which a text or a number
may turn out not to be one, the members of an object stand in their order, and a
key may occur twice. The tokens are taken one at a time by a machine that keeps
the open arrays and objects on a stack.

Reading a tree as a value asks for more: that every text and number is one, and
that containers nest less than 128 deep. The value's objects are sorted by key,
and of two members with one key the later counts.

Key definitions: `Json.Tree`, `Json.Builder`, `Json.parse?`, `Json.Tree.isSound`,
`Json.Tree.value?`.
-/
import ContainerRegistry.Json.Token

namespace ContainerRegistry
namespace Json

/-- What a text of JSON says, before anybody asks for its texts and numbers. -/
inductive Tree where
  | null
  | bool (b : Bool)
  | number (n : Option JsonNumber)
  | text (s : Option String)
  | array (items : List Tree)
  | object (members : List (Option String × Tree))
  deriving Repr

/-- An open container, with what it holds so far, the newest first. -/
inductive Frame where
  | array (items : List Tree)
  /-- An object, and the key of the value that comes next. -/
  | object (members : List (Option String × Tree)) (key : Option String)
  deriving Repr

/-- What the machine expects. -/
inductive Builder where
  /-- A value; or the end of the array that has just been opened. -/
  | value (stack : List Frame) (mayClose : Bool)
  /-- A key; or the end of the object that has just been opened. -/
  | key (stack : List Frame) (members : List (Option String × Tree)) (mayClose : Bool)
  /-- The colon after a key. -/
  | colon (stack : List Frame) (members : List (Option String × Tree)) (key : Option String)
  /-- A comma or the end of the innermost container. -/
  | more (stack : List Frame)
  /-- Nothing. -/
  | done (tree : Tree)
  deriving Repr

namespace Builder

/-- The machine before the first token. -/
def start : Builder :=
  .value [] false

/-- Puts a finished value where it belongs. -/
def deliver (stack : List Frame) (tree : Tree) : Builder :=
  match stack with
  | [] => .done tree
  | .array items :: stack => .more (.array (tree :: items) :: stack)
  | .object members name :: stack => .more (.object ((name, tree) :: members) name :: stack)

/-- Takes the first token of a value. -/
def beginValue (stack : List Frame) : Token → Option Builder
  | .null => some (deliver stack .null)
  | .bool b => some (deliver stack (.bool b))
  | .number n => some (deliver stack (.number n))
  | .text s => some (deliver stack (.text s))
  | .openArray => some (.value (.array [] :: stack) true)
  | .openObject => some (.key stack [] true)
  | _ => none

/-- Takes one token. -/
def step : Builder → Token → Option Builder
  | .value (.array [] :: stack) true, .closeArray => some (deliver stack (.array []))
  | .value stack _, token => beginValue stack token
  | .key stack members _, .text s => some (.colon stack members s)
  | .key stack [] true, .closeObject => some (deliver stack (.object []))
  | .key _ _ _, _ => none
  | .colon stack members name, .colon => some (.value (.object members name :: stack) false)
  | .colon _ _ _, _ => none
  | .more (.array items :: stack), .comma => some (.value (.array items :: stack) false)
  | .more (.array items :: stack), .closeArray => some (deliver stack (.array items.reverse))
  | .more (.object members _ :: stack), .comma => some (.key stack members false)
  | .more (.object members _ :: stack), .closeObject =>
    some (deliver stack (.object members.reverse))
  | .more _, _ => none
  | .done _, _ => none

/-- The tree that the tokens have built. -/
def tree? : Builder → Option Tree
  | .done tree => some tree
  | _ => none

end Builder

/-- The tree of a text of JSON. -/
def parse? (bytes : Bytes) : Option Tree := do
  let tokens ← tokens? bytes
  let builder ← tokens.foldlM Builder.step Builder.start
  builder.tree?

/-- The room for containers inside a text: the outermost takes one, and the last
is never taken. -/
def depthLimit : Nat := 128

/-- Puts a member where it belongs, in place of one with its key. -/
def insertMember (key : String) (v : Json) : List (String × Json) → List (String × Json)
  | [] => [(key, v)]
  | (k, w) :: rest =>
    if key < k then (key, v) :: (k, w) :: rest
    else if key = k then (key, v) :: rest
    else (k, w) :: insertMember key v rest

/-- The members of an object, sorted by key; the last with a key counts. -/
def sortMembers (members : List (String × Json)) : List (String × Json) :=
  members.foldl (fun sorted m => insertMember m.1 m.2 sorted) []

namespace Tree

mutual

/-- Whether every text and number is one, and containers find room. -/
def isSound (room : Nat) : Tree → Bool
  | null => true
  | bool _ => true
  | number n => n.isSome
  | text s => s.isSome
  | array items => 1 < room && areSound (room - 1) items
  | object members => 1 < room && membersAreSound (room - 1) members

/-- Whether all items are sound. -/
def areSound (room : Nat) : List Tree → Bool
  | [] => true
  | t :: rest => isSound room t && areSound room rest

/-- Whether all keys and values of members are sound. -/
def membersAreSound (room : Nat) : List (Option String × Tree) → Bool
  | [] => true
  | (key, t) :: rest => key.isSome && isSound room t && membersAreSound room rest

end

mutual

/-- The value that a tree is. -/
def value? (room : Nat) : Tree → Option Json
  | null => some .null
  | bool b => some (.bool b)
  | number n => n.map .number
  | text s => s.map .text
  | array items => if 1 < room then (values? (room - 1) items).map .array else none
  | object members =>
    if 1 < room then (members? (room - 1) members).map fun ms => .object (sortMembers ms) else none

/-- The values of items. -/
def values? (room : Nat) : List Tree → Option (List Json)
  | [] => some []
  | t :: rest => do
    let v ← value? room t
    let vs ← values? room rest
    some (v :: vs)

/-- The keys and values of members. -/
def members? (room : Nat) : List (Option String × Tree) → Option (List (String × Json))
  | [] => some []
  | (key, t) :: rest => do
    let key ← key
    let v ← value? room t
    let ms ← members? room rest
    some ((key, v) :: ms)

end

end Tree

/-- The value of a text of JSON. -/
def read? (bytes : Bytes) : Option Json := do
  let tree ← parse? bytes
  tree.value? depthLimit

end Json
end ContainerRegistry
