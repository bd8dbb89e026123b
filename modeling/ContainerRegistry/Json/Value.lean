/-
# JSON values and how they are written

A value holds its numbers as whole numbers, where those fit into 64 bits, and
otherwise as the shortest decimal of a double. The members of an object are a
list, in the order in which they are written. A value is written on one line
without blanks, or over several lines with two blanks for each level; in a text
only the quote, the backslash and the controls are escaped.

Key definitions: `Json`, `Json.compact`, `Json.pretty`, `Json.escape`.
-/
import ContainerRegistry.Json.Double
import ContainerRegistry.Text.Hex

namespace ContainerRegistry

/-- A number of JSON. -/
inductive JsonNumber where
  | whole (n : Int)
  /-- The decimal `digits * 10 ^ exponent`, negated or not. -/
  | decimal (negative : Bool) (digits : Nat) (exponent : Int)
  deriving DecidableEq, Repr

/-- A value of JSON. -/
inductive Json where
  | null
  | bool (b : Bool)
  | number (n : JsonNumber)
  | text (s : String)
  | array (items : List Json)
  | object (members : List (String × Json))
  deriving Repr

namespace JsonNumber

/-- A decimal in positional or scientific form: positional from 10^-5 below 10^16. -/
def decimalText (digits : Nat) (exponent : Int) : List Char :=
  let shown := Nat.toDigits 10 digits
  let point := (shown.length : Int) + exponent
  if digits = 0 then ['0', '.', '0']
  else if 0 ≤ exponent ∧ point ≤ 16 then
    shown ++ List.replicate exponent.toNat '0' ++ ['.', '0']
  else if 0 < point ∧ point ≤ 16 then
    shown.take point.toNat ++ '.' :: shown.drop point.toNat
  else if -5 < point ∧ point ≤ 0 then
    '0' :: '.' :: List.replicate (-point).toNat '0' ++ shown
  else
    let power := (toString (point - 1)).toList
    match shown with
    | [d] => d :: 'e' :: power
    | d :: rest => d :: '.' :: rest ++ 'e' :: power
    | [] => []

/-- A number as it is written. -/
def chars : JsonNumber → List Char
  | whole n => (toString n).toList
  | decimal negative digits exponent =>
    (if negative then ['-'] else []) ++ decimalText digits exponent

end JsonNumber

namespace Json

/-- A character as it stands in a text. -/
def escape (c : Char) : List Char :=
  if c = '"' then ['\\', '"']
  else if c = '\\' then ['\\', '\\']
  else if c.toNat = 0x08 then ['\\', 'b']
  else if c.toNat = 0x0c then ['\\', 'f']
  else if c = '\n' then ['\\', 'n']
  else if c = '\r' then ['\\', 'r']
  else if c = '\t' then ['\\', 't']
  else if c.toNat < 0x20 then ['\\', 'u'] ++ Hex.ofNatPadded 4 c.toNat
  else [c]

/-- A text in quotes. -/
def quoted (s : String) : List Char :=
  '"' :: s.toList.flatMap escape ++ ['"']

/-- A word of JSON. -/
def word (s : String) : List Char :=
  s.toList

mutual

/-- A value on one line. -/
def compactChars : Json → List Char
  | null => word "null"
  | bool b => word (if b then "true" else "false")
  | number n => n.chars
  | text s => quoted s
  | array items => '[' :: compactItems items ++ [']']
  | object members => '\x7b' :: compactMembers members ++ ['\x7d']

/-- Items on one line. -/
def compactItems : List Json → List Char
  | [] => []
  | [v] => compactChars v
  | v :: rest => compactChars v ++ ',' :: compactItems rest

/-- Members on one line. -/
def compactMembers : List (String × Json) → List Char
  | [] => []
  | [(key, v)] => quoted key ++ ':' :: compactChars v
  | (key, v) :: rest => quoted key ++ ':' :: compactChars v ++ ',' :: compactMembers rest

end

/-- A new line at a level. -/
def newline (level : Nat) : List Char :=
  '\n' :: List.replicate (2 * level) ' '

mutual

/-- A value over several lines, inside so many levels. -/
def prettyChars (level : Nat) : Json → List Char
  | null => word "null"
  | bool b => word (if b then "true" else "false")
  | number n => n.chars
  | text s => quoted s
  | array [] => ['[', ']']
  | array items => '[' :: prettyItems (level + 1) items ++ newline level ++ [']']
  | object [] => ['\x7b', '\x7d']
  | object members => '\x7b' :: prettyMembers (level + 1) members ++ newline level ++ ['\x7d']

/-- Items, each on a line of its own. -/
def prettyItems (level : Nat) : List Json → List Char
  | [] => []
  | [v] => newline level ++ prettyChars level v
  | v :: rest => newline level ++ prettyChars level v ++ ',' :: prettyItems level rest

/-- Members, each on a line of its own. -/
def prettyMembers (level : Nat) : List (String × Json) → List Char
  | [] => []
  | [(key, v)] => newline level ++ quoted key ++ ':' :: ' ' :: prettyChars level v
  | (key, v) :: rest =>
    newline level ++ quoted key ++ ':' :: ' ' :: prettyChars level v ++ ',' ::
      prettyMembers level rest

end

/-- A value on one line. -/
def compact (v : Json) : String :=
  String.ofList (compactChars v)

/-- A value over several lines. -/
def pretty (v : Json) : String :=
  String.ofList (prettyChars 0 v)

end Json

end ContainerRegistry
