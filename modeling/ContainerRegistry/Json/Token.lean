/-
# Tokens of JSON

A text of JSON is cut into tokens by a machine that takes one byte at a time. A
word or a number ends where a byte comes that cannot belong to it; whether what
it spells is one is judged then. What a text in quotes says is judged too, but
not insisted on: its bytes need not be UTF-8 and its escapes need not be
characters as long as nobody asks for the text, and a number may be too large
for a double as long as nobody asks for the number.

Key definitions: `Json.Token`, `Json.Lexer`, `Json.Lexer.step`, `Json.tokens?`,
`Json.numberOf?`, `Json.textOf`.
-/
import ContainerRegistry.Bytes
import ContainerRegistry.Json.Value

namespace ContainerRegistry
namespace Json

/-- A token of JSON. -/
inductive Token where
  | openArray
  | closeArray
  | openObject
  | closeObject
  | comma
  | colon
  | null
  | bool (b : Bool)
  /-- A number, unless it is too large. -/
  | number (n : Option JsonNumber)
  /-- A text, unless it is not well formed. -/
  | text (s : Option String)
  deriving DecidableEq, Repr

/-- A piece of a text in quotes: a byte as it is, or the UTF-16 unit of an escape. -/
inductive Piece where
  | byte (b : UInt8)
  | unit (n : Nat)
  deriving DecidableEq, Repr

/-- The UTF-8 encoding of a code point. -/
def utf8 (n : Nat) : Bytes :=
  Bytes.ofText (String.singleton (Char.ofNat n))

/-- The bytes of pieces, in which a unit pairs up if it is half of a pair. -/
def bytesOf? : List Piece → Option Bytes
  | [] => some []
  | .byte b :: rest => (bytesOf? rest).map (b :: ·)
  | .unit n :: rest =>
    if 0xdc00 ≤ n ∧ n ≤ 0xdfff then none
    else if 0xd800 ≤ n ∧ n ≤ 0xdbff then
      match rest with
      | .unit m :: rest =>
        if 0xdc00 ≤ m ∧ m ≤ 0xdfff then
          (bytesOf? rest).map (utf8 (0x10000 + (n - 0xd800) * 0x400 + (m - 0xdc00)) ++ ·)
        else none
      | _ => none
    else (bytesOf? rest).map (utf8 n ++ ·)

/-- The text that pieces spell. -/
def textOf (pieces : List Piece) : Option String :=
  (bytesOf? pieces).bind Bytes.text?

/-- The value of a decimal digit. -/
def digit? (b : UInt8) : Option Nat :=
  if 0x30 ≤ b ∧ b ≤ 0x39 then some (b.toNat - 0x30) else none

/-- Whether a byte is a decimal digit. -/
def isDigit (b : UInt8) : Bool :=
  (digit? b).isSome

/-- The parts of a spelled number: its sign, the digits before and after the
point, and the exponent. -/
structure Spelling where
  negative : Bool
  whole : List Nat
  /-- The digits after the point, if there is a point. -/
  fraction : Option (List Nat)
  /-- The sign and the digits of the exponent, if there is one. -/
  power : Option (Bool × List Nat)
  deriving DecidableEq, Repr

/-- The digits at the front. -/
def digits (bytes : Bytes) : List Nat :=
  (bytes.takeWhile isDigit).filterMap digit?

/-- What follows the digits at the front. -/
def afterDigits (bytes : Bytes) : Bytes :=
  bytes.dropWhile isDigit

/-- Reads the exponent at the end of a spelled number. -/
def powerOf? : Bytes → Option (Option (Bool × List Nat))
  | [] => some none
  | e :: rest =>
    if e = 0x65 ∨ e = 0x45 then
      let (negative, rest) := match rest with
        | s :: rest' =>
          if s = 0x2b then (false, rest')
          else if s = 0x2d then (true, rest')
          else (false, s :: rest')
        | [] => (false, [])
      if (digits rest).isEmpty || !(afterDigits rest).isEmpty then none
      else some (some (negative, digits rest))
    else none

/-- Reads a spelled number: no zero leads, and digits follow a point. -/
def spelling? (bytes : Bytes) : Option Spelling := do
  let (negative, bytes) := match bytes with
    | b :: rest => if b = 0x2d then (true, rest) else (false, b :: rest)
    | [] => (false, [])
  let whole := digits bytes
  if whole.isEmpty || (whole.head? == some 0 && 1 < whole.length) then none
  else
    match afterDigits bytes with
    | b :: rest =>
      if b = 0x2e then
        if (digits rest).isEmpty then none
        else
          let power ← powerOf? (afterDigits rest)
          some ⟨negative, whole, some (digits rest), power⟩
      else
        let power ← powerOf? (b :: rest)
        some ⟨negative, whole, none, power⟩
    | [] => some ⟨negative, whole, none, none⟩

/-- The number of digits. -/
def ofDigits (ds : List Nat) : Nat :=
  ds.foldl (fun n d => n * 10 + d) 0

/-- The first number that digits spell before it passes 64 bits, and how many are left. -/
def leading (value : Nat) : List Nat → Nat × Nat
  | [] => (value, 0)
  | d :: ds =>
    if 1 <<< 64 ≤ value * 10 + d then (value, ds.length + 1) else leading (value * 10 + d) ds

/-- The first digits of a spelled number that fit into 64 bits, and the power of
ten that they are to be multiplied by. -/
def significand (s : Spelling) : Nat × Int :=
  let (value, dropped) := leading 0 s.whole
  let fraction := s.fraction.getD []
  let (value, left) := leading value fraction
  (value, (dropped : Int) - (fraction.length - left : Nat))

/-- The largest exponent that is taken for what it is. -/
def largestPower : Nat := 2147483647

/-- The double that a spelled number is, unless it is too large. -/
def doubleOf? (s : Spelling) : Option JsonNumber := do
  let (value, exponent) := significand s
  let (negative, power) := (s.power.map fun p => (p.1, ofDigits p.2)).getD (false, 0)
  let exponent : Int :=
    if negative then exponent - min power largestPower else exponent + min power largestPower
  let x ← Double.ofScientific? value exponent
  let (digits, exponent) := x.shortest
  some (.decimal s.negative digits exponent)

/-- The number that is spelled, unless it is too large: a whole number if it is
spelled as one and fits into 64 bits, and is not a negative zero. -/
def numberOf? (s : Spelling) : Option JsonNumber :=
  let n := ofDigits s.whole
  if s.fraction.isSome || s.power.isSome then doubleOf? s
  else if s.negative then
    if n = 0 ∨ 1 <<< 63 < n then doubleOf? s else some (.whole (-n))
  else if 1 <<< 64 ≤ n then doubleOf? s
  else some (.whole n)

/-- Where the machine is between two bytes. The parts of a token so far are kept
the newest first. -/
inductive Mode where
  | between
  | word (letters : Bytes)
  | number (spelled : Bytes)
  | text (pieces : List Piece)
  | escape (pieces : List Piece)
  | code (pieces : List Piece) (left value : Nat)
  deriving DecidableEq, Repr

/-- The machine: the tokens so far, the newest first, and the mode. -/
structure Lexer where
  tokens : List Token
  mode : Mode
  deriving DecidableEq, Repr

namespace Lexer

/-- The machine before the first byte. -/
def start : Lexer :=
  ⟨[], .between⟩

/-- Whether a byte stands between tokens. -/
def isBlank (b : UInt8) : Bool :=
  b == 0x20 || b == 0x09 || b == 0x0a || b == 0x0d

/-- Whether a byte belongs to a word. -/
def isLetter (b : UInt8) : Bool :=
  0x61 ≤ b && b ≤ 0x7a

/-- Whether a byte belongs to a number. -/
def isNumeric (b : UInt8) : Bool :=
  isDigit b || b == 0x2d || b == 0x2b || b == 0x2e || b == 0x65 || b == 0x45

/-- The token that a word is. -/
def wordToken? (letters : Bytes) : Option Token :=
  if letters = Bytes.ofText "null" then some .null
  else if letters = Bytes.ofText "true" then some (.bool true)
  else if letters = Bytes.ofText "false" then some (.bool false)
  else none

/-- The token of a single byte. -/
def mark? (b : UInt8) : Option Token :=
  if b = 0x5b then some .openArray
  else if b = 0x5d then some .closeArray
  else if b = 0x7b then some .openObject
  else if b = 0x7d then some .closeObject
  else if b = 0x2c then some .comma
  else if b = 0x3a then some .colon
  else none

/-- Starts a token, or goes on between tokens. -/
def open? (tokens : List Token) (b : UInt8) : Option Lexer :=
  if isBlank b then some ⟨tokens, .between⟩
  else if b = 0x22 then some ⟨tokens, .text []⟩
  else if b = 0x2d || isDigit b then some ⟨tokens, .number [b]⟩
  else if isLetter b then some ⟨tokens, .word [b]⟩
  else (mark? b).map fun t => ⟨t :: tokens, .between⟩

/-- The tokens with the word or the number that has ended. -/
def close? (l : Lexer) : Option (List Token) :=
  match l.mode with
  | .between => some l.tokens
  | .word letters => (wordToken? letters.reverse).map (· :: l.tokens)
  | .number spelled => (spelling? spelled.reverse).map fun s => .number (numberOf? s) :: l.tokens
  | _ => none

/-- The byte that a letter after a backslash stands for. -/
def escaped? (b : UInt8) : Option UInt8 :=
  if b = 0x22 ∨ b = 0x5c ∨ b = 0x2f then some b
  else if b = 0x62 then some 0x08
  else if b = 0x66 then some 0x0c
  else if b = 0x6e then some 0x0a
  else if b = 0x72 then some 0x0d
  else if b = 0x74 then some 0x09
  else none

/-- The value of a hexadecimal digit, in either case. -/
def hexDigit? (b : UInt8) : Option Nat :=
  Hex.value? (Char.ofNat b.toNat)

/-- Takes one byte. -/
def step (l : Lexer) (b : UInt8) : Option Lexer :=
  match l.mode with
  | .between => open? l.tokens b
  | .word letters =>
    if isLetter b then some ⟨l.tokens, .word (b :: letters)⟩
    else (close? l).bind fun tokens => open? tokens b
  | .number spelled =>
    if isNumeric b then some ⟨l.tokens, .number (b :: spelled)⟩
    else (close? l).bind fun tokens => open? tokens b
  | .text pieces =>
    if b = 0x22 then some ⟨.text (textOf pieces.reverse) :: l.tokens, .between⟩
    else if b = 0x5c then some ⟨l.tokens, .escape pieces⟩
    else if b < 0x20 then none
    else some ⟨l.tokens, .text (.byte b :: pieces)⟩
  | .escape pieces =>
    if b = 0x75 then some ⟨l.tokens, .code pieces 4 0⟩
    else (escaped? b).map fun c => ⟨l.tokens, .text (.byte c :: pieces)⟩
  | .code pieces left value =>
    (hexDigit? b).map fun d =>
      if left ≤ 1 then ⟨l.tokens, .text (.unit (value * 16 + d) :: pieces)⟩
      else ⟨l.tokens, .code pieces (left - 1) (value * 16 + d)⟩

end Lexer

/-- The tokens of a text. -/
def tokens? (bytes : Bytes) : Option (List Token) := do
  let l ← bytes.foldlM Lexer.step Lexer.start
  let tokens ← l.close?
  some tokens.reverse

end Json
end ContainerRegistry
