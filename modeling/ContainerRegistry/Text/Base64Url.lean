/-
# The URL-safe base64 alphabet, written without padding

Three bytes are four symbols of six bits. The writer leaves the end unpadded;
the reader takes the end padded or not, but refuses a symbol outside the
alphabet, a lone last symbol, padding anywhere else, and spare bits of the last
symbol that are not zero, so a byte string has one spelling up to padding.

Key definitions: `Base64Url.encode`, `Base64Url.decode`.
-/
import ContainerRegistry.Bytes

namespace ContainerRegistry
namespace Base64Url

/-- The symbol of a number below 64. -/
def symbol (n : Nat) : Char :=
  if n < 26 then Char.ofNat (0x41 + n)
  else if n < 52 then Char.ofNat (0x47 + n)
  else if n < 62 then Char.ofNat (n - 4)
  else if n = 62 then '-'
  else '_'

/-- The number of a symbol. -/
def value? (c : Char) : Option Nat :=
  if 'A' ≤ c && c ≤ 'Z' then some (c.toNat - 0x41)
  else if 'a' ≤ c && c ≤ 'z' then some (c.toNat - 0x47)
  else if '0' ≤ c && c ≤ '9' then some (c.toNat + 4)
  else if c = '-' then some 62
  else if c = '_' then some 63
  else none

/-- The symbols of a byte string. -/
def symbols : Bytes → List Char
  | [] => []
  | [a] => [symbol (a.toNat / 4), symbol (a.toNat % 4 * 16)]
  | [a, b] =>
    [symbol (a.toNat / 4), symbol (a.toNat % 4 * 16 + b.toNat / 16), symbol (b.toNat % 16 * 4)]
  | a :: b :: c :: rest =>
    symbol (a.toNat / 4) :: symbol (a.toNat % 4 * 16 + b.toNat / 16) ::
      symbol (b.toNat % 16 * 4 + c.toNat / 64) :: symbol (c.toNat % 64) :: symbols rest

/-- A byte string in base64. -/
def encode (bytes : Bytes) : String :=
  String.ofList (symbols bytes)

/-- The byte of two last symbols. -/
def lastOne (a b : Char) : Option Bytes := do
  let x ← value? a
  let y ← value? b
  if y % 16 = 0 then some [UInt8.ofNat (x * 4 + y / 16)] else none

/-- The two bytes of three last symbols. -/
def lastTwo (a b c : Char) : Option Bytes := do
  let x ← value? a
  let y ← value? b
  let z ← value? c
  if z % 4 = 0 then
    some [UInt8.ofNat (x * 4 + y / 16), UInt8.ofNat (y % 16 * 16 + z / 4)]
  else none

/-- The three bytes of four symbols. -/
def three (a b c d : Char) : Option Bytes := do
  let x ← value? a
  let y ← value? b
  let z ← value? c
  let w ← value? d
  some [
    UInt8.ofNat (x * 4 + y / 16), UInt8.ofNat (y % 16 * 16 + z / 4), UInt8.ofNat (z % 4 * 64 + w)]

/-- The bytes that symbols stand for. -/
def ofSymbols : List Char → Option Bytes
  | [] => some []
  | [_] => none
  | [a, b] => lastOne a b
  | [a, b, c] => if c = '=' then lastOne a b else lastTwo a b c
  | [a, b, c, d] =>
    if d = '=' then (if c = '=' then lastOne a b else lastTwo a b c) else three a b c d
  | a :: b :: c :: d :: e :: rest => do
    let head ← three a b c d
    let tail ← ofSymbols (e :: rest)
    some (head ++ tail)

/-- The bytes that a text stands for. -/
def decode (s : String) : Option Bytes :=
  ofSymbols s.toList

end Base64Url
end ContainerRegistry
