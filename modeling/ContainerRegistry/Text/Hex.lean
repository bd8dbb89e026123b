/-
# Lowercase hexadecimal

Each byte is written as two digits, the high half first.

Key definitions: `Hex.digit`, `Hex.encode`, `Hex.isDigit`.
Key theorems: `Hex.length_digits`, `Hex.isDigit_of_mem_digits`.
-/
import ContainerRegistry.Bytes

namespace ContainerRegistry
namespace Hex

/-- The digit of a number below sixteen. -/
def digit (n : Nat) : Char :=
  if n < 10 then Char.ofNat (0x30 + n) else Char.ofNat (0x57 + n)

/-- Whether a character is one of `0-9a-f`. -/
def isDigit (c : Char) : Bool :=
  ('0' ≤ c && c ≤ '9') || ('a' ≤ c && c ≤ 'f')

/-- The value of a digit, upper case allowed. -/
def value? (c : Char) : Option Nat :=
  if '0' ≤ c && c ≤ '9' then some (c.toNat - 0x30)
  else if 'a' ≤ c && c ≤ 'f' then some (c.toNat - 0x57)
  else if 'A' ≤ c && c ≤ 'F' then some (c.toNat - 0x37)
  else none

/-- The two digits of a byte. -/
def ofByte (b : UInt8) : List Char :=
  [digit (b.toNat / 16), digit (b.toNat % 16)]

/-- The digits of a byte string. -/
def digits (bytes : Bytes) : List Char :=
  bytes.flatMap ofByte

/-- A byte string in hexadecimal. -/
def encode (bytes : Bytes) : String :=
  String.ofList (digits bytes)

theorem isDigit_digit : ∀ n, n < 16 → isDigit (digit n) = true := by decide

theorem length_digits : ∀ bytes : Bytes, (digits bytes).length = 2 * bytes.length
  | [] => rfl
  | _ :: bytes => by
    have ih := length_digits bytes
    simp only [digits, List.flatMap_cons, List.length_append, List.length_cons] at ih ⊢
    rw [ih]
    simp [ofByte]
    omega

theorem isDigit_of_mem_digits {bytes : Bytes} {c : Char} (h : c ∈ digits bytes) :
    isDigit c = true := by
  obtain ⟨b, _, hc⟩ := List.mem_flatMap.1 h
  have hb : b.toNat < 256 := b.toNat_lt
  simp only [ofByte, List.mem_cons, List.not_mem_nil, or_false] at hc
  rcases hc with rfl | rfl
  · exact isDigit_digit _ (by omega)
  · exact isDigit_digit _ (by omega)

/-- The lowest `width` hexadecimal digits of a number, leading zeros kept. -/
def ofNatPadded (width n : Nat) : List Char :=
  (List.range width).reverse.map fun i => digit ((n >>> (4 * i)) % 16)

/-- A number in hexadecimal without leading zeros. -/
def ofNat (n : Nat) : String :=
  String.ofList (Nat.toDigits 16 n)

end Hex
end ContainerRegistry
