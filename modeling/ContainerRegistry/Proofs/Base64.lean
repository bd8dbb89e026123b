/-
# Base64 is read back

The reader gives back every byte string that the writer has spelled. The symbols of
two numbers below 64 differ, and no symbol is the padding, so the reader takes the same
turns at the end as the writer did.

Key theorems: `Base64Url.value?_symbol`, `Base64Url.decode_encode`.
-/
import ContainerRegistry.Text.Base64Url

namespace ContainerRegistry
namespace Base64Url

theorem value?_symbol : ∀ n, n < 64 → value? (symbol n) = some n := by decide

theorem symbol_ne_padding : ∀ n, n < 64 → symbol n ≠ '=' := by decide

/-- Four symbols, as a writer makes them from three bytes, are the three bytes. -/
theorem three_symbols (a b c : UInt8) :
    three (symbol (a.toNat / 4)) (symbol (a.toNat % 4 * 16 + b.toNat / 16))
      (symbol (b.toNat % 16 * 4 + c.toNat / 64)) (symbol (c.toNat % 64)) = some [a, b, c] := by
  have ha := a.toNat_lt
  have hb := b.toNat_lt
  have hc := c.toNat_lt
  rw [three, value?_symbol _ (by omega), value?_symbol _ (by omega), value?_symbol _ (by omega),
    value?_symbol _ (by omega)]
  have h1 : a.toNat / 4 * 4 + (a.toNat % 4 * 16 + b.toNat / 16) / 16 = a.toNat := by omega
  have h2 : (a.toNat % 4 * 16 + b.toNat / 16) % 16 * 16 + (b.toNat % 16 * 4 + c.toNat / 64) / 4 =
      b.toNat := by omega
  have h3 : (b.toNat % 16 * 4 + c.toNat / 64) % 4 * 64 + c.toNat % 64 = c.toNat := by omega
  simp only [Option.bind_eq_bind, Option.bind_some, h1, h2, h3, UInt8.ofNat_toNat]

/-- What follows four symbols is read on its own. -/
theorem ofSymbols_append {a b c d : Char} {head tail : Bytes} (rest : List Char)
    (hd : d ≠ '=') (hhead : three a b c d = some head) (htail : ofSymbols rest = some tail) :
    ofSymbols (a :: b :: c :: d :: rest) = some (head ++ tail) := by
  cases rest with
  | nil =>
    obtain rfl : tail = [] := by simpa [ofSymbols] using htail.symm
    simp [ofSymbols, hd, hhead]
  | cons e rest => simp [ofSymbols, hhead, htail]

theorem ofSymbols_symbols : ∀ bytes : Bytes, ofSymbols (symbols bytes) = some bytes
  | [] => rfl
  | [a] => by
    have ha := a.toNat_lt
    have h : a.toNat / 4 * 4 + a.toNat % 4 * 16 / 16 = a.toNat := by omega
    rw [symbols, ofSymbols, lastOne, value?_symbol _ (by omega), value?_symbol _ (by omega)]
    have hspare : a.toNat % 4 * 16 % 16 = 0 := by omega
    simp only [Option.bind_eq_bind, Option.bind_some, hspare, if_true, h, UInt8.ofNat_toNat]
  | [a, b] => by
    have ha := a.toNat_lt
    have hb := b.toNat_lt
    have h1 : a.toNat / 4 * 4 + (a.toNat % 4 * 16 + b.toNat / 16) / 16 = a.toNat := by omega
    have h2 : (a.toNat % 4 * 16 + b.toNat / 16) % 16 * 16 + b.toNat % 16 * 4 / 4 = b.toNat := by
      omega
    rw [symbols, ofSymbols, if_neg (symbol_ne_padding _ (by omega)), lastTwo,
      value?_symbol _ (by omega), value?_symbol _ (by omega), value?_symbol _ (by omega)]
    have hspare : b.toNat % 16 * 4 % 4 = 0 := by omega
    simp only [Option.bind_eq_bind, Option.bind_some, hspare, if_true, h1, h2, UInt8.ofNat_toNat]
  | a :: b :: c :: rest =>
    ofSymbols_append _ (symbol_ne_padding _ (by omega)) (three_symbols a b c)
      (ofSymbols_symbols rest)

/-- **Base64 is read back.** -/
theorem decode_encode (bytes : Bytes) : decode (encode bytes) = some bytes := by
  rw [decode, encode, String.toList_ofList, ofSymbols_symbols]

end Base64Url
end ContainerRegistry
