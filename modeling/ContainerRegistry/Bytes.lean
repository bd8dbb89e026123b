/-
# Byte strings as lists, and the UTF-8 text they may hold

Everything a store keeps and a stream carries is a list of bytes, so that the
laws of lists (`take`, `drop`, `++`) are the laws of slices and appends. A text
becomes bytes by its UTF-8 encoding, and bytes are a text only when they are
one's encoding.

Key definitions: `Bytes`, `Bytes.ofText`, `Bytes.text?`.
Key theorems: `Bytes.text?_ofText`.
-/

namespace ContainerRegistry

/-- A string of bytes. -/
abbrev Bytes := List UInt8

namespace Bytes

/-- The UTF-8 encoding of a text. -/
def ofText (s : String) : Bytes :=
  s.toByteArray.data.toList

/-- The text that the bytes encode, if they are well-formed UTF-8. -/
def text? (bytes : Bytes) : Option String :=
  String.fromUTF8? ⟨bytes.toArray⟩

/-- A text is read back from its encoding. -/
theorem text?_ofText (s : String) : text? (ofText s) = some s := by
  have h : (⟨(ofText s).toArray⟩ : ByteArray) = s.toByteArray := by
    simp [ofText]
  rw [text?, h, String.fromUTF8?, dif_pos s.isValidUTF8]
  rfl

/-- Whether a byte is a space, tab, line feed, form feed or carriage return. -/
def isAsciiBlank (b : UInt8) : Bool :=
  b == 0x20 || b == 0x09 || b == 0x0a || b == 0x0c || b == 0x0d

end Bytes

end ContainerRegistry
