/-
# Identifiers of uploads

An upload is known by a 128-bit identifier, written as groups of 8, 4, 4, 4 and
12 lowercase hexadecimal digits joined by hyphens. Upper case is read too, but
never written.

Key definitions: `UploadId`, `UploadId.isWellFormed`, `UploadId.parse?`.
-/
import ContainerRegistry.Text.Hex

namespace ContainerRegistry

namespace UploadId

/-- Whether characters are groups of lowercase digits of the right lengths. -/
def isWellFormed (cs : List Char) : Bool :=
  let groups := cs.splitOn '-'
  groups.map List.length == [8, 4, 4, 4, 12] && groups.all fun group => group.all Hex.isDigit

/-- A digit in lower case. -/
def lower (c : Char) : Char :=
  if 'A' ≤ c && c ≤ 'F' then Char.ofNat (c.toNat + 0x20) else c

end UploadId

/-- The identifier of an upload. -/
structure UploadId where
  text : String
  wellFormed : UploadId.isWellFormed text.toList = true
  deriving DecidableEq

namespace UploadId

instance : Inhabited UploadId :=
  ⟨⟨"00000000-0000-0000-0000-000000000000", by decide⟩⟩

/-- The identifier that a text is, in either case. -/
def parse? (text : String) : Option UploadId :=
  let lowered := String.ofList (text.toList.map lower)
  if h : isWellFormed lowered.toList = true then some ⟨lowered, h⟩ else none

@[ext]
theorem ext {x y : UploadId} (text : x.text = y.text) : x = y := by
  cases x
  cases y
  simp_all

end UploadId

end ContainerRegistry
