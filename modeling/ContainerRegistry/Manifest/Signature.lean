/-
# Signatures of manifests

A signature states its algorithm and perhaps the signer's key, the signature
bytes in base64, and a protected header in base64. The header records how the
signed text is taken back out of the document that carries it: the length of the
part before the signatures, and what followed that part.

Key definitions: `Signature`, `ProtectedHeader`, `Signature.decode`,
`Signature.payload`.
-/
import ContainerRegistry.Json.Record
import ContainerRegistry.Text.Base64Url

namespace ContainerRegistry

/-- One signature over a manifest. -/
structure Signature where
  /-- The name of the signing algorithm. -/
  algorithm : String
  /-- The signer's key, as it is given. -/
  key : Option Json
  /-- The signature bytes in base64. -/
  signature : String
  /-- The protected header in base64. -/
  header : String

/-- What a protected header says. -/
structure ProtectedHeader where
  /-- The number of bytes of the document before its signatures. -/
  formatLength : Nat
  /-- What followed those bytes when they were signed, in base64. -/
  formatTail : String
  /-- When they were signed. -/
  time : Option String
  deriving DecidableEq, Repr

namespace ProtectedHeader

/-- The JSON of a header. -/
def toJson (h : ProtectedHeader) : Json :=
  .object <|
    [("formatLength", .number (.whole h.formatLength)), ("formatTail", .text h.formatTail)] ++
      (h.time.map fun time => ("time", Json.text time)).toList

/-- A header in base64. -/
def encode (h : ProtectedHeader) : String :=
  Base64Url.encode (Bytes.ofText h.toJson.compact)

/-- Reads a header. -/
def decode : Json.Decoder ProtectedHeader := fun room t => do
  let r ← t.record? room 3
  let formatLength ← r.required 0 "formatLength" Json.natOfTree
  let formatTail ← r.required 1 "formatTail" Json.textOfTree
  let time ← r.absent 2 "time" Json.textOfTree
  some ⟨formatLength, formatTail, time⟩

end ProtectedHeader

namespace Signature

/-- The JSON of a signature. -/
def toJson (s : Signature) : Json :=
  .object [
    ("header", .object (("alg", .text s.algorithm) :: (s.key.map fun key => ("jwk", key)).toList)),
    ("signature", .text s.signature),
    ("protected", .text s.header)]

/-- Reads the algorithm and the key. -/
def joseOfTree : Json.Decoder (String × Option Json) := fun room t => do
  let r ← t.record? room 2
  let algorithm ← r.required 0 "alg" Json.textOfTree
  let key ← r.absent 1 "jwk" (Json.Tree.value? (room - 1))
  some (algorithm, key)

/-- Reads a signature. -/
def decode : Json.Decoder Signature := fun room t => do
  let r ← t.record? room 3
  let (algorithm, key) ← r.required 0 "header" (joseOfTree (room - 1))
  let signature ← r.required 1 "signature" Json.textOfTree
  let header ← r.required 2 "protected" Json.textOfTree
  some ⟨algorithm, key, signature, header⟩

/-- Reads base64 in a signature. -/
def bytesOf (text : String) : Except String Bytes :=
  match Base64Url.decode text with
  | some bytes => .ok bytes
  | none => .error "<base64>"

/-- The text that a signature in a document signs, if it has the form of one;
what the signature bytes are worth is not asked. -/
def payload (s : Signature) (document : Bytes) : Except String Bytes := do
  if s.algorithm = "" then throw "missing alg"
  let bytes ← bytesOf s.signature
  if bytes = [] then throw "empty signature"
  let header ← bytesOf s.header
  match Json.decode? ProtectedHeader.decode header with
  | none => throw "<json>"
  | some header => do
    let tail ← bytesOf header.formatTail
    if document.length < header.formatLength then throw "formatLength exceeds manifest"
    pure (document.take header.formatLength ++ tail)

end Signature

end ContainerRegistry
