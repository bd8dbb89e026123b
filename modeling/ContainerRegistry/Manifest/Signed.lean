/-
# Signed manifests

A signed manifest is the text of a manifest into which a member `signatures` has
been put before the closing brace. A document is accepted when it reads as a
manifest of the current version, with layers and as many history entries, when
each of its signatures has the form of one, and when they all sign one and the
same text, which reads as the same manifest. Whose signatures they are is not
asked.

Key definitions: `SignedManifest`, `SignedManifest.parse`, `Manifest.sign`.
-/
import ContainerRegistry.Error
import ContainerRegistry.Manifest.Basic
import ContainerRegistry.Manifest.Signature
import ContainerRegistry.Time.Instant

namespace ContainerRegistry

/-- A manifest with the document that it came in. -/
structure SignedManifest where
  manifest : Manifest
  /-- The signatures, in the order of the document. -/
  signatures : List Signature
  /-- The text that the signatures cover. -/
  payload : Bytes
  /-- The document. -/
  raw : Bytes

namespace SignedManifest

/-- The digest of the document. -/
def digest (m : SignedManifest) : Digest :=
  Digest.sha256 m.raw

/-- The reason that a text is not the JSON it should be. -/
def notJson : String := "<json>"

/-- Reads the schema version, whatever else a document holds. -/
def versionOfTree : Json.Decoder (Option Nat) := fun room t => do
  let r ← t.record? room 1
  r.absentByName 0 "schemaVersion" Json.natOfTree

/-- The member that holds the signatures. -/
def signaturesKey : String := "signatures"

/-- Reads a manifest and its signatures. -/
def decode : Json.Decoder (Manifest × List Signature) := fun room t =>
  match t with
  | .object members => do
    let members ← Json.keyed? members
    let others := members.filter fun m => m.1 != signaturesKey
    let signatures ← (Json.Record.named members).defaulted 0 signaturesKey
      (Json.listOfTree Signature.decode (room - 1)) []
    let manifest ← Manifest.ofRecord? (room - 1) (.named others)
    if others.all fun m => m.2.isSound (room - 1) then some (manifest, signatures) else none
  | _ => none

/-- The failure of one signature. -/
def badSignature (index : Nat) (reason : String) : RegistryError :=
  .signatureInvalid s!"signature {index}: {reason}"

/-- The text that one signature of a document signs. -/
def payloadOf (document : Bytes) (index : Nat) (s : Signature) : Except RegistryError Bytes :=
  match s.payload document with
  | .ok payload => .ok payload
  | .error reason => .error (badSignature index reason)

/-- Whether the signatures from an index on all sign a text. -/
def agree (document payload : Bytes) : Nat → List Signature → Except RegistryError Unit
  | _, [] => .ok ()
  | index, s :: rest =>
    match payloadOf document index s with
    | .error e => .error e
    | .ok other =>
      if other = payload then agree document payload (index + 1) rest
      else .error (badSignature index "payload differs from other signatures")

/-- The text that all signatures of a document sign. -/
def signedText (document : Bytes) : List Signature → Except RegistryError Bytes
  | [] => .error (.signatureInvalid "manifest is not signed")
  | s :: rest =>
    match payloadOf document 0 s with
    | .error e => .error e
    | .ok payload =>
      match agree document payload 1 rest with
      | .error e => .error e
      | .ok () => .ok payload

/-- What keeps a manifest from being stored, whoever signs it. -/
def bodyFault? (m : Manifest) : Option RegistryError :=
  if m.layers = [] then some (.manifestInvalid "manifest has no layers")
  else if m.history.length ≠ m.layers.length then
    some (.manifestInvalid s!"{m.history.length} history entries for {m.layers.length} layers")
  else none

/-- Checks the schema version of a document. -/
def checkVersion (document : Bytes) : Except RegistryError Unit :=
  match Json.decode? versionOfTree document with
  | none => .error (.manifestInvalid notJson)
  | some none => .error (.manifestInvalid "missing schemaVersion")
  | some (some version) =>
    if version = Manifest.currentVersion then .ok () else .error (.unsupportedSchemaVersion version)

/-- Checks that the signed text reads as a manifest. -/
def checkPayload (m : Manifest) (payload : Bytes) : Except RegistryError Unit :=
  match Json.decode? Manifest.decode payload with
  | none => .error (.signatureInvalid s!"payload: {notJson}")
  | some signed =>
    if signed = m then .ok ()
    else .error (.signatureInvalid "signed payload does not match manifest")

/-- The signed manifest that a document is. -/
def parse (document : Bytes) : Except RegistryError SignedManifest := do
  checkVersion document
  match Json.decode? decode document with
  | none => .error (.manifestInvalid notJson)
  | some (manifest, signatures) => do
    match bodyFault? manifest with
    | some e => throw e
    | none => pure ()
    let payload ← signedText document signatures
    checkPayload manifest payload
    pure ⟨manifest, signatures, payload, document⟩

end SignedManifest

namespace Manifest

/-- The text of a manifest that is signed. -/
def payload (m : Manifest) : Bytes :=
  Bytes.ofText m.toJson.pretty

/-- The closing brace. -/
def closingBrace : UInt8 := 0x7d

/-- The length of a text up to the last byte that is not blank before the last
closing brace. -/
def bodyLength? (text : Bytes) : Option Nat :=
  match text.reverse.dropWhile (· != closingBrace) with
  | [] => none
  | _ :: before =>
    match before.dropWhile Bytes.isAsciiBlank with
    | [] => none
    | body => some body.length

/-- The header that protects a text whose body has a length. -/
def headerFor (text : Bytes) (length : Nat) (time : Instant) : ProtectedHeader :=
  ⟨length, Base64Url.encode (text.drop length), some time.toOffsetText⟩

/-- What a signer signs: the header and the text, both in base64. -/
def signingInput (header : String) (text : Bytes) : Bytes :=
  Bytes.ofText (header ++ "." ++ Base64Url.encode text)

/-- A text with signatures put in after its body. -/
def withSignatures (text : Bytes) (length : Nat) (signatures : List Signature) : Bytes :=
  text.take length ++ Bytes.ofText ",\n   \"signatures\": " ++
    Bytes.ofText (Json.array (signatures.map Signature.toJson)).pretty ++ text.drop length

/-- The signed document of a manifest. The signer is given what it has to sign,
and the algorithm goes by the name that it is given. -/
def sign (m : Manifest) (algorithm : String) (time : Instant) (signer : Bytes → Bytes) :
    Except RegistryError Bytes :=
  match bodyLength? m.payload with
  | none => .error (.manifestInvalid "empty manifest body")
  | some length =>
    let header := (headerFor m.payload length time).encode
    let signature := Base64Url.encode (signer (signingInput header m.payload))
    .ok (withSignatures m.payload length [⟨algorithm, none, signature, header⟩])

end Manifest

end ContainerRegistry
