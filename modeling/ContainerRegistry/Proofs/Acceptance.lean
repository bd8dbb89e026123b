/-
# Which documents are signed manifests

A document is accepted if and only if it has the form of a signed manifest
(`SignedManifest.IsSigned`): it is an object that gives a manifest of the current
version and at least one signature, and every signature covers one and the same
text, which reads as that manifest. Three readers look at the document, and a
loop compares what the signatures cover; none of them is mentioned in that
form. What is covered decides the manifest, so nobody can change the manifest of
an accepted document and keep the text that the signatures cover.

Key definitions: `Signature.Covers`, `SignedManifest.AreGivenBy`, `SignedManifest.IsSigned`.
Key theorems: `Signature.payload_eq_ok_iff`, `SignedManifest.signedText_eq_ok_iff`,
`SignedManifest.decode?_eq_some_iff`, `SignedManifest.parse_eq_ok_iff`,
`SignedManifest.parse_exact`.
-/
import ContainerRegistry.Proofs.Reading
import ContainerRegistry.Proofs.Signing

namespace ContainerRegistry

open Json

/-! ### Checks one after the other -/

section Checks

variable {ε α β : Type}

theorem bind_eq_ok_iff {x : Except ε α} {next : α → Except ε β} {b : β} :
    x >>= next = .ok b ↔ ∃ a, x = .ok a ∧ next a = .ok b := by
  cases x <;> simp [bind, Except.bind]

theorem unless_throw_eq_ok_iff {p : Prop} [Decidable p] {e : ε} {rest : β → Except ε α}
    {x : Except ε α} {a : α} : (if p then throw e >>= rest else x) = .ok a ↔ ¬ p ∧ x = .ok a := by
  by_cases h : p
  · simp [h, throw, throwThe, MonadExceptOf.throw, bind, Except.bind]
  · simp [h]

end Checks

/-! ### What a signature covers -/

namespace Signature

/-- A signature covers a text: it names an algorithm and holds signature bytes, and its
header says how the text is taken out of the document. -/
structure Covers (s : Signature) (document covered : Bytes) : Prop where
  algorithm : s.algorithm ≠ ""
  signature : ∃ bytes, Base64Url.decode s.signature = some bytes ∧ bytes ≠ []
  text : ∃ bytes header tail, Base64Url.decode s.header = some bytes ∧
    ProtectedHeader.IsReadFrom header bytes ∧ Base64Url.decode header.formatTail = some tail ∧
    header.formatLength ≤ document.length ∧
    covered = document.take header.formatLength ++ tail

theorem bytesOf_eq_ok_iff {text : String} {bytes : Bytes} :
    bytesOf text = .ok bytes ↔ Base64Url.decode text = some bytes := by
  rw [bytesOf]
  cases Base64Url.decode text <;> simp

/-- **A signature has the text that it covers.** -/
theorem payload_eq_ok_iff {s : Signature} {document covered : Bytes} :
    s.payload document = .ok covered ↔ s.Covers document covered := by
  simp only [payload, bind_eq_ok_iff, unless_throw_eq_ok_iff, bytesOf_eq_ok_iff]
  constructor
  · rintro ⟨halgorithm, bytes, hbytes, hne, text, htext, h⟩
    cases hheader : Json.decode? ProtectedHeader.decode text with
    | none =>
      rw [hheader] at h
      cases h
    | some header =>
      simp only [hheader, bind_eq_ok_iff, unless_throw_eq_ok_iff, bytesOf_eq_ok_iff] at h
      obtain ⟨tail, htail, hshort, hcovered⟩ := h
      have hread := ProtectedHeader.decode?_eq_some_iff.1 hheader
      exact ⟨halgorithm, ⟨bytes, hbytes, hne⟩, text, header, tail, htext, hread, htail,
        Nat.not_lt.1 hshort, (Except.ok.inj hcovered).symm⟩
  · rintro ⟨halgorithm, ⟨bytes, hbytes, hne⟩, text, header, tail, htext, hread, htail, hshort, rfl⟩
    refine ⟨halgorithm, bytes, hbytes, hne, text, htext, ?_⟩
    have hheader := ProtectedHeader.decode?_eq_some_iff.2 hread
    simp only [hheader, bind_eq_ok_iff, unless_throw_eq_ok_iff, bytesOf_eq_ok_iff]
    exact ⟨tail, htail, Nat.not_lt.2 hshort, rfl⟩

end Signature

namespace SignedManifest

variable {document covered : Bytes} {s : Signature} {signatures : List Signature}

theorem payloadOf_eq_ok_iff (index : Nat) :
    payloadOf document index s = .ok covered ↔ s.Covers document covered := by
  rw [payloadOf, ← Signature.payload_eq_ok_iff]
  cases s.payload document <;> simp

/-- The loop over the other signatures comes to its end when they all cover the text. -/
theorem agree_eq_ok_iff (index : Nat) : agree document covered index signatures = .ok () ↔
    ∀ s ∈ signatures, s.Covers document covered := by
  induction signatures generalizing index with
  | nil => simp [agree]
  | cons s rest ih =>
    rw [agree, List.forall_mem_cons, ← payloadOf_eq_ok_iff index, ← ih (index + 1)]
    cases payloadOf document index s with
    | error e => simp
    | ok other =>
      by_cases h : other = covered
      · simp [h]
      · simp [h]

/-- **A text is signed when there are signatures and all of them cover it.** -/
theorem signedText_eq_ok_iff : signedText document signatures = .ok covered ↔
    signatures ≠ [] ∧ ∀ s ∈ signatures, s.Covers document covered := by
  cases signatures with
  | nil => simp [signedText]
  | cons s rest =>
    rw [signedText, List.forall_mem_cons, ← payloadOf_eq_ok_iff 0]
    cases payloadOf document 0 s with
    | error e => simp
    | ok other =>
      simp only [ne_eq, reduceCtorEq, not_false_eq_true, Except.ok.injEq, true_and]
      cases h : agree document other 1 rest with
      | error e =>
        have hrest : ¬ ∀ s ∈ rest, s.Covers document other := fun hall => by
          rw [(agree_eq_ok_iff 1).2 hall] at h
          cases h
        constructor
        · intro hok
          cases hok
        · rintro ⟨rfl, hall⟩
          exact absurd hall hrest
      | ok _ =>
        have hrest := (agree_eq_ok_iff 1).1 h
        constructor
        · intro hok
          cases hok
          exact ⟨rfl, hrest⟩
        · rintro ⟨rfl, -⟩
          rfl

theorem bodyFault?_eq_none_iff {m : Manifest} :
    bodyFault? m = none ↔ m.layers ≠ [] ∧ m.history.length = m.layers.length := by
  rw [bodyFault?]
  split
  · next h => simp [h]
  · next h =>
    split
    · next hlength => simp [hlength]
    · next hlength => simpa [h] using hlength

theorem checkPayload_eq_ok_iff {m : Manifest} :
    checkPayload m covered = .ok () ↔ m.IsReadFrom covered := by
  rw [checkPayload, ← Manifest.decode?_eq_some_iff]
  cases Json.decode? Manifest.decode covered with
  | none => simp
  | some signed => by_cases h : signed = m <;> simp [h]

/-! ### What the document says -/

/-- The members of a document give a manifest and signatures: both are fields of the one
object. What the other members hold has to be JSON all the same. -/
structure AreGivenBy (m : Manifest) (signatures : List Signature) (members : List (String × Tree)) :
    Prop where
  manifest : m.IsGivenBy (.named members)
  signatures : ((Record.named members).Lacks 0 signaturesKey ∧ signatures = []) ∨
    ∃ items, (Record.named members).Gives 0 signaturesKey (.array items) ∧
      List.Forall₂ Signature.IsTree items signatures
  sound : ∀ x ∈ members, x.1 ≠ signaturesKey → x.2.isSound (depthLimit - 1) = true

/-- The member of the signatures is not a field of the manifest. -/
theorem ofRecord?_others {room : Nat} (members : List (String × Tree)) :
    Manifest.ofRecord? room (.named (members.filter fun x => x.1 != signaturesKey)) =
      Manifest.ofRecord? room (.named members) := by
  have hfield : ∀ index name, name ≠ signaturesKey →
      (Record.named (members.filter fun x => x.1 != signaturesKey)).field? index name =
        (Record.named members).field? index name := by
    intro index name hname
    have hfilter : (members.filter fun x => x.1 != signaturesKey).filter (fun x => x.1 == name) =
        members.filter fun x => x.1 == name := by
      rw [List.filter_filter]
      refine List.filter_congr fun x _ => ?_
      by_cases h : x.1 = name <;> simp [h, hname]
    rw [Record.field?, Record.field?, hfilter]
  simp only [Manifest.ofRecord?, Record.required, Record.defaulted,
    hfield _ "schemaVersion" (by decide), hfield _ "name" (by decide), hfield _ "tag" (by decide),
    hfield _ "architecture" (by decide), hfield _ "fsLayers" (by decide),
    hfield _ "history" (by decide)]

theorem signaturesOfTree_eq_some_iff {t : Tree} :
    listOfTree Signature.decode (depthLimit - 1) t = some signatures ↔
      ∃ items, t = .array items ∧ List.Forall₂ Signature.IsTree items signatures := by
  rw [listOfTree_eq_some_iff (by decide)]
  simp only [Nat.sub_sub, Nat.reduceAdd, Signature.decode_eq_some_iff]

theorem decode_object_eq_some_iff {m : Manifest} {members : List (String × Tree)} :
    decode depthLimit (.object (members.map fun x => (some x.1, x.2))) = some (m, signatures) ↔
      AreGivenBy m signatures members := by
  have hsound : (members.filter fun x => x.1 != signaturesKey).all
      (fun x => x.2.isSound (depthLimit - 1)) = true ↔
        ∀ x ∈ members, x.1 ≠ signaturesKey → x.2.isSound (depthLimit - 1) = true := by
    simp only [List.all_eq_true, List.mem_filter, bne_iff_ne, and_imp]
  simp only [decode, keyed?_eq_some_iff.2 rfl, Option.bind_eq_bind, Option.bind_some,
    Option.bind_eq_some_iff, Record.defaulted_eq_some_iff, signaturesOfTree_eq_some_iff,
    ofRecord?_others, Manifest.ofRecord?_eq_some_iff (show 2 < depthLimit - 1 by decide), hsound]
  constructor
  · rintro ⟨_, hsignatures, _, hm, h⟩
    split at h
    · next hall =>
      cases h
      refine ⟨hm, hsignatures.imp_right ?_, hall⟩
      rintro ⟨_, hgives, items, rfl, hitems⟩
      exact ⟨items, hgives, hitems⟩
    · cases h
  · rintro ⟨hm, hsignatures, hall⟩
    refine ⟨signatures, hsignatures.imp_right ?_, m, hm, if_pos hall⟩
    rintro ⟨items, hgives, hitems⟩
    exact ⟨_, hgives, items, rfl, hitems⟩

/-- **A manifest and its signatures are read from the object that gives them.** -/
theorem decode?_eq_some_iff {m : Manifest} :
    Json.decode? decode document = some (m, signatures) ↔ ∃ members,
      parse? document = some (.object (members.map fun x => (some x.1, x.2))) ∧
        AreGivenBy m signatures members := by
  rw [Json.decode?, Option.bind_eq_bind, Option.bind_eq_some_iff]
  constructor
  · rintro ⟨t, ht, hdecode⟩
    cases t with
    | object members =>
      have hkeyed : ∃ keyed, keyed? members = some keyed := by
        rw [decode, Option.bind_eq_bind] at hdecode
        obtain ⟨keyed, hkeyed, -⟩ := Option.bind_eq_some_iff.1 hdecode
        exact ⟨keyed, hkeyed⟩
      obtain ⟨keyed, hkeyed⟩ := hkeyed
      obtain rfl := keyed?_eq_some_iff.1 hkeyed
      exact ⟨keyed, ht, decode_object_eq_some_iff.1 hdecode⟩
    | _ => cases hdecode
  · rintro ⟨members, ht, hgiven⟩
    exact ⟨_, ht, decode_object_eq_some_iff.2 hgiven⟩

theorem checkVersion_eq_ok_iff {m : Manifest} {members : List (String × Tree)}
    (hparse : parse? document = some (.object (members.map fun x => (some x.1, x.2))))
    (hm : m.IsGivenBy (.named members)) :
    checkVersion document = .ok () ↔ m.schemaVersion = Manifest.currentVersion := by
  have hread : Json.decode? versionOfTree document = some (some m.schemaVersion) := by
    have hrecord := (Tree.record?_eq_some_iff (show 1 < depthLimit by decide)).2
      (show Tree.IsRecord 1 _ _ from .named members)
    rw [Json.decode?, hparse, Option.bind_eq_bind, Option.bind_some, versionOfTree, hrecord]
    exact Record.absent_eq_some_iff.2
      ⟨_, hm.schemaVersion, Tree.noConfusion, natOfTree_eq_some_iff.2 rfl⟩
  rw [checkVersion, hread]
  by_cases h : m.schemaVersion = Manifest.currentVersion <;> simp [h]

/-- A document is a signed manifest: it is an object that gives a manifest of the current
version, with a history entry for each of its layers, and signatures, all of which cover one
text, and that text says what the document says. -/
structure IsSigned (document : Bytes) (x : SignedManifest) : Prop where
  raw : x.raw = document
  object : ∃ members, parse? document = some (.object (members.map fun m => (some m.1, m.2))) ∧
    AreGivenBy x.manifest x.signatures members
  version : x.manifest.schemaVersion = 1
  layers : x.manifest.layers ≠ []
  history : x.manifest.history.length = x.manifest.layers.length
  signed : x.signatures ≠ []
  covers : ∀ s ∈ x.signatures, s.Covers document x.payload
  payload : x.manifest.IsReadFrom x.payload

variable {x y : SignedManifest}

/-- **A document is accepted when it is a signed manifest.** -/
theorem parse_eq_ok_iff : parse document = .ok x ↔ IsSigned document x := by
  rw [parse, bind_eq_ok_iff]
  constructor
  · rintro ⟨_, hversion, h⟩
    cases hdecode : Json.decode? decode document with
    | none =>
      rw [hdecode] at h
      cases h
    | some envelope =>
      obtain ⟨m, signatures⟩ := envelope
      cases hbody : bodyFault? m with
      | some e =>
        simp only [hdecode, hbody] at h
        cases h
      | none =>
        simp only [hdecode, hbody, bind_eq_ok_iff] at h
        obtain ⟨payload, hsigned, _, hpayload, hx⟩ := h
        cases hx
        obtain ⟨members, hparse, hgiven⟩ := decode?_eq_some_iff.1 hdecode
        obtain ⟨hlayers, hhistory⟩ := bodyFault?_eq_none_iff.1 hbody
        obtain ⟨hne, hcovers⟩ := signedText_eq_ok_iff.1 hsigned
        have hcurrent := (checkVersion_eq_ok_iff hparse hgiven.manifest).1 hversion
        have hread := checkPayload_eq_ok_iff.1 hpayload
        exact ⟨rfl, ⟨members, hparse, hgiven⟩, hcurrent, hlayers, hhistory, hne, hcovers, hread⟩
  · rintro ⟨rfl, ⟨members, hparse, hgiven⟩, hversion, hlayers, hhistory, hsigned, hcovers, hread⟩
    have hcurrent := (checkVersion_eq_ok_iff hparse hgiven.manifest).2 hversion
    have hdecode := decode?_eq_some_iff.2 ⟨members, hparse, hgiven⟩
    have hbody := bodyFault?_eq_none_iff.2 ⟨hlayers, hhistory⟩
    have htext := signedText_eq_ok_iff.2 ⟨hsigned, hcovers⟩
    have hpayload := checkPayload_eq_ok_iff.2 hread
    refine ⟨_, hcurrent, ?_⟩
    simp only [hdecode, hbody, bind_eq_ok_iff]
    exact ⟨x.payload, htext, _, hpayload, rfl⟩

/-- What is covered decides the manifest. -/
theorem IsSigned.manifest_eq {other : Bytes} (hx : IsSigned document x) (hy : IsSigned other y)
    (h : x.payload = y.payload) : x.manifest = y.manifest := by
  have hread := Manifest.decode?_eq_some_iff.2 hx.payload
  rw [h, Manifest.decode?_eq_some_iff.2 hy.payload] at hread
  exact (Option.some.inj hread).symm

/-- **Exactly the signed manifests are accepted.** What is accepted keeps the document and has
its digest, and two accepted documents whose signatures cover the same text have the same
manifest. -/
theorem parse_exact (document : Bytes) :
    (∀ x, parse document = .ok x ↔ IsSigned document x) ∧
    (∀ x, parse document = .ok x → x.raw = document ∧ x.digest = Digest.sha256 document) ∧
    ∀ other x y, parse document = .ok x → parse other = .ok y → x.payload = y.payload →
      x.manifest = y.manifest := by
  refine ⟨fun x => parse_eq_ok_iff, fun x hx => ?_, fun other x y hx hy hpayload => ?_⟩
  · have hraw := (parse_eq_ok_iff.1 hx).raw
    exact ⟨hraw, by rw [digest, hraw]⟩
  · exact (parse_eq_ok_iff.1 hx).manifest_eq (parse_eq_ok_iff.1 hy) hpayload

/-- The manifest of one layer, signed by somebody else. -/
def resigned : SignedManifest where
  manifest := oneLayer
  signatures := [oneLayer.signatureBy "RS256" ⟨0, 0, 0⟩ fun _ => [2]]
  payload := oneLayer.payload
  raw := oneLayer.document [oneLayer.signatureBy "RS256" ⟨0, 0, 0⟩ fun _ => [2]]

theorem parse_exact_resigned :
    IsSigned sample.raw sample ∧ IsSigned resigned.raw resigned ∧
      resigned.digest = Digest.sha256 resigned.raw ∧
      sample.signatures.map Signature.algorithm ≠ resigned.signatures.map Signature.algorithm ∧
      sample.manifest = resigned.manifest := by
  have hresigned : parse resigned.raw = .ok resigned :=
    parse_document_ok ⟨rfl, by decide, rfl, by decide, by decide⟩ rfl length_payload_oneLayer rfl
      rfl
  obtain ⟨hexact, hkept, -⟩ := parse_exact resigned.raw
  obtain ⟨hsample, -, hsame⟩ := parse_exact sample.raw
  exact ⟨(hsample sample).1 parse_sample, (hexact resigned).1 hresigned,
    (hkept resigned hresigned).2, by decide,
    hsame resigned.raw sample resigned parse_sample hresigned rfl⟩

end SignedManifest
end ContainerRegistry
