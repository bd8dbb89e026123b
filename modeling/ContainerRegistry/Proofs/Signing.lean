/-
# Signing and parsing are inverse

A manifest is written over several lines, so its text ends in the bracket of the last list, a
new line and the closing brace, and the signatures go in before that new line. What the header
says about the text (how long it is without its end, and what that end is) gives the text back,
whatever the manifest says. A signed document therefore reads as the manifest that was signed,
with the one signature, unless the manifest, the algorithm or the signer's answer is one that
nobody accepts.

Key definitions: `Manifest.document`, `Manifest.Acceptable`.
Key theorems: `Manifest.sign_eq`, `Manifest.decode_tree`, `SignedManifest.decode_document`,
`SignedManifest.payload_document`, `SignedManifest.parse_sign`.
-/
import ContainerRegistry.Manifest.Signed
import ContainerRegistry.Proofs.Base64
import ContainerRegistry.Proofs.Grammar
import ContainerRegistry.Proofs.JsonTree

namespace ContainerRegistry

namespace Json

/-! ### Reading the trees of written values -/

theorem decode?_compact {α : Type} (read : Decoder α) {v : Json} (h : v.HasNaturals) :
    decode? read (Bytes.ofText v.compact) = read depthLimit v.tree := by
  rw [decode?, parse?_compact h]
  rfl

theorem decode?_pretty {α : Type} (read : Decoder α) {v : Json} (h : v.HasNaturals) :
    decode? read (Bytes.ofText v.pretty) = read depthLimit v.tree := by
  rw [decode?, parse?_pretty h]
  rfl

/-- The keys of written members are texts. -/
theorem keyed?_memberTrees : ∀ members : List (String × Json),
    keyed? (memberTrees members) = some (members.map fun m => (m.1, m.2.tree))
  | [] => rfl
  | (key, v) :: rest => by
    have hrest := keyed?_memberTrees rest
    simp only [keyed?] at hrest ⊢
    simp [memberTrees, hrest]

theorem trees_eq_map : ∀ items : List Json, trees items = items.map tree
  | [] => rfl
  | v :: rest => by rw [trees, trees_eq_map rest, List.map_cons]

/-- A double is not a natural number. -/
theorem natOfTree_doubleOf? (s : Spelling) : natOfTree (.number (doubleOf? s)) = none := by
  have hdecimal : ∀ n, doubleOf? s = some n → ∃ negative digits exponent,
      n = .decimal negative digits exponent := by
    intro n h
    obtain ⟨x, -, hx⟩ := Option.bind_eq_some_iff.1 h
    exact ⟨_, _, _, (Option.some.inj hx).symm⟩
  cases h : doubleOf? s with
  | none => rfl
  | some n =>
    obtain ⟨negative, digits, exponent, rfl⟩ := hdecimal n h
    rfl

/-- A natural number of at most 64 bits is read back, and no other. -/
theorem natOfTree_reread (n : Nat) :
    natOfTree (.number (JsonNumber.reread (.whole n))) = if n < 2 ^ 64 then some n else none := by
  rw [JsonNumber.reread_whole, numberOf?_decimal]
  rcases Nat.lt_or_ge n (2 ^ 64) with h | h
  · rw [if_neg (by omega), if_pos h]
    simp [natOfTree]
  · rw [if_pos h, if_neg (by omega), natOfTree_doubleOf?]

theorem textOfTree_text (s : String) : textOfTree (tree (.text s)) = some s := by
  rw [tree, textOfTree]

/-- A list of values that are each read back is read back. -/
theorem listOfTree_map {α : Type} {read : Decoder α} {write : α → Json} {room : Nat} (xs : List α)
    (hroom : 1 < room) (h : ∀ x ∈ xs, read (room - 1) (write x).tree = some x) :
    listOfTree read room (tree (.array (xs.map write))) = some xs := by
  rw [tree, listOfTree, if_pos hroom, trees_eq_map, List.map_map, List.mapM_map]
  induction xs with
  | nil => rfl
  | cons x xs ih =>
    have hrest := ih fun x hx => h x (List.mem_cons_of_mem _ hx)
    simp only [List.mapM_cons, Function.comp_apply, h x List.mem_cons_self, hrest]
    rfl

/-! ### Where a written object ends -/

/-- The last member stands last. -/
theorem prettyMembers_concat (level : Nat) (key : String) (v : Json) :
    ∀ members : List (String × Json),
      ∃ cs, prettyMembers level (members ++ [(key, v)]) = cs ++ prettyChars level v
  | [] => ⟨newline level ++ quoted key ++ [':', ' '], by simp [prettyMembers]⟩
  | [(key', w)] => by
    obtain ⟨cs, hcs⟩ : ∃ cs, prettyMembers level [(key, v)] = cs ++ prettyChars level v :=
      prettyMembers_concat level key v []
    rw [List.singleton_append, prettyMembers_cons_cons, hcs, ← List.append_assoc]
    exact ⟨_, rfl⟩
  | (key', w) :: m :: rest => by
    obtain ⟨cs, hcs⟩ := prettyMembers_concat level key v (m :: rest)
    rw [List.cons_append, List.cons_append, prettyMembers_cons_cons, ← List.cons_append, hcs,
      ← List.append_assoc]
    exact ⟨_, rfl⟩

/-- A list ends in its bracket. -/
theorem prettyChars_array_concat (level : Nat) (items : List Json) :
    ∃ cs, prettyChars level (.array items) = cs ++ [']'] := by
  cases items with
  | nil => exact ⟨['['], by simp [prettyChars]⟩
  | cons v rest =>
    rw [prettyChars_array _ (List.cons_ne_nil v rest)]
    exact ⟨_, rfl⟩

/-- The tokens of one more member. -/
theorem memberTokens_concat (key : Option String) (t : Tree) :
    ∀ members : List (Option String × Tree), members ≠ [] →
      Tree.memberTokens (members ++ [(key, t)]) =
        Tree.memberTokens members ++ [.comma] ++ ([.text key, .colon] ++ t.tokens)
  | [(key', u)], _ => by
    rw [List.singleton_append, Tree.memberTokens_cons_cons]
    simp [Tree.memberTokens]
  | (key', u) :: m :: rest, _ => by
    have hrest := memberTokens_concat key t (m :: rest) (List.cons_ne_nil m rest)
    rw [List.cons_append] at hrest
    rw [List.cons_append, List.cons_append, Tree.memberTokens_cons_cons, hrest,
      Tree.memberTokens_cons_cons]
    simp

theorem memberTrees_append : ∀ members more : List (String × Json),
    memberTrees (members ++ more) = memberTrees members ++ memberTrees more
  | [], _ => rfl
  | (key, v) :: rest, more => by
    rw [List.cons_append, memberTrees, memberTrees_append rest more, memberTrees, List.cons_append]

/-- Items that are each sound are sound. -/
theorem areSound_map {α : Type} {write : α → Json} {room : Nat} : ∀ xs : List α,
    (∀ x ∈ xs, (write x).tree.isSound room = true) →
    Tree.areSound room (trees (xs.map write)) = true
  | [], _ => rfl
  | x :: xs, h => by
    have hrest := areSound_map xs fun x hx => h x (List.mem_cons_of_mem _ hx)
    rw [List.map_cons, trees, Tree.areSound, h x List.mem_cons_self, hrest]
    rfl

end Json

namespace Manifest

theorem layerOfTree_layerJson {room : Nat} (hroom : 1 < room) (d : Digest) :
    layerOfTree room (layerJson d).tree = some d := by
  simp [layerOfTree, layerJson, Json.tree, Json.Tree.record?, hroom, Json.keyed?_memberTrees,
    Json.Record.required, Json.Record.field?, digestOfTree, Json.textOfTree, Digest.parse_toText,
    Except.toOption]

theorem historyOfTree_historyJson {room : Nat} (hroom : 1 < room) (entry : String) :
    historyOfTree room (historyJson entry).tree = some entry := by
  simp [historyOfTree, historyJson, Json.tree, Json.Tree.record?, hroom, Json.keyed?_memberTrees,
    Json.Record.required, Json.Record.field?, Json.textOfTree]

/-- The members of a manifest's JSON. -/
def members (m : Manifest) : List (String × Json) :=
  [("schemaVersion", .number (.whole m.schemaVersion)),
    ("name", .text m.name),
    ("tag", .text m.tag),
    ("architecture", .text m.architecture),
    ("fsLayers", .array (m.layers.map layerJson)),
    ("history", .array (m.history.map historyJson))]

theorem toJson_eq (m : Manifest) : m.toJson = .object m.members := rfl

theorem members_ne_nil (m : Manifest) : m.members ≠ [] := List.cons_ne_nil _ _

/-- The fields of a manifest as they are read after they have been written. -/
def fields (m : Manifest) : List (String × Json.Tree) :=
  m.members.map fun member => (member.1, member.2.tree)

/-- A manifest whose version has at most 64 bits is read back. -/
theorem ofRecord?_fields (m : Manifest) {room : Nat} (hroom : 2 < room) :
    ofRecord? room (.named m.fields) = if m.schemaVersion < 2 ^ 64 then some m else none := by
  have hlayers := Json.listOfTree_map m.layers (show 1 < room by omega)
    fun d _ => layerOfTree_layerJson (show 1 < room - 1 by omega) d
  have hhistory := Json.listOfTree_map m.history (show 1 < room by omega)
    fun entry _ => historyOfTree_historyJson (show 1 < room - 1 by omega) entry
  simp only [ofRecord?, Json.Record.required, Json.Record.defaulted, Json.Record.field?, fields,
    members, List.map_cons, List.map_nil, List.filter_cons, List.filter_nil]
  have hversion : Json.natOfTree (Json.number (.whole m.schemaVersion)).tree = _ :=
    Json.natOfTree_reread m.schemaVersion
  simp [hversion, Json.textOfTree_text, hlayers, hhistory]
  split <;> rfl

theorem hasNaturals_toJson (m : Manifest) : m.toJson.HasNaturals := by
  have hlayers : ∀ layers : List Digest, Json.ItemsHaveNaturals (layers.map layerJson) := by
    intro layers
    induction layers with
    | nil => exact trivial
    | cons d layers ih => exact ⟨⟨trivial, trivial⟩, ih⟩
  have hhistory : ∀ history : List String, Json.ItemsHaveNaturals (history.map historyJson) := by
    intro history
    induction history with
    | nil => exact trivial
    | cons entry history ih => exact ⟨⟨trivial, trivial⟩, ih⟩
  exact ⟨⟨_, rfl⟩, trivial, trivial, trivial, hlayers _, hhistory _, trivial⟩

/-- The fields of a manifest whose version has at most 64 bits are sound. -/
theorem isSound_fields (m : Manifest) {room : Nat} (hroom : 2 < room)
    (hversion : m.schemaVersion < 2 ^ 64) :
    (m.fields.all fun field => field.2.isSound room) = true := by
  have hnumber : (JsonNumber.reread (.whole m.schemaVersion)).isSome = true := by
    rw [JsonNumber.reread_whole, Json.numberOf?_decimal, if_neg (by omega)]
    rfl
  have hinner : 1 < room - 1 := by omega
  have hlayers : Json.Tree.areSound (room - 1) (Json.trees (m.layers.map layerJson)) = true :=
    Json.areSound_map m.layers fun d _ => by
      simp [layerJson, Json.tree, Json.memberTrees, Json.Tree.isSound, Json.Tree.membersAreSound,
        hinner]
  have hhistory : Json.Tree.areSound (room - 1) (Json.trees (m.history.map historyJson)) = true :=
    Json.areSound_map m.history fun d _ => by
      simp [historyJson, Json.tree, Json.memberTrees, Json.Tree.isSound, Json.Tree.membersAreSound,
        hinner]
  simp [fields, members, Json.tree, Json.Tree.isSound, hnumber, hlayers, hhistory]
  omega

/-- **The signed text reads as the manifest.** -/
theorem decode_tree (m : Manifest) {room : Nat} (hroom : 3 < room) :
    decode room m.toJson.tree = if m.schemaVersion < 2 ^ 64 then some m else none := by
  have hrecord : Json.Tree.record? room 6 m.toJson.tree = some (.named m.fields) := by
    rw [toJson_eq, Json.tree, Json.Tree.record?, if_pos (by omega), Json.keyed?_memberTrees]
    rfl
  rw [decode, hrecord, Option.bind_eq_bind, Option.bind_some, ofRecord?_fields m (by omega)]

end Manifest

namespace ProtectedHeader

theorem hasNaturals_toJson (h : ProtectedHeader) : h.toJson.HasNaturals := by
  cases htime : h.time with
  | none =>
    rw [toJson, htime]
    exact ⟨⟨_, rfl⟩, trivial, trivial⟩
  | some time =>
    rw [toJson, htime]
    exact ⟨⟨_, rfl⟩, trivial, trivial, trivial⟩

/-- **A header whose length has at most 64 bits is read back.** -/
theorem decode_encode {h : ProtectedHeader} (hlength : h.formatLength < 2 ^ 64) :
    ∃ bytes, Base64Url.decode h.encode = some bytes ∧ Json.decode? decode bytes = some h := by
  refine ⟨_, Base64Url.decode_encode _, ?_⟩
  rw [Json.decode?_compact _ h.hasNaturals_toJson]
  have hroom : 1 < Json.depthLimit := by decide
  obtain ⟨length, tail, time⟩ := h
  have hbound : length < 18446744073709551616 := hlength
  cases time with
  | none =>
    simp [decode, toJson, Json.tree, Json.Tree.record?, hroom, Json.keyed?_memberTrees,
      Json.Record.required, Json.Record.absent, Json.Record.defaulted, Json.Record.field?,
      Json.natOfTree_reread, hbound, Json.textOfTree]
  | some time =>
    simp [decode, toJson, Json.tree, Json.Tree.record?, hroom, Json.keyed?_memberTrees,
      Json.Record.required, Json.Record.absent, Json.Record.defaulted, Json.Record.field?,
      Json.natOfTree_reread, hbound, Json.textOfTree, Json.Record.nullable]

end ProtectedHeader

namespace Signature

theorem hasNaturals_toJson {s : Signature} (hkey : s.key = none) : s.toJson.HasNaturals := by
  rw [toJson, hkey]
  exact ⟨⟨trivial, trivial⟩, trivial, trivial, trivial⟩

/-- A signature without a key is read back. -/
theorem decode_tree {s : Signature} (hkey : s.key = none) {room : Nat} (hroom : 3 < room) :
    decode room s.toJson.tree = some s := by
  obtain ⟨algorithm, key, signature, header⟩ := s
  obtain rfl : key = none := hkey
  have hrecord : 1 < room := by omega
  have hjose : 1 < room - 1 := by omega
  simp [decode, joseOfTree, toJson, Json.tree, Json.Tree.record?, hrecord, hjose,
    Json.keyed?_memberTrees, Json.Record.required, Json.Record.absent, Json.Record.defaulted,
    Json.Record.field?, Json.textOfTree]

end Signature

namespace Manifest

/-! ### The text of a manifest -/

/-- The characters of a manifest before the new line and the brace that end it. -/
def bodyChars (m : Manifest) : List Char :=
  '\x7b' :: Json.prettyMembers 1 m.members

/-- The text of a manifest before its end. -/
def body (m : Manifest) : Bytes :=
  Bytes.ofChars m.bodyChars

/-- The end of a text of several lines: a new line and a brace. -/
def ending : Bytes := [0x0a, 0x7d]

theorem payload_eq (m : Manifest) : m.payload = m.body ++ ending := by
  have hchars : Json.prettyChars 0 m.toJson = m.bodyChars ++ ['\n', '\x7d'] := by
    rw [toJson_eq, Json.prettyChars_object 0 m.members_ne_nil, bodyChars]
    simp [Json.newline]
  rw [payload, Json.pretty, Bytes.ofText_ofList, hchars, Bytes.ofChars_append]
  rfl

/-- The text before the end has a bracket as its last byte. -/
theorem body_concat (m : Manifest) : ∃ front, m.body = front ++ [0x5d] := by
  obtain ⟨cs, hcs⟩ := Json.prettyMembers_concat 1 "history" (.array (m.history.map historyJson))
    (m.members.take 5)
  obtain ⟨ds, hds⟩ := Json.prettyChars_array_concat 1 (m.history.map historyJson)
  have hmembers : m.members = m.members.take 5 ++
      [("history", .array (m.history.map historyJson))] := by
    simp only [members, List.take_succ_cons, List.take_zero, List.cons_append, List.nil_append]
  refine ⟨Bytes.ofChars ('\x7b' :: cs ++ ds), ?_⟩
  rw [body, bodyChars, hmembers, hcs, hds, ← List.append_assoc, ← List.cons_append,
    ← List.cons_append, Bytes.ofChars_append]
  rfl

/-- **The end is found.** -/
theorem bodyLength?_payload (m : Manifest) : bodyLength? m.payload = some m.body.length := by
  obtain ⟨front, hfront⟩ := m.body_concat
  have hreverse : m.payload.reverse = closingBrace :: 0x0a :: 0x5d :: front.reverse := by
    rw [payload_eq, hfront]
    simp [ending, closingBrace]
  have hblank : (0x0a :: 0x5d :: front.reverse).dropWhile Bytes.isAsciiBlank =
      0x5d :: front.reverse := by
    rw [List.dropWhile_cons_of_pos (by rfl), List.dropWhile_cons_of_neg (by decide)]
  rw [bodyLength?, hreverse, List.dropWhile_cons_of_neg (by simp)]
  simp only [hblank, hfront]
  simp

/-! ### The signed document -/

/-- The header that protects a manifest. -/
def header (m : Manifest) (time : Instant) : ProtectedHeader :=
  headerFor m.payload m.body.length time

/-- The document of a manifest with its signatures. -/
def document (m : Manifest) (signatures : List Signature) : Bytes :=
  withSignatures m.payload m.body.length signatures

/-- The signature that a signer gives to a manifest. -/
def signatureBy (m : Manifest) (algorithm : String) (time : Instant) (signer : Bytes → Bytes) :
    Signature :=
  ⟨algorithm, none, Base64Url.encode (signer (signingInput (m.header time).encode m.payload)),
    (m.header time).encode⟩

theorem sign_eq (m : Manifest) (algorithm : String) (time : Instant) (signer : Bytes → Bytes) :
    m.sign algorithm time signer = .ok (m.document [m.signatureBy algorithm time signer]) := by
  rw [sign, bodyLength?_payload]
  rfl

/-- The member that is put in before the end of a manifest. -/
def signaturesJson (signatures : List Signature) : Json :=
  .array (signatures.map Signature.toJson)

theorem document_eq (m : Manifest) (signatures : List Signature) :
    m.document signatures = m.body ++ (Bytes.ofText ",\n   \"signatures\": " ++
      Bytes.ofText (signaturesJson signatures).pretty ++ ending) := by
  rw [document, withSignatures, payload_eq, List.take_left, List.drop_left]
  simp [signaturesJson]

/-- **A signed document reads as the manifest's object with one more member.** -/
theorem parse?_document (m : Manifest) {signatures : List Signature}
    (h : (signaturesJson signatures).HasNaturals) :
    Json.parse? (m.document signatures) = some (.object (Json.memberTrees
      (m.members ++ [(SignedManifest.signaturesKey, signaturesJson signatures)]))) := by
  have hmembers := Json.spells_prettyMembers 1 m.members
    (by simpa [toJson_eq, Json.HasNaturals] using m.hasNaturals_toJson)
  have hcomma := hmembers.mark (c := ',') (by decide) rfl
  have hline := ((((hcomma.spells.blank (c := '\n') (by decide) rfl).spells.blank (c := ' ')
    (by decide) rfl).spells.blank (c := ' ') (by decide) rfl).spells.blank (c := ' ')
    (by decide) rfl)
  have hmember :=
    (hline.append (Json.spellsOut_spacedKey SignedManifest.signaturesKey)).append_spells
      (Json.spells_pretty 0 (signaturesJson signatures) h)
  have htokens := Json.memberTokens_concat (some SignedManifest.signaturesKey)
    (signaturesJson signatures).tree (Json.memberTrees m.members)
    (by simp [members, Json.memberTrees])
  rw [List.append_assoc _ [Json.Token.text _, _], ← htokens] at hmember
  have hkey : Bytes.ofText ",\n   \"signatures\": " = Bytes.ofChars ([','] ++ ['\n'] ++ [' '] ++
      [' '] ++ [' '] ++ (Json.quoted SignedManifest.signaturesKey ++ [':'] ++ [' '])) := by
    decide
  have hchars := Json.parse?_of_spells (Json.spells_object (hmember.newline 0).spells)
  rw [Json.memberTrees_append]
  refine Eq.trans (congrArg Json.parse? ?_) hchars
  rw [document_eq, hkey, body, bodyChars, Json.pretty, Bytes.ofText_ofList]
  simp [Bytes.ofChars_cons]
  rfl

end Manifest

namespace SignedManifest

variable {m : Manifest} {signatures : List Signature}

theorem hasNaturals_signaturesJson : ∀ {signatures : List Signature},
    (∀ s ∈ signatures, s.key = none) → (Manifest.signaturesJson signatures).HasNaturals
  | [], _ => trivial
  | s :: _, h =>
    ⟨Signature.hasNaturals_toJson (h s List.mem_cons_self),
      hasNaturals_signaturesJson fun s hs => h s (List.mem_cons_of_mem _ hs)⟩

/-- The members of a signed document are the fields of its manifest and the signatures. -/
theorem keyed?_document :
    Json.keyed? (Json.memberTrees
      (m.members ++ [(signaturesKey, Manifest.signaturesJson signatures)])) =
      some (m.fields ++ [(signaturesKey, (Manifest.signaturesJson signatures).tree)]) := by
  rw [Json.keyed?_memberTrees, List.map_append]
  rfl

/-- The version of a signed document is that of its manifest, if it has at most 64 bits. -/
theorem checkVersion_document (h : ∀ s ∈ signatures, s.key = none) :
    checkVersion (m.document signatures) =
      if m.schemaVersion < 2 ^ 64 then
        if m.schemaVersion = Manifest.currentVersion then .ok ()
        else .error (.unsupportedSchemaVersion m.schemaVersion)
      else .error (.manifestInvalid notJson) := by
  have hrecord : Json.Tree.record? Json.depthLimit 1 (.object (Json.memberTrees
      (m.members ++ [(signaturesKey, Manifest.signaturesJson signatures)]))) = some (.named
        (m.fields ++ [(signaturesKey, (Manifest.signaturesJson signatures).tree)])) := by
    rw [Json.Tree.record?, if_pos (by decide), keyed?_document]
    rfl
  have hversion : Json.Record.nullable Json.natOfTree (Json.number (.whole m.schemaVersion)).tree =
      if m.schemaVersion < 2 ^ 64 then some (some m.schemaVersion) else none := by
    rw [Json.tree, Json.Record.nullable, Json.natOfTree_reread]
    · split <;> rfl
    · exact nofun
  have hread : Json.decode? versionOfTree (m.document signatures) =
      if m.schemaVersion < 2 ^ 64 then some (some m.schemaVersion) else none := by
    rw [Json.decode?, m.parse?_document (hasNaturals_signaturesJson h)]
    simp only [Option.bind_eq_bind, Option.bind_some, versionOfTree, hrecord]
    rw [← hversion]
    simp [Json.Record.absentByName, Json.Record.absent, Json.Record.defaulted, Json.Record.field?,
      Manifest.fields, Manifest.members, signaturesKey]
  rw [checkVersion, hread]
  by_cases hlt : m.schemaVersion < 2 ^ 64
  · simp only [hlt, if_true]
  · simp only [hlt, if_false]

/-- **A signed document reads as its manifest and its signatures.** -/
theorem decode_document (h : ∀ s ∈ signatures, s.key = none) (hversion : m.schemaVersion < 2 ^ 64) :
    Json.decode? decode (m.document signatures) = some (m, signatures) := by
  have hroom : 3 < Json.depthLimit - 2 := by decide
  have hothers : (m.fields ++ [(signaturesKey, (Manifest.signaturesJson signatures).tree)]).filter
      (fun field => field.1 != signaturesKey) = m.fields := by
    simp [Manifest.fields, Manifest.members, signaturesKey]
  have hsignatures : (Json.Record.named
      (m.fields ++ [(signaturesKey, (Manifest.signaturesJson signatures).tree)])).defaulted 0
      signaturesKey (Json.listOfTree Signature.decode (Json.depthLimit - 1)) [] =
      some signatures := by
    have hlist := Json.listOfTree_map signatures (show 1 < Json.depthLimit - 1 by decide)
      fun s hs => Signature.decode_tree (h s hs) hroom
    simp [Json.Record.defaulted, Json.Record.field?, Manifest.fields, Manifest.members,
      signaturesKey]
    exact hlist
  rw [Json.decode?, m.parse?_document (hasNaturals_signaturesJson h)]
  simp only [decode, Option.bind_eq_bind, Option.bind_some, keyed?_document, hothers, hsignatures,
    m.ofRecord?_fields (show 2 < Json.depthLimit - 1 by decide), if_pos hversion,
    m.isSound_fields (show 2 < Json.depthLimit - 1 by decide) hversion, if_true]

/-- **The signed text of a document is the text of the manifest.** -/
theorem payload_document (signatures : List Signature) {s : Signature} {time : Instant}
    {bytes : Bytes} (hlength : m.payload.length < 2 ^ 64)
    (hheader : s.header = (m.header time).encode)
    (hsignature : s.signature = Base64Url.encode bytes) :
    s.payload (m.document signatures) =
      if s.algorithm = "" then .error "missing alg"
      else if bytes = [] then .error "empty signature"
      else .ok m.payload := by
  have hpayload := m.payload_eq
  have hbody : m.body.length < 2 ^ 64 := by
    rw [hpayload, List.length_append] at hlength
    omega
  obtain ⟨text, htext, hdecode⟩ := ProtectedHeader.decode_encode (h := m.header time) hbody
  have htail : Base64Url.decode (m.header time).formatTail = some Manifest.ending := by
    rw [Manifest.header, Manifest.headerFor, Base64Url.decode_encode, hpayload, List.drop_left]
  have hshort : ¬ (m.document signatures).length < (m.header time).formatLength := by
    rw [m.document_eq, List.length_append]
    show ¬ _ < m.body.length
    omega
  have htake : (m.document signatures).take (m.header time).formatLength = m.body := by
    rw [m.document_eq]
    exact List.take_left
  have hread : ∀ {t : String} {bytes : Bytes}, Base64Url.decode t = some bytes →
      Signature.bytesOf t = .ok bytes := fun h => by rw [Signature.bytesOf, h]
  have hbytes := hread (hsignature ▸ Base64Url.decode_encode bytes)
  have htext := hread (hheader ▸ htext)
  unfold Signature.payload
  split_ifs with halgorithm hempty
  · rfl
  · rw [hbytes, hempty]
    rfl
  · simp only [hbytes, hempty, htext, Except.bind, bind, hdecode, hread htail, hshort, htake,
      if_false]
    rw [hpayload]
    rfl

end SignedManifest

/-- What a manifest, the name of an algorithm and a signer's answer have to be for the signed
document to be accepted. -/
structure Manifest.Acceptable (m : Manifest) (algorithm : String) (answer : Bytes) : Prop where
  version : m.schemaVersion = 1
  layers : m.layers ≠ []
  history : m.history.length = m.layers.length
  algorithm : algorithm ≠ ""
  answer : answer ≠ []

namespace SignedManifest

variable {m : Manifest} {s : Signature} {time : Instant} {bytes : Bytes}

/-- A document with one signature is accepted as what was signed. -/
theorem parse_document_ok (h : m.Acceptable s.algorithm bytes) (hkey : s.key = none)
    (hlength : m.payload.length < 2 ^ 64) (hheader : s.header = (m.header time).encode)
    (hsignature : s.signature = Base64Url.encode bytes) :
    parse (m.document [s]) = .ok ⟨m, [s], m.payload, m.document [s]⟩ := by
  have hversion : m.schemaVersion < 2 ^ 64 := by
    rw [h.version]
    decide
  have hkeys : ∀ s' ∈ [s], s'.key = none := fun s' hs' => List.mem_singleton.1 hs' ▸ hkey
  have hcheck : checkVersion (m.document [s]) = .ok () := by
    rw [checkVersion_document hkeys, if_pos hversion]
    exact if_pos h.version
  have hbody : bodyFault? m = none := by
    rw [bodyFault?, if_neg h.layers, if_neg (Decidable.not_not.2 h.history)]
  have hsigned : signedText (m.document [s]) [s] = .ok m.payload := by
    have hpayload := payload_document [s] hlength hheader hsignature
    rw [if_neg h.algorithm, if_neg h.answer] at hpayload
    simp only [signedText, payloadOf, hpayload, agree]
  have hread : checkPayload m m.payload = .ok () := by
    rw [checkPayload, Manifest.payload, Json.decode?_pretty _ m.hasNaturals_toJson,
      m.decode_tree (by decide), if_pos hversion]
    exact if_pos rfl
  simp only [parse, hcheck, decode_document hkeys hversion, hbody, hsigned, hread, bind,
    Except.bind, pure, Except.pure]

/-- A document with one signature that should not be accepted is refused. -/
theorem parse_document_error (h : ¬ m.Acceptable s.algorithm bytes) (hkey : s.key = none)
    (hlength : m.payload.length < 2 ^ 64) (hheader : s.header = (m.header time).encode)
    (hsignature : s.signature = Base64Url.encode bytes) :
    ∃ e, parse (m.document [s]) = .error e := by
  have hkeys : ∀ s' ∈ [s], s'.key = none := fun s' hs' => List.mem_singleton.1 hs' ▸ hkey
  by_cases hversion : m.schemaVersion = 1
  · have hlt : m.schemaVersion < 2 ^ 64 := by
      rw [hversion]
      decide
    have hcheck : checkVersion (m.document [s]) = .ok () := by
      rw [checkVersion_document hkeys, if_pos hlt]
      exact if_pos hversion
    cases hbody : bodyFault? m with
    | some e =>
      refine ⟨e, ?_⟩
      simp only [parse, hcheck, decode_document hkeys hlt, hbody, bind, Except.bind]
      rfl
    | none =>
      have hsigned : ∃ e, signedText (m.document [s]) [s] = .error e := by
        have hpayload := payload_document [s] hlength hheader hsignature
        split_ifs at hpayload with halgorithm hanswer
        · exact ⟨badSignature 0 "missing alg", by simp only [signedText, payloadOf, hpayload]⟩
        · exact ⟨badSignature 0 "empty signature", by simp only [signedText, payloadOf, hpayload]⟩
        · unfold bodyFault? at hbody
          split_ifs at hbody with hlayers hhistory
          exact absurd ⟨hversion, hlayers, Decidable.not_not.1 hhistory, halgorithm, hanswer⟩ h
      obtain ⟨e, he⟩ := hsigned
      refine ⟨e, ?_⟩
      simp only [parse, hcheck, decode_document hkeys hlt, hbody, he, bind, Except.bind]
  · have hcheck : ∃ e, checkVersion (m.document [s]) = .error e := by
      rw [checkVersion_document hkeys]
      split_ifs with hlt hcurrent
      · exact absurd hcurrent hversion
      · exact ⟨_, rfl⟩
      · exact ⟨_, rfl⟩
    obtain ⟨e, he⟩ := hcheck
    exact ⟨e, by simp only [parse, he, bind, Except.bind]⟩

/-- A manifest of one layer, whose content is the byte 1. -/
def oneLayer : Manifest :=
  Manifest.ofLayers "team/one" "v1" [Digest.sha256 [1]]

/-- The manifest of one layer, signed. -/
def sample : SignedManifest where
  manifest := oneLayer
  signatures := [oneLayer.signatureBy "ES256" ⟨0, 0, 0⟩ fun _ => [1]]
  payload := oneLayer.payload
  raw := oneLayer.document [oneLayer.signatureBy "ES256" ⟨0, 0, 0⟩ fun _ => [1]]

theorem length_payload_oneLayer : oneLayer.payload.length < 2 ^ 64 := by
  rw [Manifest.payload, Json.pretty, Bytes.ofText_ofList]
  decide +kernel

theorem parse_sample : parse sample.raw = .ok sample :=
  parse_document_ok ⟨rfl, by decide, rfl, by decide, by decide⟩ rfl length_payload_oneLayer rfl rfl

/-- **Signing and parsing are inverse.** Signing always gives a document, and the signer is
handed a text that does not depend on it. If the manifest, the algorithm and the signer's answer
are acceptable, the document reads as that manifest, with the signed text, and with one
signature, which names the algorithm, holds the answer, and whose header together with the
signed text is what the signer was handed; if not, the document is refused. The bound says that
the text fits into memory. -/
theorem parse_sign (m : Manifest) (algorithm : String) (time : Instant)
    (hlength : m.payload.length < 2 ^ 64) :
    ∃ header, ∀ signer : Bytes → Bytes, ∃ raw, m.sign algorithm time signer = .ok raw ∧
      (m.Acceptable algorithm (signer (Manifest.signingInput header m.payload)) →
        ∃ signed s, parse raw = .ok signed ∧ signed.manifest = m ∧ signed.raw = raw ∧
          signed.payload = Bytes.ofText m.toJson.pretty ∧ signed.signatures = [s] ∧
          s.algorithm = algorithm ∧ s.header = header ∧
          Base64Url.decode s.signature = some (signer
            (Bytes.ofText (s.header ++ "." ++ Base64Url.encode signed.payload)))) ∧
      (¬ m.Acceptable algorithm (signer (Manifest.signingInput header m.payload)) →
        ∃ e, parse raw = .error e) := by
  refine ⟨(m.header time).encode, fun signer => ⟨_, m.sign_eq algorithm time signer, ?_, ?_⟩⟩
  · intro h
    have hparse :=
      parse_document_ok (s := m.signatureBy algorithm time signer) h rfl hlength rfl rfl
    have htext : m.payload = Bytes.ofText m.toJson.pretty := by rw [Manifest.payload]
    refine ⟨_, m.signatureBy algorithm time signer, hparse, ?_⟩
    dsimp only
    refine ⟨rfl, rfl, htext, rfl, rfl, rfl, ?_⟩
    exact Base64Url.decode_encode _
  · exact fun h =>
      parse_document_error (s := m.signatureBy algorithm time signer) h rfl hlength rfl rfl

/-- A manifest of one layer, whose texts hold what JSON has to escape. -/
def awkward : Manifest :=
  ⟨1, "team/\"one\"", "v\\1\n\x7d", "\u00e9\t", [⟨.sha256,
    "e3b0c44298fc1c149afbf4c8996fb92427ae41e4649b934ca495991b7852b855", by decide +kernel⟩], ["\x01\x7b\x7d"]⟩

theorem parse_sign_awkward : awkward.payload.length < 2 ^ 64 ∧ ∃ raw signed,
    awkward.sign "ES256" ⟨0, 0, 0⟩ (fun _ => [1]) = .ok raw ∧
      parse raw = .ok signed ∧ signed.manifest = awkward := by
  have hlength : awkward.payload.length < 2 ^ 64 := by decide +kernel
  refine ⟨hlength, ?_⟩
  obtain ⟨header, h⟩ := parse_sign awkward "ES256" ⟨0, 0, 0⟩ hlength
  obtain ⟨raw, hsign, hok, -⟩ := h fun _ => [1]
  obtain ⟨signed, -, hparse, hmanifest, -⟩ := hok ⟨rfl, by decide, rfl, by decide, by decide⟩
  exact ⟨raw, signed, hsign, hparse, hmanifest⟩

end SignedManifest

end ContainerRegistry
