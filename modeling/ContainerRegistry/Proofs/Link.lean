/-
# Links are written after what they point at

Mounting a layer, putting a blob and putting a manifest change a store by edits
alone, however their storage calls fail: each of them writes a link only after
it has seen what the link will point at. A manifest is put in by up to three
edits, the blob, the revision link and the tag's link, in that order.

Key definitions: `Repository.Serves`.
Key theorems: `Registry.ensures_blobExists`, `Registry.ensures_blobStat`,
`Registry.putBlob_edits`, `Repository.mount_edits`, `Repository.serves_of_link`,
`Repository.putManifest_edits`.
-/
import ContainerRegistry.Proofs.Edit
import ContainerRegistry.Proofs.Reads

namespace ContainerRegistry

open ContainerRegistry.Action

variable {d : Unreliable} {l : Layout} {i : Intent} {t : MemoryStore}

namespace Registry

/-- The file of a blob is found, or not found because it is not there or by a fault. -/
theorem ensures_blobExists (ht : t.LaidOut l) {digest : Digest}
    {post : Except RegistryError Bool → MemoryStore → Prop}
    (stored : ∀ content, t.file? (l.path (.blobData digest)) = some content → post (.ok true) t)
    (absent : t.file? (l.path (.blobData digest)) = none ∨ d.fails → post (.ok false) t)
    (fault : d.fails → ∀ e, post (.error e) t) :
    ((d.registry l).blobExists digest).Ensures d.view t post := by
  refine Ensures.bind (ensures_found (Unreliable.stat_path (r := .blobData digest) ht
    rfl ?found ?missing ?fault))
  case found =>
    intro content hfile
    exact Ensures.pure (stored content hfile)
  case missing =>
    intro hfile e he
    rw [foundAnswer, if_pos he]
    exact Ensures.pure (absent (Or.inl hfile))
  case fault =>
    intro hfails e
    rw [foundAnswer]
    split
    · exact Ensures.pure (absent (Or.inr hfails))
    · exact fault hfails _

theorem ensures_blobStat (ht : t.LaidOut l) {digest : Digest}
    {post : Except RegistryError Descriptor → MemoryStore → Prop}
    (stored : ∀ content, t.file? (l.path (.blobData digest)) = some content →
      post (.ok ⟨digest, content.length⟩) t)
    (failed : t.file? (l.path (.blobData digest)) = none ∨ d.fails → ∀ e, post (.error e) t) :
    ((d.registry l).blobStat digest).Ensures d.view t post := by
  refine Ensures.bind (ensures_orUnknown (Unreliable.stat_path (r := .blobData digest) ht
    rfl ?found ?missing ?fault))
  case found =>
    intro content hfile
    exact Ensures.pure (stored content hfile)
  case missing =>
    intro hfile e _
    exact failed (Or.inl hfile) _
  case fault =>
    intro hfails e
    exact failed (Or.inr hfails) _

/-- Content that is put in is a blob afterwards, or the call fails. -/
theorem putBlob_edits (ht : t.LaidOut l) {content : Bytes} (hoffered : i.offers content) :
    ((d.registry l).putBlob content).Ensures d.view t fun x t' => Edits l i t t' ∧
      ∀ descriptor, x = .ok descriptor → descriptor.digest = Digest.sha256 content ∧
        ∃ bytes, t'.file? (l.path (.blobData (Digest.sha256 content))) = some bytes := by
  -- the blob is described last, in whatever store there is by then
  have hstat : ∀ t', t'.LaidOut l → Edits l i t t' →
      ((d.registry l).blobStat (Digest.sha256 content)).Ensures d.view t' fun x t' =>
        Edits l i t t' ∧ ∀ descriptor, x = .ok descriptor →
          descriptor.digest = Digest.sha256 content ∧
            ∃ bytes, t'.file? (l.path (.blobData (Digest.sha256 content))) = some bytes := by
    intro t' ht' hedits
    refine ensures_blobStat ht' ?stored ?failed
    case stored =>
      intro bytes hfile
      refine ⟨hedits, fun descriptor h => ?_⟩
      cases h
      exact ⟨rfl, bytes, hfile⟩
    case failed =>
      intro _ e
      exact ⟨hedits, fun _ h => by cases h⟩
  refine Ensures.bind (ensures_blobExists ht ?stored ?absent ?fault)
  case stored =>
    intro bytes _
    exact hstat t ht .refl
  case absent =>
    intro _
    have hput : Edit l i t (t.put (l.path (.blobData (Digest.sha256 content))) content) :=
      Edit.put ht rfl (.blob rfl hoffered)
    refine Ensures.bind (ensures_stored (Unreliable.putContent_path ?_ ?_))
    · exact hstat _ hput.laidOut (.single hput)
    · intro _ e
      exact ⟨.refl, fun _ h => by cases h⟩
  case fault =>
    intro _ e
    exact ⟨.refl, fun _ h => by cases h⟩

theorem writeLink_edits (ht : t.LaidOut l) {f : Resource} (hf : f.isFile = true) {digest : Digest}
    (h : Puts l i t f (Bytes.ofText digest.toText)) :
    ((d.registry l).writeLink (l.path f) digest).Ensures d.view t fun x t' =>
      Edits l i t t' ∧ (x = .ok () → ∃ link, t'.file? (l.path f) = some link) := by
  refine ensures_stored (Unreliable.putContent_path ?_ ?_)
  · refine ⟨.single (Edit.put ht hf h), fun _ => ?_⟩
    rw [MemoryStore.file?_put_path hf, if_pos rfl]
    exact ⟨_, rfl⟩
  · intro _ e
    exact ⟨.refl, fun h => by cases h⟩

end Registry

/-- A parsed manifest keeps the document that it was parsed from. -/
theorem SignedManifest.raw_of_parse {document : Bytes} {m : SignedManifest}
    (h : SignedManifest.parse document = .ok m) : m.raw = document := by
  simp only [SignedManifest.parse, bind, Except.bind, pure, Except.pure] at h
  repeat' split at h
  all_goals cases h
  all_goals rfl

namespace Repository

variable {n : RepositoryName}

/-- A link that is written holds the path of its blob. -/
theorem ensures_linkLayer {digest : Digest} {post : Except RegistryError Unit → MemoryStore → Prop}
    (linked : post (.ok ()) (t.put (l.path (.layerLink n digest))
      (Bytes.ofText (l.path (.blobData digest)).text)))
    (fault : d.fails → ∀ e, post (.error e) t) :
    ((d.repository l n).linkLayer digest (l.path (.blobData digest))).Ensures d.view t post :=
  ensures_stored (Unreliable.putContent_path linked fun hfails _ => fault hfails _)

theorem mount_edits (ht : t.LaidOut l) (digest : Digest) :
    ((d.repository l n).mount digest).Ensures d.view t fun _ t' => Edits l i t t' := by
  refine Ensures.bind (Registry.ensures_blobStat ht ?stored ?failed)
  case stored =>
    intro content hfile
    refine Ensures.bind (ensures_linkLayer ?_ ?_)
    · exact Ensures.pure (.single (Edit.put ht rfl (.layer hfile)))
    · exact fun _ _ => .refl
  case failed =>
    exact fun _ _ => .refl

/-- A layer that can be described is linked. -/
theorem layerStat_linked (digest : Digest) :
    ((d.repository l n).layerStat digest).Ensures d.view t fun x t' =>
      t' = t ∧ ∀ descriptor, x = .ok descriptor →
        ∃ link, t.file? (l.path (.layerLink n digest)) = some link := by
  refine Ensures.bind (Ensures.bind (ensures_orUnknown (Unreliable.getContent_path
    ?found ?missing ?fault)))
  case found =>
    intro link hlink
    refine Ensures.ofExcept ?_
    cases pathOfLink ((d.repository l n).layerPath digest) link with
    | error e => exact ⟨rfl, fun _ h => by cases h⟩
    | ok target =>
      have hreads := Reads.mapError (f := (d.repository l n).asLayer digest)
        (Registry.reads_blobStatAt (d := d) (l := l) digest target)
      exact (hreads t).mono fun _ _ ht' => ⟨ht', fun _ _ => ⟨link, hlink⟩⟩
  case missing =>
    exact fun _ _ _ => ⟨rfl, fun _ h => by cases h⟩
  case fault =>
    exact fun _ _ => ⟨rfl, fun _ h => by cases h⟩

/-- Layers that are all known are all linked. -/
theorem requireLayers_linked (layers : List Digest) :
    ((d.repository l n).requireLayers layers).Ensures d.view t fun x t' =>
      t' = t ∧ (x = .ok () → ∀ digest ∈ layers,
        ∃ link, t.file? (l.path (.layerLink n digest)) = some link) := by
  induction layers with
  | nil => exact Ensures.pure ⟨rfl, fun _ _ h => by cases h⟩
  | cons digest rest ih =>
    refine Ensures.bind ((layerStat_linked digest).mono ?_)
    rintro x t' ⟨rfl, hlinked⟩
    cases x with
    | error e => exact ⟨rfl, fun h => by cases h⟩
    | ok descriptor =>
      refine ih.mono ?_
      rintro x t' ⟨rfl, hrest⟩
      refine ⟨rfl, fun hx layer hlayer => ?_⟩
      rcases List.mem_cons.1 hlayer with rfl | hlayer
      · exact hlinked descriptor rfl
      · exact hrest hx layer hlayer

/-! ### Reading a linked layer -/

/-- A link that holds the path of a blob is read back. -/
theorem pathOfLink_ofText (p : Path) (digest : Digest) :
    pathOfLink p (Bytes.ofText (l.path (.blobData digest)).text) =
      .ok (l.path (.blobData digest)) := by
  have hne : (l.path (.blobData digest)).text ≠ "" := by
    intro hempty
    have hcomponents := l.components_path (.blobData digest)
    rw [Path.components, hempty] at hcomponents
    simp [Path.ofParts, Path.firstComponent, Path.laterComponent, Resource.place, Resource.owner?,
      Resource.entry] at hcomponents
  rw [pathOfLink, Bytes.text?_ofText]
  exact if_neg hne

/-- A linked layer is opened from any offset within it. -/
theorem ensures_layerOpen (hfails : ¬ d.fails) (ht : t.LaidOut l) {digest : Digest}
    (hlink : t.file? (l.path (.layerLink n digest)) =
      some (Bytes.ofText (l.path (.blobData digest)).text))
    {content : Bytes} (hblob : t.file? (l.path (.blobData digest)) = some content) {offset : Nat}
    (hoffset : offset ≤ content.length) :
    ((d.repository l n).layerOpen digest offset).Ensures d.view t fun x t' => t' = t ∧
      ∃ stream, x = .ok ⟨⟨digest, content.length⟩, offset, some stream⟩ ∧ d.sound stream ∧
        d.rest stream = content.drop offset := by
  refine Ensures.bind (Ensures.bind (ensures_orUnknown (Unreliable.getContent_path
    ?resolved ?unlinked fun hfault => absurd hfault hfails)))
  case unlinked =>
    intro hmissing
    cases hmissing.symm.trans hlink
  case resolved =>
    intro link hlink'
    obtain rfl := Option.some.inj (hlink'.symm.trans hlink)
    refine Ensures.ofExcept ?_
    rw [pathOfLink_ofText]
    refine Ensures.mapError (Ensures.bind (Ensures.bind (ensures_orUnknown (Unreliable.stat_path
      (r := .blobData digest) ht rfl ?found ?absent fun hfault => absurd hfault hfails))))
    case absent =>
      intro hmissing
      cases hmissing.symm.trans hblob
    case found =>
      intro content' hcontent'
      obtain rfl := Option.some.inj (hcontent'.symm.trans hblob)
      refine Ensures.pure ?_
      simp only [Then, if_neg (Nat.not_lt.2 hoffset)]
      refine Ensures.bind (ensures_orUnknown (Unreliable.readStream_path
        ?opened ?beyond ?gone fun hfault => absurd hfault hfails))
      case beyond =>
        intro bytes hbytes hlong
        obtain rfl := Option.some.inj (hbytes.symm.trans hblob)
        exact absurd hlong (Nat.not_lt.2 hoffset)
      case gone =>
        intro hmissing
        cases hmissing.symm.trans hblob
      case opened =>
        intro bytes stream hbytes _ hsound hrest
        obtain rfl := Option.some.inj (hbytes.symm.trans hblob)
        exact Ensures.pure ⟨rfl, stream, rfl, hsound, hrest⟩

/-- What a layer holds from an offset on can be read to its end, on any driver that
does not fail and in any state that shows the store. -/
def Serves (l : Layout) (t : MemoryStore) (n : RepositoryName) (digest : Digest) (offset : Nat)
    (bytes : Bytes) : Prop :=
  ∀ (d : Unreliable) (s : d.State), ¬ d.fails → d.view.admits s → d.view.look s = t →
    ∃ reader, (((d.repository l n).layerOpen digest offset).outcome s).1 = .ok reader ∧
      (reader.readToEnd d.driver (((d.repository l n).layerOpen digest offset).outcome s).2).1 =
        .ok bytes

/-- **A linked layer is served from any offset within it.** -/
theorem serves_of_link (ht : t.LaidOut l) {digest : Digest}
    (hlink : t.file? (l.path (.layerLink n digest)) =
      some (Bytes.ofText (l.path (.blobData digest)).text))
    {content : Bytes} (hblob : t.file? (l.path (.blobData digest)) = some content) {offset : Nat}
    (hoffset : offset ≤ content.length) : Serves l t n digest offset (content.drop offset) := by
  intro d s hfails hs hst
  obtain ⟨hs', -, stream, hopened, hsound, hrest⟩ :=
    ensures_layerOpen hfails ht hlink hblob hoffset s hs hst
  obtain ⟨-, hwhole, hreliable⟩ := d.pull stream none _ hsound hs'
  refine ⟨_, hopened, ?_⟩
  simp only [BlobReader.readToEnd, BlobReader.advance, hreliable hfails, hwhole (hreliable hfails),
    upTo, hrest]

theorem identityFault?_eq_none {n : Repository d.State d.Stream} {tag : Tag} {m : Manifest}
    (h : n.identityFault? tag m = none) : m.name = n.name.text ∧ m.tag = tag.text := by
  rw [identityFault?] at h
  by_cases hname : m.name = n.name.text
  · by_cases htag : m.tag = tag.text
    · exact ⟨hname, htag⟩
    · simp [hname, htag] at h
  · simp [hname] at h

/-- **A manifest is put in blob first, then revision, then tag**, as far as storage
lets it. -/
theorem putManifest_edits (ht : t.LaidOut l) (tag : String) {m : SignedManifest}
    (hparsed : SignedManifest.parse m.raw = .ok m) (hoffered : i.offers m.raw) :
    ((d.repository l n).putManifest tag m).Ensures d.view t fun _ t' => Edits l i t t' := by
  refine Ensures.bind (Ensures.ofExcept ?_)
  cases tagOf tag with
  | error e => exact .refl
  | ok tag =>
    simp only [Then]
    cases hidentity : (d.repository l n).identityFault? tag m.manifest with
    | some e => exact Ensures.throw .refl
    | none =>
      obtain ⟨hname, htag⟩ := identityFault?_eq_none hidentity
      refine Ensures.bind ((requireLayers_linked m.manifest.layers).mono ?_)
      rintro x t₁ ⟨rfl, hlayers⟩
      cases x with
      | error e => exact .refl
      | ok _ =>
        refine Ensures.bind ((Registry.putBlob_edits ht hoffered).mono ?_)
        rintro x t₂ ⟨hblob, hstored⟩
        cases x with
        | error e => exact hblob
        | ok descriptor =>
          obtain ⟨hdigest, bytes, hbytes⟩ := hstored descriptor rfl
          have ht₂ : t₂.LaidOut l := hblob.laidOut ht
          have hlinked : ∀ digest ∈ m.manifest.layers,
              ∃ link, t₂.file? (l.path (.layerLink n digest)) = some link := by
            intro digest hmem
            obtain ⟨link, hlink⟩ := hlayers rfl digest hmem
            exact hblob.exists_file rfl rfl hlink
          simp only [Then, hdigest]
          refine Ensures.bind ((Registry.writeLink_edits ht₂ rfl
            (.revision hoffered hparsed hname hlinked hbytes)).mono ?_)
          rintro x t₃ ⟨hrevision, hrevised⟩
          cases x with
          | error e => exact hblob.trans hrevision
          | ok _ =>
            obtain ⟨link, hlink⟩ := hrevised rfl
            refine Ensures.bind ((Registry.writeLink_edits (hrevision.laidOut ht₂) rfl
              (.current hoffered hparsed htag hlink)).mono ?_)
            rintro x t₄ ⟨hcurrent, -⟩
            cases x with
            | error e => exact (hblob.trans hrevision).trans hcurrent
            | ok _ => exact Ensures.pure ((hblob.trans hrevision).trans hcurrent)

end Repository

end ContainerRegistry
