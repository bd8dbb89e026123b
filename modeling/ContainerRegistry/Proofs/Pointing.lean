/-
# What is answered by following links

A link points at something that is stored: a layer link at its blob, a revision
link at the blob of its digest, a tag's link at a revision of the repository.
Edits keep this whatever the blobs hold (`LinksPoint`), so it needs no promise
about digests, and it decides what is answered over the driver in memory: a layer
is visible where it is linked, a tag resolves to what its link names, and the
manifest that a tag means is read out of the blob at the end of the way. What is
answered about a blob takes no link, and is the same of every store: it comes from
the file at the path of the blob alone (`MemoryStore.contentAt`).

Key definitions: `LinksPoint`, `MemoryStore.contentAt`, `BlobReader.openedOn`,
`Repository.IsVisible`.
Key theorems: `Reachable.linksPoint`, `digestOfLink_ofText`, `Registry.outcome_blobStatAt`,
`Registry.outcome_blobOpenAt`, `Repository.isVisible_iff`, `Repository.manifestByDigest_linked`,
`Repository.answers_of_linked`, `Repository.answers_of_unlinked`,
`Repository.answers_of_invalid`.
-/
import ContainerRegistry.Proofs.Reliable

namespace ContainerRegistry

open ContainerRegistry.Action

/-- Every link of a store points at something that is stored. -/
structure LinksPoint (l : Layout) (t : MemoryStore) : Prop where
  /-- A layer link holds the path of its blob. -/
  layer : ∀ n digest link, t.file? (l.path (.layerLink n digest)) = some link →
    link = Bytes.ofText (l.path (.blobData digest)).text ∧
      ∃ content, t.file? (l.path (.blobData digest)) = some content
  /-- A revision link holds its digest. -/
  revision : ∀ n digest link, t.file? (l.path (.revisionLink n digest)) = some link →
    link = Bytes.ofText digest.toText ∧
      ∃ content, t.file? (l.path (.blobData digest)) = some content
  /-- A tag's link holds the digest of a revision. -/
  current : ∀ n tag link, t.file? (l.path (.currentLink n tag)) = some link →
    ∃ digest, link = Bytes.ofText digest.toText ∧
      ∃ revision, t.file? (l.path (.revisionLink n digest)) = some revision

theorem linksPoint_empty {l : Layout} : LinksPoint l MemoryStore.empty where
  layer _ _ _ h := absurd h (MemoryStore.file?_empty_ne _ _)
  revision _ _ _ h := absurd h (MemoryStore.file?_empty_ne _ _)
  current _ _ _ h := absurd h (MemoryStore.file?_empty_ne _ _)

/-- An edit leaves a layer link pointing at its blob. -/
theorem Edit.layer_points {l : Layout} {i : Intent} {s s' : MemoryStore} (h : Edit l i s s')
    {n : RepositoryName} {digest : Digest}
    (hs : ∀ link, s.file? (l.path (.layerLink n digest)) = some link →
      link = Bytes.ofText (l.path (.blobData digest)).text ∧
        ∃ content, s.file? (l.path (.blobData digest)) = some content) {link : Bytes}
    (hlink : s'.file? (l.path (.layerLink n digest)) = some link) :
    link = Bytes.ofText (l.path (.blobData digest)).text ∧
      ∃ content, s'.file? (l.path (.blobData digest)) = some content := by
  rcases h.file? (.layerLink n digest) rfl with hsame | ⟨bytes, hput, hputs⟩ | ⟨hgone, -⟩
  · obtain ⟨hholds, content, hcontent⟩ := hs link (hsame ▸ hlink)
    exact ⟨hholds, h.exists_file rfl rfl hcontent⟩
  · obtain rfl : bytes = link := Option.some.inj (hput.symm.trans hlink)
    cases hputs with
    | layer stored => exact ⟨rfl, h.exists_file rfl rfl stored⟩
  · cases hgone.symm.trans hlink

/-- **An edit leaves every link pointing at something.** -/
theorem Edit.linksPoint {l : Layout} {i : Intent} {s s' : MemoryStore} (h : Edit l i s s')
    (hs : LinksPoint l s) : LinksPoint l s' := by
  constructor
  case layer =>
    intro n digest link hlink
    exact h.layer_points (hs.layer n digest) hlink
  case revision =>
    intro n digest link hlink
    rcases h.file? (.revisionLink n digest) rfl with hsame | ⟨bytes, hput, hputs⟩ | ⟨hgone, -⟩
    · obtain ⟨hholds, content, hcontent⟩ := hs.revision n digest link (hsame ▸ hlink)
      exact ⟨hholds, h.exists_file rfl rfl hcontent⟩
    · obtain rfl : bytes = link := Option.some.inj (hput.symm.trans hlink)
      cases hputs with
      | revision _ _ _ _ stored => exact ⟨rfl, h.exists_file rfl rfl stored⟩
    · cases hgone.symm.trans hlink
  case current =>
    intro n tag link hlink
    rcases h.file? (.currentLink n tag) rfl with hsame | ⟨bytes, hput, hputs⟩ | ⟨hgone, -⟩
    · obtain ⟨digest, hholds, revision, hrevision⟩ := hs.current n tag link (hsame ▸ hlink)
      exact ⟨digest, hholds, h.exists_file rfl rfl hrevision⟩
    · obtain rfl : bytes = link := Option.some.inj (hput.symm.trans hlink)
      cases hputs with
      | current _ _ _ linked => exact ⟨_, rfl, h.exists_file rfl rfl linked⟩
    · cases hgone.symm.trans hlink

/-- In every reachable world every link points at something. -/
theorem Reachable.linksPoint {l : Layout} {w : World} (h : Reachable l w) :
    LinksPoint l w.store := by
  induction h with
  | empty => exact linksPoint_empty
  | @step w reached d s admitted stored op fresh ih =>
    have heffect := Session.act_effect reached.inv admitted stored fresh
    exact (heffect.edits reached.inv).preserve (LinksPoint l) (fun _ _ he => he.linksPoint) ih

/-! ### Following one link -/

/-- A link that holds the text of a digest is read back. -/
theorem digestOfLink_ofText (p : Path) (digest : Digest) :
    digestOfLink p (Bytes.ofText digest.toText) = .ok digest := by
  rw [digestOfLink, Bytes.text?_ofText]
  simp only [Blank.trim_eq_self digest.not_isBlank_of_mem_toText, Digest.parse_toText]

variable {l : Layout} {t : MemoryStore}

/-- What only asks leaves the store in memory as it is. -/
theorem Reads.outcome_snd {ε α : Type} {action : Action MemoryStore ε α}
    (h : Reads MemoryStore.reliable action) (t : MemoryStore) : (action.outcome t).2 = t :=
  (h t t trivial rfl).2

theorem Action.outcome_ofExcept {σ ε α : Type} (x : Except ε α) (s : σ) :
    (MonadExcept.ofExcept x : Action σ ε α).outcome s = (x, s) := by
  cases x <;> rfl

/-- The content of the file at a path, or the failure that says that it is not there. -/
def MemoryStore.contentAt (t : MemoryStore) (unknown : RegistryError) (p : Path) :
    Except RegistryError Bytes :=
  match t.file? p with
  | some content => .ok content
  | none => .error unknown

/-- The reader that is opened on content from an offset within it. -/
def BlobReader.openedOn (digest : Digest) (offset : Nat) (content : Bytes) :
    Except RegistryError (BlobReader Bytes) :=
  if content.length < offset then .error (.invalidOffset content.length offset)
  else .ok ⟨⟨digest, content.length⟩, offset, some (content.drop offset)⟩

namespace Registry

theorem outcome_readLink_none {p : Path} (h : t.file? p = none) :
    (l.inMemory.readLink p).outcome t = (.ok none, t) := by
  have hread := t.outcome_getContent p
  rw [h] at hread
  have hfound : (found (l.inMemory.storage.getContent p)).outcome t = (.ok none, t) :=
    outcome_found_missing rfl hread
  rw [readLink, outcome_bind, hfound]
  rfl

/-- A link is read as the digest that its content names. -/
theorem outcome_readLink_ok {p : Path} {link : Bytes} {digest : Digest}
    (h : t.file? p = some link) (hdigest : digestOfLink p link = .ok digest) :
    (l.inMemory.readLink p).outcome t = (.ok (some digest), t) := by
  have hread := t.outcome_getContent p
  rw [h] at hread
  have hfound : (found (l.inMemory.storage.getContent p)).outcome t = (.ok (some link), t) :=
    outcome_found_ok hread
  rw [readLink, outcome_bind, hfound]
  simp only [hdigest]
  rfl

theorem outcome_readLink_some {p : Path} {digest : Digest}
    (h : t.file? p = some (Bytes.ofText digest.toText)) :
    (l.inMemory.readLink p).outcome t = (.ok (some digest), t) :=
  outcome_readLink_ok h (digestOfLink_ofText p digest)

variable {digest : Digest} {content : Bytes}

/-- Where there is no file, be it that there is a directory, the blob is unknown. -/
theorem outcome_blobStatAt (digest : Digest) (p : Path) :
    (l.inMemory.blobStatAt digest p).outcome t =
      ((t.contentAt (.blobUnknown digest) p).map fun content => ⟨digest, content.length⟩, t) := by
  have hstat := t.outcome_stat p
  rw [blobStatAt, outcome_bind, MemoryStore.contentAt]
  cases hfile : t.file? p with
  | some content =>
    rw [hfile] at hstat
    have hknown : (orUnknown (.blobUnknown digest) (l.inMemory.storage.stat p)).outcome t =
        (.ok ⟨content.length, false⟩, t) := outcome_orUnknown_ok hstat
    rw [hknown]
    rfl
  | none =>
    rw [hfile] at hstat
    by_cases hoccupied : t.occupied p = true
    · simp only [if_pos hoccupied] at hstat
      have hdirectory : (orUnknown (.blobUnknown digest) (l.inMemory.storage.stat p)).outcome t =
          (.ok ⟨0, true⟩, t) := outcome_orUnknown_ok hstat
      rw [hdirectory]
      rfl
    · simp only [if_neg hoccupied] at hstat
      have hunknown : (orUnknown (.blobUnknown digest) (l.inMemory.storage.stat p)).outcome t =
          (.error (.blobUnknown digest), t) := outcome_orUnknown_missing rfl hstat
      rw [hunknown]
      rfl

theorem outcome_blobOpenAt (digest : Digest) (p : Path) (offset : Nat) :
    (l.inMemory.blobOpenAt digest p offset).outcome t =
      ((t.contentAt (.blobUnknown digest) p).bind (BlobReader.openedOn digest offset), t) := by
  have hread := t.outcome_readStream p offset
  rw [blobOpenAt, outcome_bind, outcome_blobStatAt, MemoryStore.contentAt]
  cases hfile : t.file? p with
  | none => rfl
  | some content =>
    rw [hfile] at hread
    show Action.outcome (if content.length < offset then _ else _) t =
      (BlobReader.openedOn digest offset content, t)
    rw [BlobReader.openedOn]
    by_cases hbeyond : content.length < offset
    · rw [if_pos hbeyond, if_pos hbeyond]
      rfl
    · simp only [if_neg hbeyond] at hread ⊢
      have hopen : (orUnknown (.blobUnknown digest)
          (l.inMemory.storage.readStream p offset)).outcome t =
            (.ok (content.drop offset), t) := outcome_orUnknown_ok hread
      rw [outcome_bind, hopen]
      rfl

/-- A blob is there if there is a file at its path; a directory does not count. -/
theorem outcome_blobExists (digest : Digest) :
    (l.inMemory.blobExists digest).outcome t =
      (.ok (t.file? (l.path (.blobData digest))).isSome, t) := by
  have hstat := t.outcome_stat (l.path (.blobData digest))
  rw [blobExists, outcome_bind]
  cases hfile : t.file? (l.path (.blobData digest)) with
  | some content =>
    rw [hfile] at hstat
    have hfound : (found (l.inMemory.storage.stat (l.inMemory.blobPath digest))).outcome t =
        (.ok (some ⟨content.length, false⟩), t) := outcome_found_ok hstat
    rw [hfound]
    rfl
  | none =>
    rw [hfile] at hstat
    by_cases hoccupied : t.occupied (l.path (.blobData digest)) = true
    · simp only [if_pos hoccupied] at hstat
      have hfound : (found (l.inMemory.storage.stat (l.inMemory.blobPath digest))).outcome t =
          (.ok (some ⟨0, true⟩), t) := outcome_found_ok hstat
      rw [hfound]
      rfl
    · simp only [if_neg hoccupied] at hstat
      have hfound : (found (l.inMemory.storage.stat (l.inMemory.blobPath digest))).outcome t =
          (.ok none, t) := outcome_found_missing rfl hstat
      rw [hfound]
      rfl

theorem outcome_blobStat (digest : Digest) : (l.inMemory.blobStat digest).outcome t =
    ((t.contentAt (.blobUnknown digest) (l.path (.blobData digest))).map
      fun content => ⟨digest, content.length⟩, t) :=
  outcome_blobStatAt digest (l.path (.blobData digest))

theorem outcome_blobOpen (digest : Digest) (offset : Nat) :
    (l.inMemory.blobOpen digest offset).outcome t =
      ((t.contentAt (.blobUnknown digest) (l.path (.blobData digest))).bind
        (BlobReader.openedOn digest offset), t) :=
  outcome_blobOpenAt digest (l.path (.blobData digest)) offset

/-- A stored blob is described. -/
theorem outcome_blobStat_stored (hblob : t.file? (l.path (.blobData digest)) = some content) :
    (l.inMemory.blobStat digest).outcome t = (.ok ⟨digest, content.length⟩, t) := by
  rw [outcome_blobStat, MemoryStore.contentAt, hblob]
  rfl

/-- A blob that is not stored is unknown. -/
theorem outcome_blobStat_missing (hblob : t.file? (l.path (.blobData digest)) = none) :
    (l.inMemory.blobStat digest).outcome t = (.error (.blobUnknown digest), t) := by
  rw [outcome_blobStat, MemoryStore.contentAt, hblob]
  rfl

/-- A stored blob is opened from any offset within it. -/
theorem outcome_blobOpen_stored (hblob : t.file? (l.path (.blobData digest)) = some content)
    (offset : Nat) : (l.inMemory.blobOpen digest offset).outcome t =
      if content.length < offset then (.error (.invalidOffset content.length offset), t)
      else (.ok ⟨⟨digest, content.length⟩, offset, some (content.drop offset)⟩, t) := by
  rw [outcome_blobOpen, MemoryStore.contentAt, hblob]
  show (BlobReader.openedOn digest offset content, t) = _
  rw [BlobReader.openedOn]
  split <;> rfl

theorem outcome_blobOpen_missing (hblob : t.file? (l.path (.blobData digest)) = none)
    (offset : Nat) :
    (l.inMemory.blobOpen digest offset).outcome t = (.error (.blobUnknown digest), t) := by
  rw [outcome_blobOpen, MemoryStore.contentAt, hblob]
  rfl

theorem outcome_blobContent
    (h : t.file? (l.path (.blobData digest)) = some content) :
    (l.inMemory.blobContent digest).outcome t = (.ok content, t) := by
  show ((MemoryStore.getContent (l.path (.blobData digest))).mapError _).outcome t = _
  rw [outcome_mapError, MemoryStore.outcome_getContent, h]
  rfl

end Registry

namespace Repository

variable {n : RepositoryName}

/-! ### Layers -/

/-- A repository says that it has a layer. -/
def IsVisible (l : Layout) (t : MemoryStore) (n : RepositoryName) (digest : Digest) : Prop :=
  ((layerExists ⟨l.inMemory, n⟩ digest).outcome t).1 = .ok true

/-- A layer is visible when it can be described. -/
theorem isVisible_iff_layerStat (digest : Digest) : IsVisible l t n digest ↔
    ∃ descriptor, ((layerStat ⟨l.inMemory, n⟩ digest).outcome t).1 = .ok descriptor := by
  have hattempt : ((layerStat ⟨l.inMemory, n⟩ digest).attempt :
      RegistryAction MemoryStore _).outcome t =
        (.ok ((layerStat ⟨l.inMemory, n⟩ digest).outcome t).1,
          ((layerStat ⟨l.inMemory, n⟩ digest).outcome t).2) := rfl
  unfold IsVisible
  rw [layerExists, outcome_bind, hattempt]
  cases hstat : ((layerStat ⟨l.inMemory, n⟩ digest).outcome t).1 with
  | ok descriptor => simp [outcome_pure]
  | error e =>
    simp only
    split
    · simp [outcome_pure]
    · simp [outcome_throw]

/-- **A layer is visible where it is linked.** -/
theorem isVisible_iff (ht : t.LaidOut l) (hlinks : LinksPoint l t) {digest : Digest} :
    IsVisible l t n digest ↔ ∃ link, t.file? (l.path (.layerLink n digest)) = some link := by
  rw [isVisible_iff_layerStat]
  constructor
  · rintro ⟨descriptor, hstat⟩
    obtain ⟨-, hlinked⟩ := (layerStat_linked (d := MemoryStore.reliable) (l := l) (n := n)
      (t := t) digest t trivial rfl).2
    exact hlinked descriptor hstat
  · rintro ⟨link, hlink⟩
    obtain ⟨rfl, content, hblob⟩ := hlinks.layer n digest link hlink
    have h : (layerStat ⟨l.inMemory, n⟩ digest).Ensures MemoryStore.whole t fun x _ =>
        ∃ descriptor, x = .ok descriptor := by
      refine Ensures.bind (Ensures.bind (ensures_orUnknown (Unreliable.getContent_path
        (d := MemoryStore.reliable) ?linked ?unlinked fun hfault => hfault.elim)))
      case unlinked =>
        intro hmissing
        cases hmissing.symm.trans hlink
      case linked =>
        intro link' hlink'
        obtain rfl := Option.some.inj (hlink'.symm.trans hlink)
        refine Ensures.ofExcept ?_
        rw [pathOfLink_ofText]
        refine Ensures.mapError (Ensures.bind (ensures_orUnknown (Unreliable.stat_path
          (d := MemoryStore.reliable) (r := .blobData digest) ht rfl ?found ?absent
          fun hfault => hfault.elim)))
        case found =>
          exact fun _ _ => Ensures.pure ⟨_, rfl⟩
        case absent =>
          intro hmissing
          cases hmissing.symm.trans hblob
    exact (h t trivial rfl).2

/-! ### Manifests -/

theorem manifestByDigest_unlinked {digest : Digest}
    (h : t.file? (l.path (.revisionLink n digest)) = none) :
    (manifestByDigest ⟨l.inMemory, n⟩ digest).outcome t =
      (.error (.manifestUnknown n digest.toText), t) := by
  have hlink : (l.inMemory.readLink (revisionPath ⟨l.inMemory, n⟩ digest)).outcome t =
      (.ok none, t) := Registry.outcome_readLink_none h
  rw [manifestByDigest, outcome_bind, hlink]
  rfl

/-- A revision is read out of its blob. -/
theorem manifestByDigest_linked (hlinks : LinksPoint l t) {digest : Digest} {link content : Bytes}
    (h : t.file? (l.path (.revisionLink n digest)) = some link)
    (hblob : t.file? (l.path (.blobData digest)) = some content) :
    (manifestByDigest ⟨l.inMemory, n⟩ digest).outcome t = (SignedManifest.parse content, t) := by
  obtain ⟨rfl, -⟩ := hlinks.revision n digest link h
  have hlink : (l.inMemory.readLink (revisionPath ⟨l.inMemory, n⟩ digest)).outcome t =
      (.ok (some digest), t) := Registry.outcome_readLink_some h
  have hcontent : ((l.inMemory.blobContent digest).mapError
      (asManifest ⟨l.inMemory, n⟩ digest.toText)).outcome t = (.ok content, t) := by
    rw [outcome_mapError, Registry.outcome_blobContent hblob]
    rfl
  rw [manifestByDigest, outcome_bind, hlink]
  simp only
  rw [outcome_bind, hcontent]
  exact outcome_ofExcept _ t

/-- A tag means what its link is read as. -/
theorem outcome_resolveTag {tag : Tag} {target : Option Digest}
    (h : (l.inMemory.readLink (currentPath ⟨l.inMemory, n⟩ tag)).outcome t = (.ok target, t)) :
    (resolveTag ⟨l.inMemory, n⟩ tag.text).outcome t =
      (target.elim (.error (.manifestUnknown n tag.text)) .ok, t) := by
  rw [resolveTag, tagOf, Tag.parse_text]
  show (l.inMemory.readLink (currentPath ⟨l.inMemory, n⟩ tag) >>= _).outcome t = _
  rw [outcome_bind, h]
  cases target <;> rfl

/-- A text that is no tag is answered with what is wrong with it. -/
theorem answers_of_invalid {text : String} {e : TagError} (h : Tag.parse text = .error e) :
    (resolveTag ⟨l.inMemory, n⟩ text).outcome t = (.error (.invalidTag e), t) ∧
      (manifest ⟨l.inMemory, n⟩ text).outcome t = (.error (.invalidTag e), t) ∧
      (manifestExists ⟨l.inMemory, n⟩ text).outcome t = (.error (.invalidTag e), t) := by
  have hresolve : (resolveTag ⟨l.inMemory, n⟩ text).outcome t = (.error (.invalidTag e), t) := by
    rw [resolveTag, tagOf, h]
    rfl
  refine ⟨hresolve, ?_, ?_⟩
  · rw [manifest, outcome_bind, hresolve]
  · rw [manifestExists, outcome_bind, outcome_attempt, hresolve]
    rfl

/-- A tag without a link means no manifest. -/
theorem answers_of_unlinked {tag : Tag} (h : t.file? (l.path (.currentLink n tag)) = none) :
    (resolveTag ⟨l.inMemory, n⟩ tag.text).outcome t = (.error (.manifestUnknown n tag.text), t) ∧
      (manifest ⟨l.inMemory, n⟩ tag.text).outcome t =
        (.error (.manifestUnknown n tag.text), t) ∧
      (manifestExists ⟨l.inMemory, n⟩ tag.text).outcome t = (.ok false, t) := by
  have hlink : (l.inMemory.readLink (currentPath ⟨l.inMemory, n⟩ tag)).outcome t =
      (.ok none, t) := Registry.outcome_readLink_none h
  have hresolve : (resolveTag ⟨l.inMemory, n⟩ tag.text).outcome t =
      (.error (.manifestUnknown n tag.text), t) := outcome_resolveTag hlink
  refine ⟨hresolve, ?_, ?_⟩
  · rw [manifest, outcome_bind, hresolve]
  · rw [manifestExists, outcome_bind, outcome_attempt, hresolve]
    rfl

/-- **A tag with a link means the manifest in the blob that its link names.** -/
theorem answers_of_linked (hlinks : LinksPoint l t) {tag : Tag} {digest : Digest} {content : Bytes}
    (h : t.file? (l.path (.currentLink n tag)) = some (Bytes.ofText digest.toText))
    (hblob : t.file? (l.path (.blobData digest)) = some content) :
    (resolveTag ⟨l.inMemory, n⟩ tag.text).outcome t = (.ok digest, t) ∧
      (manifest ⟨l.inMemory, n⟩ tag.text).outcome t =
        ((SignedManifest.parse content).mapError (asReference ⟨l.inMemory, n⟩ tag.text), t) ∧
      (manifestExists ⟨l.inMemory, n⟩ tag.text).outcome t = (.ok true, t) := by
  obtain ⟨digest', hsame, revision, hrevision⟩ := hlinks.current n tag _ h
  obtain rfl : digest = digest' := by
    have hread := congrArg (digestOfLink (l.path (.currentLink n tag))) hsame
    rw [digestOfLink_ofText, digestOfLink_ofText] at hread
    exact Except.ok.inj hread
  have hlink : (l.inMemory.readLink (currentPath ⟨l.inMemory, n⟩ tag)).outcome t =
      (.ok (some digest), t) := Registry.outcome_readLink_some h
  have hresolve : (resolveTag ⟨l.inMemory, n⟩ tag.text).outcome t = (.ok digest, t) :=
    outcome_resolveTag hlink
  refine ⟨hresolve, ?_, ?_⟩
  · rw [manifest, outcome_bind, hresolve]
    simp only
    rw [outcome_mapError, manifestByDigest_linked hlinks hrevision hblob]
  · obtain ⟨rfl, -⟩ := hlinks.revision n digest revision hrevision
    have hrevised : (l.inMemory.readLink (revisionPath ⟨l.inMemory, n⟩ digest)).outcome t =
        (.ok (some digest), t) := Registry.outcome_readLink_some hrevision
    rw [manifestExists, outcome_bind, outcome_attempt, hresolve]
    simp only
    rw [outcome_bind, hrevised]
    simp only
    rw [Registry.outcome_blobExists, hblob]
    rfl

end Repository
end ContainerRegistry
