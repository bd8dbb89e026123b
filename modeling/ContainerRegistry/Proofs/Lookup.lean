/-
# Whether content is there, what it is, and the content itself

Content is asked for in three ways: whether it is there, how it is described, and by
fetching it. Each takes a way of its own: a layer is looked for behind its link, the
file there is described before it is opened, what was not found gets another name on
the way, and only the first turns a failure into an answer. All the same the three come
to one lookup, of the file behind the link or at the path of the blob
(`ContentCalls.Follows`), whatever the store holds: links may be no text, empty, or name
a directory or nothing at all. From that it follows that they never contradict each
other (`ContentCalls.Agree`).

Key definitions: `Repository.layerContent`, `ContentCalls`, `ContentCalls.Follows`,
`ContentCalls.Agree`.
Key theorems: `ContentCalls.follows_blob`, `ContentCalls.follows_layer`,
`ContentCalls.Follows.agree`, `ContentCalls.blobs_and_layers_agree`.
-/
import ContainerRegistry.Proofs.Pointing

namespace ContainerRegistry

open ContainerRegistry.Action

variable {l : Layout} {t : MemoryStore} {n : RepositoryName} {digest : Digest}

namespace Repository

/-- The content behind the link of a layer, or what stands in the way. -/
def layerContent (l : Layout) (t : MemoryStore) (n : RepositoryName) (digest : Digest) :
    Except RegistryError Bytes :=
  ((t.contentAt (.layerUnknown n digest) (l.path (.layerLink n digest))).bind
    (pathOfLink (l.path (.layerLink n digest)))).bind (t.contentAt (.layerUnknown n digest))

theorem outcome_resolveLayer (digest : Digest) :
    (resolveLayer ⟨l.inMemory, n⟩ digest).outcome t =
      ((t.contentAt (.layerUnknown n digest) (l.path (.layerLink n digest))).bind
        (pathOfLink (l.path (.layerLink n digest))), t) := by
  have hread := t.outcome_getContent (l.path (.layerLink n digest))
  rw [resolveLayer, outcome_bind, MemoryStore.contentAt]
  cases hfile : t.file? (l.path (.layerLink n digest)) with
  | some link =>
    rw [hfile] at hread
    have hknown : (orUnknown (unknownLayer ⟨l.inMemory, n⟩ digest) (l.inMemory.storage.getContent
        (layerPath ⟨l.inMemory, n⟩ digest))).outcome t = (.ok link, t) := outcome_orUnknown_ok hread
    rw [hknown]
    exact outcome_ofExcept _ t
  | none =>
    rw [hfile] at hread
    have hunknown : (orUnknown (unknownLayer ⟨l.inMemory, n⟩ digest) (l.inMemory.storage.getContent
        (layerPath ⟨l.inMemory, n⟩ digest))).outcome t = (.error (.layerUnknown n digest), t) :=
      outcome_orUnknown_missing rfl hread
    rw [hunknown]
    rfl

/-- An unknown blob behind a link is an unknown layer. -/
theorem mapError_asLayer_contentAt {α : Type} (n : RepositoryName) (digest : Digest) (p : Path)
    (next : Bytes → Except RegistryError α)
    (hnext : ∀ content, (next content).mapError (asLayer ⟨l.inMemory, n⟩ digest) = next content) :
    ((t.contentAt (.blobUnknown digest) p).bind next).mapError (asLayer ⟨l.inMemory, n⟩ digest) =
      (t.contentAt (.layerUnknown n digest) p).bind next := by
  rw [MemoryStore.contentAt, MemoryStore.contentAt]
  cases t.file? p with
  | some content => exact hnext content
  | none => rfl

theorem outcome_layerStat (digest : Digest) :
    (layerStat ⟨l.inMemory, n⟩ digest).outcome t =
      ((layerContent l t n digest).map fun content => ⟨digest, content.length⟩, t) := by
  rw [layerStat, outcome_bind, outcome_resolveLayer, layerContent]
  cases (t.contentAt (.layerUnknown n digest) (l.path (.layerLink n digest))).bind
      (pathOfLink (l.path (.layerLink n digest))) with
  | error e => rfl
  | ok target =>
    have hblob := mapError_asLayer_contentAt (l := l) (t := t) n digest target
      (fun content => .ok (Descriptor.mk digest content.length)) fun content => rfl
    have hmap : ∀ x : Except RegistryError Bytes,
        (x.bind fun content => .ok (Descriptor.mk digest content.length)) =
          x.map fun content => ⟨digest, content.length⟩ := by
      intro x
      cases x <;> rfl
    show ((l.inMemory.blobStatAt digest target).mapError _).outcome t = _
    rw [outcome_mapError, Registry.outcome_blobStatAt, ← hmap, hblob, hmap]
    rfl

theorem outcome_layerOpen (digest : Digest) (offset : Nat) :
    (layerOpen ⟨l.inMemory, n⟩ digest offset).outcome t =
      ((layerContent l t n digest).bind (BlobReader.openedOn digest offset), t) := by
  rw [layerOpen, outcome_bind, outcome_resolveLayer, layerContent]
  cases (t.contentAt (.layerUnknown n digest) (l.path (.layerLink n digest))).bind
      (pathOfLink (l.path (.layerLink n digest))) with
  | error e => rfl
  | ok target =>
    show ((l.inMemory.blobOpenAt digest target offset).mapError _).outcome t = _
    rw [outcome_mapError, Registry.outcome_blobOpenAt,
      mapError_asLayer_contentAt n digest target (BlobReader.openedOn digest offset)]
    · rfl
    · intro content
      rw [BlobReader.openedOn]
      split <;> rfl

/-- A link that holds no path is no sign that the layer is unknown. -/
theorem isUnknown_pathOfLink {p : Path} {link : Bytes} {e : RegistryError}
    (h : pathOfLink p link = .error e) : e.isUnknown = false := by
  rw [pathOfLink] at h
  split at h
  · cases h
    rfl
  · split at h
    · cases h
      rfl
    · cases h

/-- Of all that may stand in the way of a layer only its being unknown says that it is
not there. -/
theorem isUnknown_layerContent {e : RegistryError} (h : layerContent l t n digest = .error e) :
    e.isUnknown = true ↔ e = .layerUnknown n digest := by
  refine ⟨fun hunknown => ?_, fun he => by rw [he]; rfl⟩
  rw [layerContent, MemoryStore.contentAt] at h
  cases hlink : t.file? (l.path (.layerLink n digest)) with
  | none =>
    rw [hlink] at h
    exact (Except.error.inj h).symm
  | some link =>
    rw [hlink] at h
    have h : (pathOfLink (l.path (.layerLink n digest)) link).bind
        (t.contentAt (.layerUnknown n digest)) = .error e := h
    cases htarget : pathOfLink (l.path (.layerLink n digest)) link with
    | error cause =>
      rw [htarget] at h
      obtain rfl : cause = e := Except.error.inj h
      rw [isUnknown_pathOfLink htarget] at hunknown
      cases hunknown
    | ok target =>
      rw [htarget] at h
      have h : t.contentAt (.layerUnknown n digest) target = .error e := h
      rw [MemoryStore.contentAt] at h
      cases hfile : t.file? target with
      | some content =>
        rw [hfile] at h
        cases h
      | none =>
        rw [hfile] at h
        exact (Except.error.inj h).symm

theorem outcome_layerExists (digest : Digest) :
    (layerExists ⟨l.inMemory, n⟩ digest).outcome t =
      (match layerContent l t n digest with
        | .ok _ => .ok true
        | .error e => if e.isUnknown then .ok false else .error e, t) := by
  rw [layerExists, outcome_bind, outcome_attempt, outcome_layerStat]
  cases layerContent l t n digest with
  | ok content => rfl
  | error e =>
    show Action.outcome (if e.isUnknown = true then _ else _) t = _
    by_cases he : e.isUnknown = true
    · simp only [if_pos he]
      rfl
    · simp only [if_neg he]
      rfl

end Repository

/-! ### Agreement -/

/-- The calls that ask for the content of a digest. -/
structure ContentCalls where
  digest : Digest
  /-- The failure that says that the content is not there. -/
  unknown : RegistryError
  /-- Whether the content is there. -/
  present : RegistryAction MemoryStore Bool
  stat : RegistryAction MemoryStore Descriptor
  fetchAt : Nat → RegistryAction MemoryStore (BlobReader Bytes)

namespace ContentCalls

/-- The calls of the blob store. -/
def ofBlob (l : Layout) (digest : Digest) : ContentCalls where
  digest := digest
  unknown := .blobUnknown digest
  present := l.inMemory.blobExists digest
  stat := l.inMemory.blobStat digest
  fetchAt := l.inMemory.blobOpen digest

/-- The calls of the layers of a repository. -/
def ofLayer (l : Layout) (n : RepositoryName) (digest : Digest) : ContentCalls where
  digest := digest
  unknown := .layerUnknown n digest
  present := Repository.layerExists ⟨l.inMemory, n⟩ digest
  stat := Repository.layerStat ⟨l.inMemory, n⟩ digest
  fetchAt := Repository.layerOpen ⟨l.inMemory, n⟩ digest

variable (c : ContentCalls) (t : MemoryStore)

/-- What is fetched from an offset: all that the reader yields until its end. -/
def fetched (offset : Nat) : Except RegistryError Bytes :=
  match (c.fetchAt offset).outcome t with
  | (.ok reader, s) => (reader.readToEnd MemoryStore.driver s).1
  | (.error e, _) => .error e

/-- The three ways of asking never contradict each other. -/
structure Agree : Prop where
  /-- The content is there if it can be described and fetched. -/
  present_iff : (c.present.outcome t).1 = .ok true ↔
    (∃ descriptor, (c.stat.outcome t).1 = .ok descriptor) ∧
      ∃ reader, ((c.fetchAt 0).outcome t).1 = .ok reader
  /-- It is not there if both say that it is unknown. -/
  absent_iff : (c.present.outcome t).1 = .ok false ↔
    (c.stat.outcome t).1 = .error c.unknown ∧ ((c.fetchAt 0).outcome t).1 = .error c.unknown
  /-- Nothing is said if both fail in the same other way, and it is that failure. -/
  fails_iff : ∀ e, (c.present.outcome t).1 = .error e ↔
    (c.stat.outcome t).1 = .error e ∧ ((c.fetchAt 0).outcome t).1 = .error e ∧ e ≠ c.unknown
  /-- The described size is that of the content, which is fetched from each offset within it. -/
  described : ∀ descriptor, (c.stat.outcome t).1 = .ok descriptor →
    descriptor.digest = c.digest ∧ ∃ content : Bytes, content.length = descriptor.size ∧
      ∀ offset, c.fetched t offset = if offset ≤ descriptor.size then .ok (content.drop offset)
        else .error (.invalidOffset descriptor.size offset)
  /-- A reader is opened whenever there is something to fetch from its offset. -/
  opens_iff : ∀ offset, (∃ reader, ((c.fetchAt offset).outcome t).1 = .ok reader) ↔
    ∃ descriptor, (c.stat.outcome t).1 = .ok descriptor ∧ offset ≤ descriptor.size
  /-- Asking changes nothing. -/
  unchanged : (c.present.outcome t).2 = t ∧ (c.stat.outcome t).2 = t ∧
    ∀ offset, ((c.fetchAt offset).outcome t).2 = t

/-- All calls follow from one lookup of the content. -/
structure Follows (lookup : Except RegistryError Bytes) : Prop where
  present : c.present.outcome t =
    (match lookup with
      | .ok _ => .ok true
      | .error e => if e.isUnknown then .ok false else .error e, t)
  stat : c.stat.outcome t = (lookup.map fun content => ⟨c.digest, content.length⟩, t)
  fetchAt : ∀ offset,
    (c.fetchAt offset).outcome t = (lookup.bind (BlobReader.openedOn c.digest offset), t)
  unknown_iff : ∀ e, lookup = .error e → (e.isUnknown = true ↔ e = c.unknown)

variable {c t}

/-- What was opened is read to its end. -/
theorem Follows.fetched_eq {lookup : Except RegistryError Bytes} (h : c.Follows t lookup)
    (offset : Nat) : c.fetched t offset = lookup.bind fun content : Bytes =>
      if content.length < offset then .error (.invalidOffset content.length offset)
      else .ok (content.drop offset) := by
  rw [fetched, h.fetchAt]
  cases lookup with
  | error e => rfl
  | ok content =>
    show (match (BlobReader.openedOn c.digest offset content, t) with
      | (.ok reader, s) => (reader.readToEnd MemoryStore.driver s).1
      | (.error e, _) => .error e) = if content.length < offset then _ else _
    rw [BlobReader.openedOn]
    by_cases hbeyond : content.length < offset
    · rw [if_pos hbeyond, if_pos hbeyond]
    · rw [if_neg hbeyond, if_neg hbeyond]
      rfl

/-- **What comes of one lookup agrees.** -/
theorem Follows.agree {lookup : Except RegistryError Bytes} (h : c.Follows t lookup) :
    c.Agree t := by
  have hpresent := congrArg Prod.fst h.present
  have hstat := congrArg Prod.fst h.stat
  have hfetch := fun offset => congrArg Prod.fst (h.fetchAt offset)
  have hunchanged : (c.present.outcome t).2 = t ∧ (c.stat.outcome t).2 = t ∧
      ∀ offset, ((c.fetchAt offset).outcome t).2 = t :=
    ⟨congrArg Prod.snd h.present, congrArg Prod.snd h.stat,
      fun offset => congrArg Prod.snd (h.fetchAt offset)⟩
  cases lookup with
  | ok content =>
    have hpresent : (c.present.outcome t).1 = .ok true := hpresent
    have hstat : (c.stat.outcome t).1 = .ok ⟨c.digest, content.length⟩ := hstat
    have hfetch : ∀ offset, ((c.fetchAt offset).outcome t).1 =
      BlobReader.openedOn c.digest offset content := hfetch
    constructor
    case present_iff =>
      rw [hpresent, hstat, hfetch]
      simp [BlobReader.openedOn]
    case absent_iff => simp [hpresent, hstat]
    case fails_iff => simp [hpresent, hstat]
    case described =>
      intro descriptor hdescriptor
      obtain rfl := Except.ok.inj (hstat.symm.trans hdescriptor)
      refine ⟨rfl, content, rfl, fun offset => ?_⟩
      rw [h.fetched_eq]
      show (if content.length < offset then _ else _) = if offset ≤ content.length then _ else _
      by_cases hbeyond : content.length < offset
      · rw [if_pos hbeyond, if_neg (Nat.not_le.2 hbeyond)]
      · rw [if_neg hbeyond, if_pos (Nat.not_lt.1 hbeyond)]
    case opens_iff =>
      intro offset
      rw [hfetch, hstat, BlobReader.openedOn]
      by_cases hbeyond : content.length < offset
      · simp [hbeyond, Nat.not_le.2 hbeyond]
      · simp [hbeyond, Nat.not_lt.1 hbeyond]
    case unchanged => exact hunchanged
  | error e =>
    have hpresent : (c.present.outcome t).1 = if e.isUnknown then .ok false else .error e :=
      hpresent
    have hstat : (c.stat.outcome t).1 = .error e := hstat
    have hfetch : ∀ offset, ((c.fetchAt offset).outcome t).1 = .error e := hfetch
    have hunknown := h.unknown_iff e rfl
    constructor
    case present_iff =>
      rw [hpresent, hstat]
      split <;> simp
    case absent_iff =>
      rw [hpresent, hstat, hfetch]
      by_cases he : e.isUnknown = true
      · rw [if_pos he]
        simpa using hunknown.1 he
      · rw [if_neg he]
        simpa using mt hunknown.2 he
    case fails_iff =>
      intro cause
      rw [hpresent, hstat, hfetch]
      by_cases he : e.isUnknown = true
      · rw [if_pos he]
        constructor
        · intro hcause
          cases hcause
        · rintro ⟨hcause, -, hknown⟩
          obtain rfl := Except.error.inj hcause
          exact absurd (hunknown.1 he) hknown
      · rw [if_neg he]
        constructor
        · intro hcause
          obtain rfl := Except.error.inj hcause
          exact ⟨rfl, rfl, mt hunknown.2 he⟩
        · rintro ⟨hcause, -, -⟩
          obtain rfl := Except.error.inj hcause
          rfl
    case described => simp [hstat]
    case opens_iff => simp [hfetch, hstat]
    case unchanged => exact hunchanged

theorem follows_blob (l : Layout) (t : MemoryStore) (digest : Digest) :
    (ofBlob l digest).Follows t
      (t.contentAt (.blobUnknown digest) (l.path (.blobData digest))) := by
  have hexists := Registry.outcome_blobExists (l := l) (t := t) digest
  constructor
  case present =>
    show (l.inMemory.blobExists digest).outcome t = _
    rw [hexists, MemoryStore.contentAt]
    cases t.file? (l.path (.blobData digest)) <;> rfl
  case stat => exact Registry.outcome_blobStat digest
  case fetchAt => exact Registry.outcome_blobOpen digest
  case unknown_iff =>
    intro e he
    rw [MemoryStore.contentAt] at he
    cases hfile : t.file? (l.path (.blobData digest)) with
    | some content =>
      rw [hfile] at he
      cases he
    | none =>
      rw [hfile] at he
      obtain rfl : RegistryError.blobUnknown digest = e := Except.error.inj he
      exact ⟨fun _ => rfl, fun _ => rfl⟩

theorem follows_layer (l : Layout) (t : MemoryStore) (n : RepositoryName) (digest : Digest) :
    (ofLayer l n digest).Follows t (Repository.layerContent l t n digest) where
  present := Repository.outcome_layerExists digest
  stat := Repository.outcome_layerStat digest
  fetchAt := Repository.outcome_layerOpen digest
  unknown_iff _ h := Repository.isUnknown_layerContent h

/-- **Existence, description and fetch agree on every store**, for the layers of each
repository and for the blobs. -/
theorem blobs_and_layers_agree (l : Layout) (t : MemoryStore) (digest : Digest) :
    (ofBlob l digest).Agree t ∧ ∀ n, (ofLayer l n digest).Agree t :=
  ⟨(follows_blob l t digest).agree, fun n => (follows_layer l t n digest).agree⟩

end ContentCalls
end ContainerRegistry
