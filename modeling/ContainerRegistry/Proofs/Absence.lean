/-
# Absence is never a failure of storage

What an operation in memory asks for may be missing in several ways: an upload, its marker or
its data, a blob, a link, or the blob that a link leads to. `Operation.Misses` lists them with
what the client would be told: that the thing is unknown, no, or nothing listed. Were that so
throughout, and no failure of storage said that something is not there, absence would always be
told (`Client.ReportsAbsence`). It is, with two exceptions that are meant: to give up an upload
is harmless when there is none (`Operation.abandons`), and a reader that bytes are taken from may
fail as it likes. Besides, an upload whose data is gone may still be finished when its blob is
stored (`Operation.FindsBlob`).

Key definitions: `MissesLayer`, `MissesRevision`, `Operation.Misses`, `Operation.abandons`,
`Operation.FindsBlob`, `Client.ReportsAbsence`.
Key theorems: `Repository.layerContent_missing`, `Repository.putManifest_missing`,
`Upload.outcome_finish_vacant`, `Client.answer_of_misses`, `Client.answer_of_abandons`,
`Client.absence_is_reported`, `Client.answer_of_failed_reader`, `Client.not_reportsAbsence`.
-/
import ContainerRegistry.Proofs.Reports

namespace ContainerRegistry

open ContainerRegistry.Action

variable {l : Layout} {t : MemoryStore} {n : RepositoryName}

/-! ### What is missing -/

/-- There is no link of the layer, or no file where it leads. -/
def MissesLayer (l : Layout) (t : MemoryStore) (n : RepositoryName) (digest : Digest) : Prop :=
  t.file? (l.path (.layerLink n digest)) = none ∨
    ∃ link target, t.file? (l.path (.layerLink n digest)) = some link ∧
      pathOfLink (l.path (.layerLink n digest)) link = .ok target ∧ t.file? target = none

/-- There is no link of the revision, or no blob of the digest in it. -/
def MissesRevision (l : Layout) (t : MemoryStore) (n : RepositoryName) (digest : Digest) : Prop :=
  t.file? (l.path (.revisionLink n digest)) = none ∨
    ∃ link target, t.file? (l.path (.revisionLink n digest)) = some link ∧
      digestOfLink (l.path (.revisionLink n digest)) link = .ok target ∧
      t.file? (l.path (.blobData target)) = none

/-- What an operation asks for is not there, and this is how it would be told so: that the
thing is unknown, no, or nothing listed. -/
inductive Operation.Misses (l : Layout) (t : MemoryStore) (handles : List Upload) :
    Operation → Answer → Prop where
  | resume {n : RepositoryName} {id : UploadId} :
    t.file? (l.path (.uploadStartedAt n id)) = none →
    Misses l t handles (.resume n id) (.error (.uploadUnknown id))
  | size {handle : Nat} {u : Upload} : handles[handle]? = some u → u.state = .writing →
    ¬ t.occupied (l.path (.uploadData u.name u.id)) = true →
    Misses l t handles (.size handle) (.error (.uploadUnknown u.id))
  | write {handle : Nat} {u : Upload} (offset : Nat) (source : Source) :
    handles[handle]? = some u → u.state = .writing →
    ¬ t.occupied (l.path (.uploadData u.name u.id)) = true →
    Misses l t handles (.write handle offset source) (.error (.uploadUnknown u.id))
  | finish {handle : Nat} {u : Upload} {expected : Digest} :
    handles[handle]? = some u → u.state = .writing →
    ¬ t.occupied (l.path (.uploadData u.name u.id)) = true →
    Misses l t handles (.finish handle expected) (.error (.uploadUnknown u.id))
  | cancel {handle : Nat} {u : Upload} : handles[handle]? = some u → u.state ≠ .finished →
    ¬ t.occupied (l.path (.upload u.name u.id)) = true →
    Misses l t handles (.cancel handle) (.error (.uploadUnknown u.id))
  | cancelUpload {n : RepositoryName} {id : UploadId} :
    ¬ t.occupied (l.path (.upload n id)) = true →
    Misses l t handles (.cancelUpload n id) (.error (.uploadUnknown id))
  | mount {n : RepositoryName} {digest : Digest} :
    t.file? (l.path (.blobData digest)) = none →
    Misses l t handles (.mount n digest) (.error (.blobUnknown digest))
  | putManifest {n : RepositoryName} {tag : Tag} {document : Bytes} {m : SignedManifest}
      {present absent : List Digest} {layer : Digest} :
    SignedManifest.parse document = .ok m → m.manifest.name = n.text → m.manifest.tag = tag.text →
    m.manifest.layers = present ++ layer :: absent →
    (∀ digest ∈ present, Repository.IsVisible l t n digest) → MissesLayer l t n layer →
    Misses l t handles (.putManifest n tag.text document) (.error (.layerUnknown n layer))
  | blobExists {digest : Digest} : t.file? (l.path (.blobData digest)) = none →
    Misses l t handles (.blobExists digest) (.ok (.flag false))
  | blobStat {digest : Digest} : t.file? (l.path (.blobData digest)) = none →
    Misses l t handles (.blobStat digest) (.error (.blobUnknown digest))
  | blobOpen {digest : Digest} (offset : Nat) : t.file? (l.path (.blobData digest)) = none →
    Misses l t handles (.blobOpen digest offset) (.error (.blobUnknown digest))
  | layerExists {n : RepositoryName} {digest : Digest} : MissesLayer l t n digest →
    Misses l t handles (.layerExists n digest) (.ok (.flag false))
  | layerStat {n : RepositoryName} {digest : Digest} : MissesLayer l t n digest →
    Misses l t handles (.layerStat n digest) (.error (.layerUnknown n digest))
  | layerOpen {n : RepositoryName} {digest : Digest} (offset : Nat) : MissesLayer l t n digest →
    Misses l t handles (.layerOpen n digest offset) (.error (.layerUnknown n digest))
  | resolveTag {n : RepositoryName} {tag : Tag} : t.file? (l.path (.currentLink n tag)) = none →
    Misses l t handles (.resolveTag n tag.text) (.error (.manifestUnknown n tag.text))
  | manifestByDigest {n : RepositoryName} {digest : Digest} : MissesRevision l t n digest →
    Misses l t handles (.manifestByDigest n digest) (.error (.manifestUnknown n digest.toText))
  | manifest {n : RepositoryName} {tag : Tag} : t.file? (l.path (.currentLink n tag)) = none →
    Misses l t handles (.manifest n tag.text) (.error (.manifestUnknown n tag.text))
  | manifestRevision {n : RepositoryName} {tag : Tag} {link : Bytes} {digest : Digest} :
    t.file? (l.path (.currentLink n tag)) = some link →
    digestOfLink (l.path (.currentLink n tag)) link = .ok digest → MissesRevision l t n digest →
    Misses l t handles (.manifest n tag.text) (.error (.manifestUnknown n tag.text))
  | manifestExists {n : RepositoryName} {tag : Tag} : t.file? (l.path (.currentLink n tag)) = none →
    Misses l t handles (.manifestExists n tag.text) (.ok (.flag false))
  | manifestExistsRevision {n : RepositoryName} {tag : Tag} {link : Bytes} {digest : Digest} :
    t.file? (l.path (.currentLink n tag)) = some link →
    digestOfLink (l.path (.currentLink n tag)) link = .ok digest →
    (t.file? (l.path (.revisionLink n digest)) = none ∨
      ∃ revision target, t.file? (l.path (.revisionLink n digest)) = some revision ∧
        digestOfLink (l.path (.revisionLink n digest)) revision = .ok target ∧
        t.file? (l.path (.blobData digest)) = none) →
    Misses l t handles (.manifestExists n tag.text) (.ok (.flag false))
  | tags {n : RepositoryName} : ¬ t.occupied (l.path (.tags n)) = true →
    Misses l t handles (.tags n) (.ok (.tags []))
  | catalog : ¬ t.occupied (l.path .repositories) = true →
    Misses l t handles .catalog (.ok (.catalog []))

/-- An upload is given up. -/
def Operation.abandons : Operation → Bool
  | cancel _ | cancelUpload _ _ => true
  | _ => false

/-- An upload is to become a blob that is stored already. -/
def Operation.FindsBlob (l : Layout) (t : MemoryStore) : Operation → Prop
  | finish _ expected => t.file? (l.path (.blobData expected)) ≠ none
  | _ => False

/-- Absence is always told, and never as a failure of storage. -/
structure Client.ReportsAbsence (l : Layout) (c : Client MemoryStore Bytes) (op : Operation) :
    Prop where
  /-- No failure of storage says that something is not there. -/
  not_storage : ∀ cause, (c.act l.inMemory op).1 = .error (.storage cause) →
    cause.isNotFound = false
  /-- What is unknown was asked for. -/
  asked : ∀ e, (c.act l.inMemory op).1 = .error e → e.isUnknown = true → e ∈ op.unknowns c.handles
  /-- What is missing is reported so. -/
  told : ∀ a, op.Misses l c.storage c.handles a → (c.act l.inMemory op).1 = a

namespace Registry

theorem outcome_blobContent_missing {digest : Digest}
    (h : t.file? (l.path (.blobData digest)) = none) :
    (l.inMemory.blobContent digest).outcome t = (.error (.blobUnknown digest), t) := by
  have hread := t.outcome_getContent (l.path (.blobData digest))
  rw [h] at hread
  exact outcome_orUnknown_missing rfl hread

/-- Where nothing lies beneath the root there are no repositories. -/
theorem outcome_catalog_vacant (h : ¬ t.occupied (l.path .repositories) = true) :
    l.inMemory.catalog.outcome t = (.ok [], t) := by
  have hlist : (found (l.inMemory.storage.list (l.path .repositories))).outcome t = (.ok none, t) :=
    outcome_found_missing rfl (MemoryStore.outcome_list_vacant h)
  have hwalk : ∀ fuel,
      (l.inMemory.walk fuel [l.path .repositories] []).outcome t = (.ok [], t) := by
    intro fuel
    cases fuel with
    | zero => rfl
    | succ fuel =>
      rw [walk, outcome_bind, hlist]
      cases fuel <;> rfl
  rw [catalog, outcome_bind, outcome_get]
  simp only
  rw [outcome_bind]
  have hstart : (l.inMemory.walk (l.inMemory.storage.extent t) [l.inMemory.path .repositories]
      []).outcome t = (.ok [], t) := hwalk _
  rw [hstart]
  simp only [outcome_pure, List.mergeSort_nil]

end Registry

namespace Repository

theorem layerContent_missing {digest : Digest} (h : MissesLayer l t n digest) :
    layerContent l t n digest = .error (.layerUnknown n digest) := by
  rw [layerContent, MemoryStore.contentAt]
  rcases h with hnone | ⟨link, target, hlink, htarget, hnone⟩
  · rw [hnone]
    rfl
  · rw [hlink]
    show ((pathOfLink (l.path (.layerLink n digest)) link).bind _) = _
    rw [htarget]
    show t.contentAt (.layerUnknown n digest) target = _
    rw [MemoryStore.contentAt, hnone]

/-- The first layer that is missing is the one that is reported. -/
theorem requireLayers_missing {layer : Digest} (absent : List Digest)
    (h : MissesLayer l t n layer) : ∀ present : List Digest,
    (∀ digest ∈ present, IsVisible l t n digest) →
      (requireLayers ⟨l.inMemory, n⟩ (present ++ layer :: absent)).outcome t =
        (.error (.layerUnknown n layer), t)
  | [], _ => by
    rw [List.nil_append, requireLayers, outcome_bind, outcome_layerStat, layerContent_missing h]
    rfl
  | digest :: present, hpresent => by
    have ih := requireLayers_missing absent h present fun other hother =>
      hpresent other (List.mem_cons_of_mem _ hother)
    obtain ⟨descriptor, hstat⟩ :=
      (isVisible_iff_layerStat digest).1 (hpresent digest List.mem_cons_self)
    have hstore : ((layerStat ⟨l.inMemory, n⟩ digest).outcome t).2 = t :=
      (reads_layerStat (d := MemoryStore.reliable) digest).outcome_snd t
    have hlayer : (layerStat ⟨l.inMemory, n⟩ digest).outcome t = (.ok descriptor, t) :=
      Prod.ext hstat hstore
    rw [List.cons_append, requireLayers, outcome_bind, hlayer]
    exact ih

theorem putManifest_missing {tag : Tag} {m : SignedManifest} {present absent : List Digest}
    {layer : Digest} (hname : m.manifest.name = n.text) (htag : m.manifest.tag = tag.text)
    (hlayers : m.manifest.layers = present ++ layer :: absent)
    (hpresent : ∀ digest ∈ present, IsVisible l t n digest) (h : MissesLayer l t n layer) :
    (putManifest ⟨l.inMemory, n⟩ tag.text m).outcome t = (.error (.layerUnknown n layer), t) := by
  have hidentity : identityFault? ⟨l.inMemory, n⟩ tag m.manifest = none :=
    identityFault?_eq_none_iff.2 ⟨hname, htag⟩
  have hvalid : tagOf tag.text = .ok tag := by rw [tagOf, Tag.parse_text]
  have hrequire := requireLayers_missing absent h present hpresent
  rw [← hlayers] at hrequire
  rw [putManifest, hvalid, outcome_bind, outcome_ofExcept]
  simp only [hidentity]
  rw [outcome_bind, hrequire]

theorem outcome_resolveTag_ok {tag : Tag} {link : Bytes} {digest : Digest}
    (h : t.file? (l.path (.currentLink n tag)) = some link)
    (hdigest : digestOfLink (l.path (.currentLink n tag)) link = .ok digest) :
    (resolveTag ⟨l.inMemory, n⟩ tag.text).outcome t = (.ok digest, t) := by
  have hlink : (l.inMemory.readLink (currentPath ⟨l.inMemory, n⟩ tag)).outcome t =
      (.ok (some digest), t) := Registry.outcome_readLink_ok h hdigest
  exact outcome_resolveTag hlink

/-- A revision whose blob is missing is as unknown as one without a link. -/
theorem manifestByDigest_missing {digest : Digest} (h : MissesRevision l t n digest) :
    (manifestByDigest ⟨l.inMemory, n⟩ digest).outcome t =
      (.error (.manifestUnknown n digest.toText), t) := by
  rcases h with hnone | ⟨link, target, hlink, htarget, hnone⟩
  · exact manifestByDigest_unlinked hnone
  · have hread : (l.inMemory.readLink (revisionPath ⟨l.inMemory, n⟩ digest)).outcome t =
        (.ok (some target), t) := Registry.outcome_readLink_ok hlink htarget
    rw [manifestByDigest, outcome_bind, hread]
    simp only
    rw [outcome_bind, outcome_mapError, Registry.outcome_blobContent_missing hnone]
    rfl

theorem manifest_missing {tag : Tag} {link : Bytes} {digest : Digest}
    (hlink : t.file? (l.path (.currentLink n tag)) = some link)
    (hdigest : digestOfLink (l.path (.currentLink n tag)) link = .ok digest)
    (h : MissesRevision l t n digest) :
    (manifest ⟨l.inMemory, n⟩ tag.text).outcome t = (.error (.manifestUnknown n tag.text), t) := by
  rw [manifest, outcome_bind, outcome_resolveTag_ok hlink hdigest]
  simp only
  rw [outcome_mapError, manifestByDigest_missing h]
  rfl

theorem manifestExists_missing {tag : Tag} {link : Bytes} {digest : Digest}
    (hlink : t.file? (l.path (.currentLink n tag)) = some link)
    (hdigest : digestOfLink (l.path (.currentLink n tag)) link = .ok digest)
    (h : t.file? (l.path (.revisionLink n digest)) = none ∨
      ∃ revision target, t.file? (l.path (.revisionLink n digest)) = some revision ∧
        digestOfLink (l.path (.revisionLink n digest)) revision = .ok target ∧
        t.file? (l.path (.blobData digest)) = none) :
    (manifestExists ⟨l.inMemory, n⟩ tag.text).outcome t = (.ok false, t) := by
  rw [manifestExists, outcome_bind, outcome_attempt, outcome_resolveTag_ok hlink hdigest]
  simp only
  rw [outcome_bind]
  rcases h with hnone | ⟨revision, target, hrevision, htarget, hnone⟩
  · have hread : (l.inMemory.readLink (revisionPath ⟨l.inMemory, n⟩ digest)).outcome t =
        (.ok none, t) := Registry.outcome_readLink_none hnone
    rw [hread]
    rfl
  · have hread : (l.inMemory.readLink (revisionPath ⟨l.inMemory, n⟩ digest)).outcome t =
        (.ok (some target), t) := Registry.outcome_readLink_ok hrevision htarget
    rw [hread]
    simp only
    rw [Registry.outcome_blobExists, hnone]
    rfl

theorem outcome_tags_vacant (h : ¬ t.occupied (l.path (.tags n)) = true) :
    (tags ⟨l.inMemory, n⟩).outcome t = (.ok [], t) := by
  have hlist : (found (l.inMemory.storage.list (l.inMemory.path (.tags n)))).outcome t =
      (.ok none, t) := outcome_found_missing rfl (MemoryStore.outcome_list_vacant h)
  rw [tags, outcome_bind, hlist]
  simp only [outcome_pure, Option.getD_none, List.filterMap_nil, List.mergeSort_nil]

end Repository

/-- Without data and without a blob there is nothing to finish. -/
theorem Upload.outcome_finish_vacant {u : Upload} {expected : Digest}
    (hstate : u.state = .writing) (h : ¬ t.occupied (dataPath l.inMemory u) = true)
    (hblob : t.file? (l.path (.blobData expected)) = none) :
    ((finish l.inMemory expected).outcome (u, t)).1 = .error (.uploadUnknown u.id) := by
  have hstat : (l.inMemory.storage.stat (dataPath l.inMemory u)).outcome t = _ :=
    MemoryStore.outcome_stat_vacant h
  have hexists := Registry.outcome_blobExists (l := l) (t := t) expected
  rw [hblob] at hexists
  have hfound : (onStorage (found (l.inMemory.storage.stat (dataPath l.inMemory u)))).outcome
      (u, t) = (.ok none, (u, t)) := outcome_onStorage (outcome_found_missing rfl hstat)
  have hmoved : (isMoved l.inMemory expected).outcome (u, t) = (.ok false, (u, t)) := by
    rw [isMoved, outcome_bind, outcome_handle]
    simp only
    rw [outcome_bind, hfound]
    exact outcome_onStorage hexists
  rw [finish, outcome_bind, outcome_ensureOpen_writing hstate]
  simp only
  rw [outcome_bind, hmoved]
  simp only [Bool.false_eq_true, if_false]
  rw [outcome_bind, settle, outcome_bind, outcome_size_vacant hstate h]

namespace Client

theorem asks_of_outcome {α : Type} {c : Client MemoryStore Bytes}
    {action : RegistryAction MemoryStore α} {x : Except RegistryError α}
    (h : (action.outcome c.storage).1 = x) (reply : α → Reply) :
    (c.asks action reply).1 = x.map reply := by
  rw [asks, ← h]

theorem uses_of_outcome {α : Type} {c : Client MemoryStore Bytes} {handle : Nat} {u : Upload}
    (hu : c.handles[handle]? = some u) {action : UploadAction MemoryStore α}
    {x : Except RegistryError α} (h : (action.outcome (u, c.storage)).1 = x) (reply : α → Reply) :
    (c.uses handle action reply).1 = x.map reply := by
  rw [uses, hu, ← h]

theorem opens_of_error {c : Client MemoryStore Bytes}
    {action : RegistryAction MemoryStore (BlobReader Bytes)} {e : RegistryError}
    (h : (action.outcome c.storage).1 = .error e) : (c.opens action).1 = .error e := by
  rw [opens]
  split
  · rename_i b t ho
    rw [ho] at h
    cases h
  · rename_i cause t ho
    rw [ho] at h
    exact congrArg Except.error (Except.error.inj h)

/-- **What is missing is reported so**, unless an upload is given up or its blob is there. -/
theorem answer_of_misses {c : Client MemoryStore Bytes} {op : Operation} {a : Answer}
    (h : op.Misses l c.storage c.handles a) (habandons : op.abandons = false)
    (hblob : ¬ op.FindsBlob l c.storage) : (c.act l.inMemory op).1 = a := by
  cases h with
  | resume hnone =>
    rw [act, starts, Upload.outcome_resume_unknown hnone]
  | size hu hstate hvacant =>
    exact uses_of_outcome hu (congrArg Prod.fst (Upload.outcome_size_vacant hstate hvacant)) _
  | write offset source hu hstate hvacant =>
    refine uses_of_outcome hu (x := .error _) ?_ _
    rw [Upload.write, outcome_bind, Upload.outcome_size_vacant hstate hvacant]
  | finish hu hstate hvacant =>
    exact uses_of_outcome hu (Upload.outcome_finish_vacant hstate hvacant (not_not.1 hblob)) _
  | cancel | cancelUpload => cases habandons
  | mount hnone =>
    refine asks_of_outcome (x := .error _) ?_ _
    rw [Repository.mount, outcome_bind, Registry.outcome_blobStat_missing hnone]
  | putManifest hparse hname htag hlayers hpresent hmissing =>
    rw [act, hparse]
    exact asks_of_outcome (congrArg Prod.fst
      (Repository.putManifest_missing hname htag hlayers hpresent hmissing)) _
  | blobExists hnone =>
    refine asks_of_outcome (x := .ok false) ?_ _
    rw [Registry.outcome_blobExists, hnone]
    rfl
  | blobStat hnone =>
    exact asks_of_outcome (congrArg Prod.fst (Registry.outcome_blobStat_missing hnone)) _
  | blobOpen offset hnone =>
    exact opens_of_error (congrArg Prod.fst (Registry.outcome_blobOpen_missing hnone offset))
  | layerExists hmissing =>
    refine asks_of_outcome (x := .ok false) ?_ _
    rw [Repository.outcome_layerExists, Repository.layerContent_missing hmissing]
    rfl
  | layerStat hmissing =>
    refine asks_of_outcome (x := .error _) ?_ _
    rw [Repository.outcome_layerStat, Repository.layerContent_missing hmissing]
    rfl
  | layerOpen offset hmissing =>
    refine opens_of_error ?_
    rw [Repository.outcome_layerOpen, Repository.layerContent_missing hmissing]
    rfl
  | resolveTag hnone =>
    exact asks_of_outcome (congrArg Prod.fst (Repository.answers_of_unlinked hnone).1) _
  | manifestByDigest hmissing =>
    exact asks_of_outcome (congrArg Prod.fst (Repository.manifestByDigest_missing hmissing)) _
  | manifest hnone =>
    exact asks_of_outcome (congrArg Prod.fst (Repository.answers_of_unlinked hnone).2.1) _
  | manifestRevision hlink hdigest hmissing =>
    exact asks_of_outcome
      (congrArg Prod.fst (Repository.manifest_missing hlink hdigest hmissing)) _
  | manifestExists hnone =>
    exact asks_of_outcome (congrArg Prod.fst (Repository.answers_of_unlinked hnone).2.2) _
  | manifestExistsRevision hlink hdigest hmissing =>
    exact asks_of_outcome
      (congrArg Prod.fst (Repository.manifestExists_missing hlink hdigest hmissing)) _
  | tags hvacant =>
    exact asks_of_outcome (congrArg Prod.fst (Repository.outcome_tags_vacant hvacant)) _
  | catalog hvacant =>
    exact asks_of_outcome (congrArg Prod.fst (Registry.outcome_catalog_vacant hvacant)) _

/-- To give up an upload that is not there is harmless. -/
theorem answer_of_abandons {c : Client MemoryStore Bytes} {op : Operation} {a : Answer}
    (h : op.Misses l c.storage c.handles a) (habandons : op.abandons = true) :
    (c.act l.inMemory op).1 = .ok .done := by
  cases h with
  | @cancel handle u hu hstate hvacant =>
    have hcancel : ((Upload.cancel l.inMemory).outcome (u, c.storage)).1 = .ok () := by
      cases hclosed : u.state with
      | writing => rw [Upload.outcome_cancel_writing hclosed]
      | finished => exact absurd hclosed hstate
      | cancelled => rw [Upload.outcome_cancel_cancelled _ hclosed]
    exact uses_of_outcome hu hcancel fun _ => .done
  | cancelUpload hvacant =>
    exact asks_of_outcome (congrArg Prod.fst (Upload.outcome_remove _ _ _)) fun _ => .done
  | _ => cases habandons

/-- **Absence is never a failure of storage**, whatever the store holds and whatever handles
there are. An operation fails with a missing path only if that is how the reader of the client
failed that it was to take bytes from, which a reader of bytes at hand never does; if it fails
with something unknown, then with what it was asked for. Where what it asks for is not there, it
is told so; only to give up an upload is harmless then, and what becomes of finishing one whose
blob is stored already is left open. -/
theorem absence_is_reported (l : Layout) (c : Client MemoryStore Bytes) (op : Operation) :
    (∀ cause, (c.act l.inMemory op).1 = .error (.storage cause) → cause.isNotFound = true →
      ∃ failure, op.readerFailure? = some failure ∧ failure.kind = .notFound) ∧
    (∀ e, (c.act l.inMemory op).1 = .error e → e.isUnknown = true → e ∈ op.unknowns c.handles) ∧
    ∀ a, op.Misses l c.storage c.handles a →
      (op.abandons = true → (c.act l.inMemory op).1 = .ok .done) ∧
      (op.abandons = false → ¬ op.FindsBlob l c.storage → (c.act l.inMemory op).1 = a) := by
  refine ⟨fun cause he hmissing => ?_, fun e he hunknown => ?_,
    fun a h => ⟨answer_of_abandons h, answer_of_misses h⟩⟩
  · rcases reports_act c op he hmissing with hmem | ⟨failure, p, hreader, hcause⟩
    · cases Operation.isUnknown_of_mem_unknowns hmem
    · obtain rfl := RegistryError.storage.inj hcause
      refine ⟨failure, hreader, ?_⟩
      cases hkind : failure.kind <;>
        simp [StorageError.ofIo, StorageError.isNotFound, StorageErrorKind.ofIo,
          hkind] at hmissing ⊢
  · have hmiss : e.saysMissing = true := by
      cases e <;> first | exact hunknown | cases hunknown
    rcases reports_act c op he hmiss with hmem | ⟨failure, p, -, rfl⟩
    · exact hmem
    · cases hunknown

/-- The reader of the first write to an upload fails, and the client is told how. -/
theorem answer_of_failed_reader (l : Layout) (n : RepositoryName) (id : UploadId) (now : Instant)
    (yielded : Bytes) (failure : IoError) :
    (((connected .empty).act l.inMemory (.start n id now)).2.act l.inMemory
      (.write 0 0 ⟨yielded, some failure⟩)).1 =
        .error (.storage (.ofIo MemoryStore.engine (l.path (.uploadData n id)) failure)) := by
  obtain ⟨t, ht⟩ : ∃ t, t = (MemoryStore.empty.put (l.path (.uploadStartedAt n id))
      (Bytes.ofText now.toOffsetText)).put (l.path (.uploadData n id)) [] := ⟨_, rfl⟩
  have hstart : ((connected .empty).act l.inMemory (.start n id now)).2 =
      ⟨t, [.opened id n now], []⟩ := by
    rw [act, starts, ht]
    rfl
  have hlaid : t.LaidOut l := by
    rw [ht]
    exact (MemoryStore.laidOut_empty.put rfl _).put rfl []
  have hfile : t.file? (l.path (.uploadData n id)) = some [] := by
    rw [ht, MemoryStore.file?_put_path rfl, if_pos rfl]
  have hwrite := Upload.outcome_write_stored (u := .opened id n now) hlaid rfl hfile
    (.opened id n now []) ⟨yielded, some failure⟩
  have hhandle : [Upload.opened id n now][0]? = some (.opened id n now) := rfl
  rw [hstart]
  exact uses_of_outcome (c := ⟨t, [.opened id n now], []⟩) hhandle (congrArg Prod.fst hwrite) .count

/-- An upload that nobody started is given up without complaint, and a reader that finds nothing
is reported as storage that finds nothing. -/
theorem not_reportsAbsence :
    ¬ ReportsAbsence default (connected .empty) (.cancelUpload ⟨"team/one", by decide⟩
      ⟨"00000000-0000-0000-0000-000000000000", by decide⟩) ∧
    ¬ ReportsAbsence default
      ((connected .empty).act (Layout.inMemory default) (.start ⟨"team/one", by decide⟩
        ⟨"00000000-0000-0000-0000-000000000000", by decide⟩ ⟨0, 0, 0⟩)).2
      (.write 0 0 ⟨[], some (.custom .notFound "gone")⟩) := by
  refine ⟨fun h => ?_, fun h => ?_⟩
  · cases h.told _ (.cancelUpload (by decide +kernel))
  · have hnotFound := h.not_storage _ (answer_of_failed_reader _ _ _ _ _ _)
    cases hnotFound

end Client

end ContainerRegistry
