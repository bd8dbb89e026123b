/-
# What a repository sees of the store

An operation of a repository looks at the files of the repository, and at blobs that its
links point at. In a store where these are the same and other blobs may have been added
(`SeenAlike`), it is answered the same, leaves the same in the files of the repository, and
sees to it that the same blob is there (`ChangedAlike`). That holds of every operation but
two: mounting asks for a blob that the repository has no link to, and so does finishing an
upload whose bytes are gone.

Key definitions: `SeenAlike`, `ChangedAlike`, `AnswersAlike`, `Upload.AnswersAlike`.
Key theorems: `ChangedAlike.put`, `ChangedAlike.retired`, `Repository.layer_alike`,
`Repository.tag_alike`, `Repository.putManifest_alike`, `Upload.write_alike`,
`Upload.finish_alike`.
-/
import ContainerRegistry.Proofs.Listing
import ContainerRegistry.Proofs.Outcome
import ContainerRegistry.Proofs.Publish
import ContainerRegistry.Proofs.Visibility

namespace ContainerRegistry

open ContainerRegistry.Action

/-- There is a blob of a digest in a store. -/
def MemoryStore.HasBlob (l : Layout) (t : MemoryStore) (digest : Digest) : Prop :=
  ∃ content, t.file? (l.path (.blobData digest)) = some content

/-- From a repository, one store looks like another. -/
structure SeenAlike (l : Layout) (n : RepositoryName) (t t' : MemoryStore) : Prop where
  laidOut : t.LaidOut l
  laidOut' : t'.LaidOut l
  links : LinksPoint l t
  links' : LinksPoint l t'
  /-- The files of the repository are the same. -/
  own : ∀ f : Resource, f.isFile = true → f.owner? = some n →
    t'.file? (l.path f) = t.file? (l.path f)
  /-- The blobs of the one are in the other. -/
  blobs : ∀ digest content, t.file? (l.path (.blobData digest)) = some content →
    t'.file? (l.path (.blobData digest)) = some content

/-- Two stores that were changed alike by a repository, the second from a store that may
have had more blobs. -/
structure ChangedAlike (l : Layout) (n : RepositoryName) (t' t₁ t₁' : MemoryStore) : Prop where
  laidOut : t₁.LaidOut l
  laidOut' : t₁'.LaidOut l
  /-- The files of the repository are the same. -/
  own : ∀ f : Resource, f.isFile = true → f.owner? = some n →
    t₁'.file? (l.path f) = t₁.file? (l.path f)
  /-- The blobs of the first are those that were not there before. -/
  stored : ∀ digest, t₁'.HasBlob l digest ↔ t'.HasBlob l digest ∨ t₁.HasBlob l digest

/-- An action is answered the same in both stores, and changes them alike. -/
def AnswersAlike {α : Type} (l : Layout) (n : RepositoryName) (t t' : MemoryStore)
    (action : RegistryAction MemoryStore α) : Prop :=
  ∃ x t₁ t₁', action.outcome t = (x, t₁) ∧ action.outcome t' = (x, t₁') ∧
    ChangedAlike l n t' t₁ t₁'

variable {l : Layout} {n : RepositoryName} {t t' t₁ t₁' : MemoryStore} {α : Type}

theorem SeenAlike.refl (ht : t.LaidOut l) (hlinks : LinksPoint l t) : SeenAlike l n t t :=
  ⟨ht, ht, hlinks, hlinks, fun _ _ _ => rfl, fun _ _ h => h⟩

namespace ChangedAlike

theorem of_seen (h : SeenAlike l n t t') : ChangedAlike l n t' t t' where
  laidOut := h.laidOut
  laidOut' := h.laidOut'
  own := h.own
  stored digest := by
    refine ⟨Or.inl, ?_⟩
    rintro (hblob | ⟨content, hblob⟩)
    · exact hblob
    · exact ⟨content, h.blobs digest content hblob⟩

/-- A file of the repository is written. -/
theorem put (h : ChangedAlike l n t' t₁ t₁') {a : Resource} (ha : a.isFile = true)
    (hn : a.owner? = some n) (bytes : Bytes) :
    ChangedAlike l n t' (t₁.put (l.path a) bytes) (t₁'.put (l.path a) bytes) where
  laidOut := h.laidOut.put ha bytes
  laidOut' := h.laidOut'.put ha bytes
  own f hf hown := by
    rw [MemoryStore.file?_put_path ha, MemoryStore.file?_put_path ha, h.own f hf hown]
  stored digest := by
    have hne : Resource.blobData digest ≠ a := by
      rintro rfl
      cases hn
    simp only [MemoryStore.HasBlob, MemoryStore.file?_put_path ha, if_neg hne]
    exact h.stored digest

/-- An upload of the repository is retired. -/
theorem retired (h : ChangedAlike l n t' t₁ t₁') (id : UploadId) :
    ChangedAlike l n t' (t₁.retired l n id) (t₁'.retired l n id) where
  laidOut := h.laidOut.retired n id
  laidOut' := h.laidOut'.retired n id
  own f hf hown := by
    rw [h.laidOut.file?_retired hf, h.laidOut'.file?_retired hf, h.own f hf hown]
  stored digest := by
    have hne : ¬ (Resource.blobData digest = .uploadData n id ∨
        Resource.blobData digest = .uploadStartedAt n id) := by simp
    simp only [MemoryStore.HasBlob, h.laidOut.file?_retired (f := .blobData digest) rfl,
      h.laidOut'.file?_retired (f := .blobData digest) rfl, if_neg hne]
    exact h.stored digest

end ChangedAlike

/-- An action that changes nothing and is answered the same. -/
theorem SeenAlike.answers (h : SeenAlike l n t t') {action : RegistryAction MemoryStore α}
    {x : Except RegistryError α} (hx : action.outcome t = (x, t))
    (hx' : action.outcome t' = (x, t')) : AnswersAlike l n t t' action :=
  ⟨x, t, t', hx, hx', .of_seen h⟩

/-! ### Layers -/

namespace Repository

theorem layer_alike (h : SeenAlike l n t t') (digest : Digest) :
    AnswersAlike l n t t' (layerExists ⟨l.inMemory, n⟩ digest) ∧
      (∃ x, (layerStat ⟨l.inMemory, n⟩ digest).outcome t = (x, t) ∧
        (layerStat ⟨l.inMemory, n⟩ digest).outcome t' = (x, t')) ∧
      ∀ offset, AnswersAlike l n t t' (layerOpen ⟨l.inMemory, n⟩ digest offset) := by
  have hown := h.own (.layerLink n digest) rfl rfl
  cases hlink : t.file? (l.path (.layerLink n digest)) with
  | none =>
    obtain ⟨hexists, hstat, hopen⟩ := answers_of_no_link hlink
    obtain ⟨hexists', hstat', hopen'⟩ := answers_of_no_link (hown.trans hlink)
    exact ⟨h.answers hexists hexists', ⟨_, hstat, hstat'⟩,
      fun offset => h.answers (hopen offset) (hopen' offset)⟩
  | some link =>
    obtain ⟨rfl, content, hblob⟩ := h.links.layer n digest link hlink
    have hblob' := h.blobs digest content hblob
    obtain ⟨hexists, hstat, hopen⟩ := answers_of_link hlink hblob
    obtain ⟨hexists', hstat', hopen'⟩ := answers_of_link (hown.trans hlink) hblob'
    refine ⟨h.answers hexists hexists', ?_, fun offset => ?_⟩
    · rw [hstat, hstat', Registry.outcome_blobStat_stored hblob,
        Registry.outcome_blobStat_stored hblob']
      exact ⟨_, rfl, rfl⟩
    · have hread := hopen offset
      have hread' := hopen' offset
      rw [Registry.outcome_blobOpen_stored hblob] at hread
      rw [Registry.outcome_blobOpen_stored hblob'] at hread'
      by_cases hbeyond : content.length < offset
      · rw [if_pos hbeyond] at hread hread'
        exact h.answers hread hread'
      · rw [if_neg hbeyond] at hread hread'
        exact h.answers hread hread'

theorem layerStat_alike (h : SeenAlike l n t t') (digest : Digest) :
    AnswersAlike l n t t' (layerStat ⟨l.inMemory, n⟩ digest) := by
  obtain ⟨-, ⟨x, hstat, hstat'⟩, -⟩ := layer_alike h digest
  exact h.answers hstat hstat'

/-! ### Manifests -/

theorem manifestByDigest_alike (h : SeenAlike l n t t') (digest : Digest) :
    AnswersAlike l n t t' (manifestByDigest ⟨l.inMemory, n⟩ digest) := by
  have hown := h.own (.revisionLink n digest) rfl rfl
  cases hlink : t.file? (l.path (.revisionLink n digest)) with
  | none =>
    exact h.answers (manifestByDigest_unlinked hlink) (manifestByDigest_unlinked (hown.trans hlink))
  | some link =>
    obtain ⟨-, content, hblob⟩ := h.links.revision n digest link hlink
    exact h.answers (manifestByDigest_linked h.links hlink hblob)
      (manifestByDigest_linked h.links' (hown.trans hlink) (h.blobs digest content hblob))

/-- What is asked about a tag. -/
theorem tag_alike (h : SeenAlike l n t t') (text : String) :
    AnswersAlike l n t t' (resolveTag ⟨l.inMemory, n⟩ text) ∧
      AnswersAlike l n t t' (manifest ⟨l.inMemory, n⟩ text) ∧
      AnswersAlike l n t t' (manifestExists ⟨l.inMemory, n⟩ text) := by
  cases htag : Tag.parse text with
  | error e =>
    obtain ⟨hresolve, hget, hexists⟩ := answers_of_invalid (l := l) (n := n) (t := t) htag
    obtain ⟨hresolve', hget', hexists'⟩ := answers_of_invalid (l := l) (n := n) (t := t') htag
    exact ⟨h.answers hresolve hresolve', h.answers hget hget', h.answers hexists hexists'⟩
  | ok tag =>
    obtain rfl := Tag.text_of_parse htag
    have hown := h.own (.currentLink n tag) rfl rfl
    cases hlink : t.file? (l.path (.currentLink n tag)) with
    | none =>
      obtain ⟨hresolve, hget, hexists⟩ := answers_of_unlinked hlink
      obtain ⟨hresolve', hget', hexists'⟩ := answers_of_unlinked (hown.trans hlink)
      exact ⟨h.answers hresolve hresolve', h.answers hget hget', h.answers hexists hexists'⟩
    | some link =>
      obtain ⟨digest, rfl, revision, hrevision⟩ := h.links.current n tag link hlink
      obtain ⟨-, content, hblob⟩ := h.links.revision n digest revision hrevision
      obtain ⟨hresolve, hget, hexists⟩ := answers_of_linked h.links hlink hblob
      obtain ⟨hresolve', hget', hexists'⟩ := answers_of_linked h.links'
        (hown.trans hlink) (h.blobs digest content hblob)
      exact ⟨h.answers hresolve hresolve', h.answers hget hget', h.answers hexists hexists'⟩

theorem tags_alike (h : SeenAlike l n t t') : AnswersAlike l n t t' (tags ⟨l.inMemory, n⟩) := by
  obtain ⟨texts, htags, hincreasing, htexts⟩ := outcome_tags h.laidOut n
  obtain ⟨texts', htags', hincreasing', htexts'⟩ := outcome_tags h.laidOut' n
  have hsame : texts = texts' := by
    refine eq_of_increasing hincreasing hincreasing' fun text => ?_
    rw [htexts, htexts', MemoryStore.IsTagged, MemoryStore.IsTagged]
    simp only [h.own (.currentLink n _) rfl rfl]
  exact h.answers htags (hsame ▸ htags')

theorem requireLayers_alike (h : SeenAlike l n t t') (layers : List Digest) :
    ∃ x, (requireLayers ⟨l.inMemory, n⟩ layers).outcome t = (x, t) ∧
      (requireLayers ⟨l.inMemory, n⟩ layers).outcome t' = (x, t') := by
  induction layers with
  | nil => exact ⟨.ok (), rfl, rfl⟩
  | cons layer rest ih =>
    obtain ⟨-, ⟨x, hstat, hstat'⟩, -⟩ := layer_alike h layer
    rw [requireLayers, outcome_bind, outcome_bind, hstat, hstat']
    cases x with
    | error e => exact ⟨_, rfl, rfl⟩
    | ok descriptor => exact ih

theorem accepts_alike (h : SeenAlike l n t t') {text : String} {m : Manifest} :
    Accepts l t' n text m ↔ Accepts l t n text m := by
  have hvisible : ∀ digest, IsVisible l t' n digest ↔ IsVisible l t n digest := by
    intro digest
    rw [isVisible_iff h.laidOut h.links, isVisible_iff h.laidOut' h.links',
      h.own (.layerLink n digest) rfl rfl]
  constructor
  · exact fun ⟨hvalid, hname, htag, hlayers⟩ =>
      ⟨hvalid, hname, htag, fun layer hlayer => (hvisible layer).1 (hlayers layer hlayer)⟩
  · exact fun ⟨hvalid, hname, htag, hlayers⟩ =>
      ⟨hvalid, hname, htag, fun layer hlayer => (hvisible layer).2 (hlayers layer hlayer)⟩

/-- Both stores have the document then, whether they had it before or not. -/
theorem publish_alike (h : SeenAlike l n t t') (tag : Tag) (document : Bytes) :
    ChangedAlike l n t' (t.publish l n tag document) (t'.publish l n tag document) where
  laidOut := ((h.laidOut.withBlob document).put rfl _).put rfl _
  laidOut' := ((h.laidOut'.withBlob document).put rfl _).put rfl _
  own f hf hown := by
    have hne : f ≠ .blobData (Digest.sha256 document) := by
      rintro rfl
      cases hown
    simp only [MemoryStore.file?_publish, if_neg hne, h.own f hf hown]
  stored digest := by
    simp only [MemoryStore.HasBlob, MemoryStore.file?_publish]
    by_cases hdigest : Resource.blobData digest = .blobData (Digest.sha256 document)
    · simp [hdigest]
    · simp only [hdigest, if_false, reduceCtorEq, false_or]
      exact (ChangedAlike.of_seen h).stored digest

/-- A manifest is taken in both stores, or refused for the same reason. -/
theorem putManifest_alike (h : SeenAlike l n t t') (text : String) (m : SignedManifest) :
    AnswersAlike l n t t' (putManifest ⟨l.inMemory, n⟩ text m) := by
  cases htag : Tag.parse text with
  | error e =>
    have hrefused : ∀ s, (putManifest ⟨l.inMemory, n⟩ text m).outcome s =
        (.error (.invalidTag e), s) := by
      intro s
      rw [putManifest, tagOf, htag]
      rfl
    exact h.answers (hrefused t) (hrefused t')
  | ok tag =>
    by_cases haccepts : Accepts l t n text m.manifest
    · exact ⟨_, _, _, putManifest_accepted htag haccepts,
        putManifest_accepted htag ((accepts_alike h).2 haccepts),
        publish_alike h tag m.raw⟩
    · -- what a manifest is refused for is found out before the blob store is asked
      obtain ⟨e, hrefused⟩ := putManifest_refused (m := m) haccepts
      obtain ⟨e', hrefused'⟩ := putManifest_refused (m := m) (mt (accepts_alike h).1 haccepts)
      have hsame : e = e' := by
        rw [putManifest, tagOf, htag, outcome_bind, outcome_ofExcept] at hrefused hrefused'
        simp only at hrefused hrefused'
        cases hfault : identityFault? ⟨l.inMemory, n⟩ tag m.manifest with
        | some fault =>
          rw [hfault] at hrefused hrefused'
          exact Except.error.inj ((congrArg Prod.fst hrefused).symm.trans
            (congrArg Prod.fst hrefused'))
        | none =>
          obtain ⟨x, hlayers, hlayers'⟩ := requireLayers_alike h m.manifest.layers
          rw [hfault] at hrefused hrefused'
          simp only at hrefused hrefused'
          rw [outcome_bind, hlayers] at hrefused
          rw [outcome_bind, hlayers'] at hrefused'
          cases x with
          | error fault =>
            exact Except.error.inj ((congrArg Prod.fst hrefused).symm.trans
              (congrArg Prod.fst hrefused'))
          | ok _ =>
            obtain ⟨hname, htext⟩ := identityFault?_eq_none_iff.1 hfault
            have hvisible := (requireLayers_ok_iff m.manifest.layers).1 (congrArg Prod.fst hlayers)
            exact absurd ⟨⟨tag, htag⟩, hname, htext.trans (Tag.text_of_parse htag), hvisible⟩
              haccepts
      exact h.answers hrefused (hsame ▸ hrefused')

end Repository

/-! ### Uploads -/

namespace Upload

/-- What is done with a handle is answered the same in both stores, leaves the same handle,
and changes the stores alike. -/
def AnswersAlike (l : Layout) (n : RepositoryName) (t t' : MemoryStore) (u : Upload)
    (action : UploadAction MemoryStore α) : Prop :=
  ∃ x v t₁ t₁', action.outcome (u, t) = (x, (v, t₁)) ∧ action.outcome (u, t') = (x, (v, t₁')) ∧
    ChangedAlike l n t' t₁ t₁'

variable {u : Upload} {bytes : Bytes}

theorem start_alike (h : SeenAlike l n t t') (id : UploadId) (now : Instant) :
    ContainerRegistry.AnswersAlike l n t t' (start ⟨l.inMemory, n⟩ id now) :=
  ⟨_, _, _, outcome_start t n id now, outcome_start t' n id now,
    ((ChangedAlike.of_seen h).put rfl rfl _).put rfl rfl _⟩

theorem resume_alike (h : SeenAlike l n t t') (id : UploadId) :
    ContainerRegistry.AnswersAlike l n t t' (resume ⟨l.inMemory, n⟩ id) := by
  have hown := h.own (.uploadStartedAt n id) rfl rfl
  cases hfile : t.file? (l.path (.uploadStartedAt n id)) with
  | none =>
    exact h.answers (outcome_resume_unknown hfile) (outcome_resume_unknown (hown.trans hfile))
  | some content =>
    exact h.answers (outcome_resume_stored hfile) (outcome_resume_stored (hown.trans hfile))

theorem remove_alike (h : SeenAlike l n t t') (id : UploadId) :
    ContainerRegistry.AnswersAlike l n t t' (remove l.inMemory n id) :=
  ⟨_, _, _, outcome_remove t n id, outcome_remove t' n id, (ChangedAlike.of_seen h).retired id⟩

/-- An action that leaves both stores as they are. -/
theorem answers_of_seen (h : SeenAlike l n t t') {action : UploadAction MemoryStore α}
    {x : Except RegistryError α} {v : Upload} (hx : action.outcome (u, t) = (x, (v, t)))
    (hx' : action.outcome (u, t') = (x, (v, t'))) : AnswersAlike l n t t' u action :=
  ⟨x, v, t, t', hx, hx', .of_seen h⟩

theorem size_alike (h : SeenAlike l n t t') (hn : u.name = n) :
    AnswersAlike l n t t' u (size l.inMemory) := by
  by_cases hstate : u.state = .writing
  · have hown := h.own (.uploadData u.name u.id) rfl (congrArg some hn)
    cases hfile : t.file? (l.path (.uploadData u.name u.id)) with
    | some bytes =>
      exact answers_of_seen h (outcome_size_stored h.laidOut hstate hfile)
        (outcome_size_stored h.laidOut' hstate (hown.trans hfile))
    | none =>
      exact answers_of_seen h (outcome_size_gone h.laidOut hstate hfile)
        (outcome_size_gone h.laidOut' hstate (hown.trans hfile))
  · exact answers_of_seen h (outcome_size_closed _ hstate) (outcome_size_closed _ hstate)

theorem write_alike (h : SeenAlike l n t t') (hn : u.name = n) (htracks : u.Tracks l t)
    (offset : Nat) (source : Source) :
    AnswersAlike l n t t' u (write l.inMemory offset source) := by
  by_cases hstate : u.state = .writing
  · have hown := h.own (.uploadData u.name u.id) rfl (congrArg some hn)
    cases hfile : t.file? (l.path (.uploadData u.name u.id)) with
    | none =>
      exact answers_of_seen h (outcome_write_gone h.laidOut hstate hfile offset source)
        (outcome_write_gone h.laidOut' hstate (hown.trans hfile) offset source)
    | some bytes =>
      have hfile' := hown.trans hfile
      by_cases hoffset : offset = bytes.length
      · have hwrite := outcome_write_stored h.laidOut hstate hfile (htracks bytes hfile) source
        have hwrite' := outcome_write_stored h.laidOut' hstate hfile' (htracks bytes hfile) source
        rw [← hoffset] at hwrite hwrite'
        cases hfailure : source.failure with
        | some e =>
          rw [hfailure] at hwrite hwrite'
          exact answers_of_seen h hwrite hwrite'
        | none =>
          rw [hfailure] at hwrite hwrite'
          exact ⟨_, _, _, _, hwrite, hwrite',
            (ChangedAlike.of_seen h).put (a := .uploadData u.name u.id) rfl (congrArg some hn) _⟩
      · exact answers_of_seen h (outcome_write_offset h.laidOut hstate hfile hoffset source)
          (outcome_write_offset h.laidOut' hstate hfile' hoffset source)
  · exact answers_of_seen h (outcome_write_closed _ hstate offset source)
      (outcome_write_closed _ hstate offset source)

theorem cancel_alike (h : SeenAlike l n t t') (hn : u.name = n) :
    AnswersAlike l n t t' u (cancel l.inMemory) := by
  cases hstate : u.state with
  | writing =>
    refine ⟨_, _, _, _, outcome_cancel_writing hstate, outcome_cancel_writing hstate, ?_⟩
    rw [hn]
    exact (ChangedAlike.of_seen h).retired u.id
  | finished =>
    exact answers_of_seen h (outcome_cancel_finished _ hstate) (outcome_cancel_finished _ hstate)
  | cancelled =>
    exact answers_of_seen h (outcome_cancel_cancelled _ hstate) (outcome_cancel_cancelled _ hstate)

/-- What is in each file after an upload was finished. -/
theorem file?_finished (ht : t.LaidOut l) {id : UploadId}
    (hfile : t.file? (l.path (.uploadData n id)) = some bytes) (expected : Digest) {f : Resource}
    (hf : f.isFile = true) :
    ((t.settled l n id expected).committed l n id expected).file? (l.path f) =
      if f = .uploadData n id ∨ f = .uploadStartedAt n id then none
      else if f = .layerLink n expected then
        some (Bytes.ofText (l.path (.blobData expected)).text)
      else if f = .blobData expected then
        some ((t.file? (l.path (.blobData expected))).getD bytes)
      else t.file? (l.path f) := by
  rw [(ht.settled hfile expected).file?_committed hf]
  by_cases hupload : f = .uploadData n id ∨ f = .uploadStartedAt n id
  · rw [if_pos hupload, if_pos hupload]
  · rw [if_neg hupload, if_neg hupload, ht.file?_settled hfile (not_or.1 hupload).1]

/-- The bytes are moved into the blob store or discarded, and it cannot be told which. -/
theorem finished_alike (h : SeenAlike l n t t') {id : UploadId}
    (hfile : t.file? (l.path (.uploadData n id)) = some bytes) (expected : Digest) :
    ChangedAlike l n t' ((t.settled l n id expected).committed l n id expected)
      ((t'.settled l n id expected).committed l n id expected) := by
  have hfile' := (h.own (.uploadData n id) rfl rfl).trans hfile
  constructor
  case laidOut => exact (h.laidOut.settled hfile expected).committed n id expected
  case laidOut' => exact (h.laidOut'.settled hfile' expected).committed n id expected
  case own =>
    intro f hf hown
    have hne : f ≠ .blobData expected := by
      rintro rfl
      cases hown
    rw [file?_finished h.laidOut hfile expected hf, file?_finished h.laidOut' hfile' expected hf,
      if_neg hne, if_neg hne, h.own f hf hown]
  case stored =>
    intro digest
    simp only [MemoryStore.HasBlob, file?_finished h.laidOut hfile expected
      (f := .blobData digest) rfl, file?_finished h.laidOut' hfile' expected
      (f := .blobData digest) rfl]
    by_cases hdigest : Resource.blobData digest = .blobData expected
    · simp [hdigest]
    · simp only [hdigest, if_false, reduceCtorEq, or_self]
      exact (ChangedAlike.of_seen h).stored digest

/-- Where digests tell contents apart, a finish cannot tell whether its blob was there. -/
theorem finish_alike {contents : Bytes → Prop} (h : SeenAlike l n t t') (hn : u.name = n)
    (hfile : t.file? (l.path (.uploadData u.name u.id)) = some bytes) (hcovers : u.Covers bytes)
    (haddressed : t'.Addressed l contents) (hseparates : Digest.Separates contents)
    (hbytes : contents bytes) (expected : Digest) :
    AnswersAlike l n t t' u (finish l.inMemory expected) := by
  subst hn
  by_cases hstate : u.state = .writing
  · have hfile' := (h.own (.uploadData u.name u.id) rfl rfl).trans hfile
    by_cases hdigest : Digest.ofBytes expected.algorithm bytes = expected
    · have hblob : (t'.file? (l.path (.blobData expected))).getD bytes =
          (t.file? (l.path (.blobData expected))).getD bytes := by
        cases hstored : t.file? (l.path (.blobData expected)) with
        | some content => rw [h.blobs expected content hstored]
        | none =>
          cases hstored' : t'.file? (l.path (.blobData expected)) with
          | none => rfl
          | some content =>
            obtain ⟨hcontent, hamong⟩ := haddressed expected content hstored'
            exact hseparates expected.algorithm content bytes hamong hbytes
              (hcontent.trans hdigest.symm)
      have hfinish' := outcome_finish_match h.laidOut' hstate hfile' hcovers hdigest
      rw [hblob] at hfinish'
      exact ⟨_, _, _, _, outcome_finish_match h.laidOut hstate hfile hcovers hdigest, hfinish',
        finished_alike h hfile expected⟩
    · exact answers_of_seen h (outcome_finish_mismatch h.laidOut hstate hfile hcovers hdigest)
        (outcome_finish_mismatch h.laidOut' hstate hfile' hcovers hdigest)
  · exact answers_of_seen h (outcome_finish_closed _ hstate expected)
      (outcome_finish_closed _ hstate expected)

end Upload
end ContainerRegistry
