/-
# The manifests of a registry are a map from tags

A history is what happens on storage that does not fail, with a list of the
documents that were put in on the way, each under its repository and tag. The
links of the store are that list and nothing else: there is a revision link for
each document that was put into a repository, and a tag's link names the last one
that was put in under it (`Recorded`), because no other operation touches a link
of a manifest. Where canonical digests tell the stored contents apart, all that is answered
about manifests can therefore be read off the list (`TagMap`).

Key definitions: `Publication`, `Operation.publishes`, `History`,
`Publication.latest?`, `Recorded`, `History.Separated`, `TagMap`.
Key theorems: `Recorded.next`, `History.recorded`, `History.tagMap`.
-/
import ContainerRegistry.Proofs.Listing
import ContainerRegistry.Proofs.Publish
import ContainerRegistry.Proofs.Signing

namespace ContainerRegistry

open ContainerRegistry.Action

/-- A document that was put into a repository under a tag. -/
structure Publication where
  name : RepositoryName
  tag : Tag
  document : Bytes
  deriving DecidableEq

namespace Publication

/-- The digest that a document goes by. -/
def digest (p : Publication) : Digest :=
  Digest.sha256 p.document

/-- The last document that was put into a repository under a tag. -/
def latest? (published : List Publication) (n : RepositoryName) (tag : Tag) : Option Publication :=
  (published.filter fun p => p.name = n ∧ p.tag = tag).getLast?

theorem latest?_concat (published : List Publication) (p : Publication) (n : RepositoryName)
    (tag : Tag) : latest? (published ++ [p]) n tag =
      if p.name = n ∧ p.tag = tag then some p else latest? published n tag := by
  unfold latest?
  rw [List.filter_append]
  by_cases hp : p.name = n ∧ p.tag = tag
  · rw [if_pos hp, List.filter_cons_of_pos (by simpa using hp), List.filter_nil,
      List.getLast?_concat]
  · rw [if_neg hp, List.filter_cons_of_neg (by simpa using hp), List.filter_nil, List.append_nil]

theorem latest?_eq_some {published : List Publication} {n : RepositoryName} {tag : Tag}
    {p : Publication} (h : latest? published n tag = some p) :
    p ∈ published ∧ p.name = n ∧ p.tag = tag := by
  have hmem := List.mem_of_getLast? h
  simpa using hmem

theorem latest?_eq_none_iff {published : List Publication} {n : RepositoryName} {tag : Tag} :
    latest? published n tag = none ↔ ∀ p ∈ published, ¬ (p.name = n ∧ p.tag = tag) := by
  simp [latest?]

end Publication

/-- What an operation puts in, on storage that does not fail. -/
def Operation.publishes (l : Layout) (w : World) : Operation → List Publication
  | putManifest n text document =>
    match SignedManifest.parse document, Tag.parse text with
    | .ok m, .ok tag =>
      match ((Repository.putManifest ⟨l.inMemory, n⟩ text m).outcome w.store).1 with
      | .ok _ => [⟨n, tag, document⟩]
      | .error _ => []
    | _, _ => []
  | _ => []

/-- The worlds that operations lead to on storage that does not fail, and what was
put in on the way, in order. -/
inductive History (l : Layout) : World → List Publication → Prop where
  | empty : History l World.empty []
  | step {w : World} {published : List Publication} (history : History l w published)
      (op : Operation) (fresh : op.IsFresh w) :
      History l (w.after l MemoryStore.reliable w.store op) (published ++ op.publishes l w)

/-- All that a registry answers about manifests follows from what was put in. -/
structure TagMap (l : Layout) (w : World) (published : List Publication) : Prop where
  /-- A manifest is put in when the tag is one, the manifest bears the names of the
  repository and the tag, and the repository has all its layers. -/
  put_ok_iff : ∀ (n : RepositoryName) (text : String) (m : SignedManifest),
    (∃ digest, w.answer (Repository.putManifest ⟨l.inMemory, n⟩ text m) = .ok digest) ↔
      (∃ tag, Tag.parse text = .ok tag) ∧ m.manifest.name = n.text ∧ m.manifest.tag = text ∧
        ∀ layer ∈ m.manifest.layers,
          w.answer (Repository.layerExists ⟨l.inMemory, n⟩ layer) = .ok true
  /-- It goes by the digest of its document. -/
  put_digest : ∀ (n : RepositoryName) (text : String) (m : SignedManifest) (digest : Digest),
    w.answer (Repository.putManifest ⟨l.inMemory, n⟩ text m) = .ok digest →
      digest = Digest.sha256 m.raw
  /-- A manifest that is not put in changes nothing. -/
  put_failed : ∀ (n : RepositoryName) (text : String) (m : SignedManifest) (e : RegistryError),
    w.answer (Repository.putManifest ⟨l.inMemory, n⟩ text m) = .error e →
      ((Repository.putManifest ⟨l.inMemory, n⟩ text m).outcome w.store).2 = w.store
  /-- A tag means what was put in under it last. -/
  tagged : ∀ (n : RepositoryName) (tag : Tag) (p : Publication),
    Publication.latest? published n tag = some p →
      w.answer (Repository.resolveTag ⟨l.inMemory, n⟩ tag.text) = .ok p.digest ∧
        ∃ m, w.answer (Repository.manifest ⟨l.inMemory, n⟩ tag.text) = .ok m ∧ m.raw = p.document
  /-- A tag under which nothing was put in is unknown. -/
  untagged : ∀ (n : RepositoryName) (tag : Tag), Publication.latest? published n tag = none →
    w.answer (Repository.resolveTag ⟨l.inMemory, n⟩ tag.text) =
        .error (.manifestUnknown n tag.text) ∧
      w.answer (Repository.manifest ⟨l.inMemory, n⟩ tag.text) =
        .error (.manifestUnknown n tag.text)
  /-- A digest means the document that was put into the repository and has it. -/
  byDigest : ∀ (n : RepositoryName) (digest : Digest) (raw : Bytes),
    (∃ m, w.answer (Repository.manifestByDigest ⟨l.inMemory, n⟩ digest) = .ok m ∧ m.raw = raw) ↔
      ∃ p ∈ published, p.name = n ∧ p.document = raw ∧ p.digest = digest
  /-- A tag is said to exist when its manifest is answered. -/
  exists_iff : ∀ (n : RepositoryName) (tag : Tag), ∃ b,
    w.answer (Repository.manifestExists ⟨l.inMemory, n⟩ tag.text) = .ok b ∧
      (b = true ↔ ∃ m, w.answer (Repository.manifest ⟨l.inMemory, n⟩ tag.text) = .ok m)
  /-- The tags of a repository are those under which something was put in. -/
  tags : ∀ n : RepositoryName, ∃ texts,
    w.answer (Repository.tags ⟨l.inMemory, n⟩) = .ok texts ∧ texts.Pairwise (· < ·) ∧
      ∀ text, text ∈ texts ↔ ∃ p ∈ published, p.name = n ∧ p.tag.text = text

variable {l : Layout} {w : World} {published : List Publication} {op : Operation}

/-! ### What is recorded in links -/

/-- The links of manifests are what was put in. -/
structure Recorded (l : Layout) (t : MemoryStore) (published : List Publication) : Prop where
  /-- What was put in reads as a manifest. -/
  parsed : ∀ p ∈ published, ∃ m, SignedManifest.parse p.document = .ok m
  revision : ∀ n digest, (∃ link, t.file? (l.path (.revisionLink n digest)) = some link) ↔
    ∃ p ∈ published, p.name = n ∧ p.digest = digest
  current : ∀ n tag, t.file? (l.path (.currentLink n tag)) =
    (Publication.latest? published n tag).map fun p => Bytes.ofText p.digest.toText

theorem recorded_empty : Recorded l MemoryStore.empty [] where
  parsed _ h := by cases h
  revision n digest := by
    constructor
    · rintro ⟨link, hlink⟩
      exact absurd hlink (MemoryStore.file?_empty_ne _ _)
    · rintro ⟨p, hp, -⟩
      cases hp
  current n tag := by
    refine Option.eq_none_iff_forall_ne_some.2 fun link hlink => ?_
    exact MemoryStore.file?_empty_ne _ _ hlink

/-- The record depends on the links alone. -/
theorem Recorded.congr {t t' : MemoryStore} (h : Recorded l t published)
    (hrevision : ∀ n digest, t'.file? (l.path (.revisionLink n digest)) =
      t.file? (l.path (.revisionLink n digest)))
    (hcurrent : ∀ n tag, t'.file? (l.path (.currentLink n tag)) =
      t.file? (l.path (.currentLink n tag))) : Recorded l t' published where
  parsed := h.parsed
  revision n digest := by
    rw [hrevision]
    exact h.revision n digest
  current n tag := by
    rw [hcurrent]
    exact h.current n tag

/-- Publishing a document is recorded. -/
theorem Recorded.publish {t : MemoryStore} (h : Recorded l t published) (p : Publication)
    {m : SignedManifest} (hparsed : SignedManifest.parse p.document = .ok m) :
    Recorded l (t.publish l p.name p.tag p.document) (published ++ [p]) where
  parsed q hq := by
    rcases List.mem_append.1 hq with hq | hq
    · exact h.parsed q hq
    · rw [List.mem_singleton.1 hq]
      exact ⟨m, hparsed⟩
  revision n digest := by
    rw [MemoryStore.file?_publish]
    by_cases hown : Resource.revisionLink n digest =
        .revisionLink p.name (Digest.sha256 p.document)
    · obtain ⟨rfl, rfl⟩ := Resource.revisionLink.inj hown
      rw [if_pos (Or.inr rfl)]
      constructor
      · exact fun _ => ⟨p, List.mem_append_right _ (List.mem_singleton_self p), rfl, rfl⟩
      · exact fun _ => ⟨_, rfl⟩
    · rw [if_neg (not_or.2 ⟨by simp, hown⟩), if_neg (by simp), h.revision]
      constructor
      · rintro ⟨q, hq, hname, hdigest⟩
        exact ⟨q, List.mem_append_left _ hq, hname, hdigest⟩
      · rintro ⟨q, hq, rfl, rfl⟩
        rcases List.mem_append.1 hq with hq | hq
        · exact ⟨q, hq, rfl, rfl⟩
        · rw [List.mem_singleton.1 hq] at hown
          exact absurd rfl hown
  current n tag := by
    rw [MemoryStore.file?_publish, Publication.latest?_concat]
    by_cases hown : p.name = n ∧ p.tag = tag
    · obtain ⟨rfl, rfl⟩ := hown
      rw [if_pos (Or.inl rfl), if_pos ⟨rfl, rfl⟩]
      rfl
    · have hne : Resource.currentLink n tag ≠ .currentLink p.name p.tag := by
        intro he
        obtain ⟨rfl, rfl⟩ := Resource.currentLink.inj he
        exact hown ⟨rfl, rfl⟩
      rw [if_neg (not_or.2 ⟨hne, by simp⟩), if_neg (by simp), if_neg hown]
      exact h.current n tag

/-- An operation publishes one document, or it leaves all links of manifests alone. -/
theorem Operation.publishes_cases (ht : w.store.LaidOut l) (op : Operation) :
    (∃ p m, op.publishes l w = [p] ∧ SignedManifest.parse p.document = .ok m ∧
      (w.after l MemoryStore.reliable w.store op).store =
        w.store.publish l p.name p.tag p.document) ∨
    (op.publishes l w = [] ∧ ∀ f : Resource,
      (∃ n digest, f = .revisionLink n digest) ∨ (∃ n tag, f = .currentLink n tag) →
      (w.after l MemoryStore.reliable w.store op).store.file? (l.path f) =
        w.store.file? (l.path f)) := by
  have hquiet : (∀ f : Resource, (∃ n digest, f = .revisionLink n digest) ∨
      (∃ n tag, f = .currentLink n tag) → ¬ op.Touches w f) →
      ∀ f : Resource, (∃ n digest, f = .revisionLink n digest) ∨
        (∃ n tag, f = .currentLink n tag) →
      (w.after l MemoryStore.reliable w.store op).store.file? (l.path f) =
        w.store.file? (l.path f) := by
    intro hnot f hf
    refine World.after_touches (d := MemoryStore.reliable) ht trivial rfl ?_ (hnot f hf)
    rcases hf with ⟨n, digest, rfl⟩ | ⟨n, tag, rfl⟩ <;> rfl
  cases op with
  | putManifest n text document =>
    simp only [publishes]
    cases hparsed : SignedManifest.parse document with
    | error e =>
      refine Or.inr ⟨rfl, hquiet fun f hf => ?_⟩
      rintro ⟨m, hm, -⟩
      cases hm.symm.trans hparsed
    | ok m =>
      obtain rfl := SignedManifest.raw_of_parse hparsed
      have hstore : (w.after l MemoryStore.reliable w.store (.putManifest n text m.raw)).store =
          ((Repository.putManifest ⟨l.inMemory, n⟩ text m).outcome w.store).2 := by
        simp only [World.after, World.next, Session.act, hparsed]
        rfl
      by_cases haccepts : Repository.Accepts l w.store n text m.manifest
      · obtain ⟨tag, htag⟩ := haccepts.valid
        have hput := Repository.putManifest_accepted htag haccepts
        refine Or.inl ⟨⟨n, tag, m.raw⟩, m, ?_, hparsed, ?_⟩
        · simp only [htag, hput]
        · rw [hstore, hput]
      · obtain ⟨e, hput⟩ := Repository.putManifest_refused haccepts
        refine Or.inr ⟨?_, fun f _ => ?_⟩
        · cases Tag.parse text <;> simp only [hput]
        · rw [hstore, hput]
  | start | resume | size | write | finish | cancel | cancelUpload | mount | deleteManifest
  | blobExists | blobStat | blobOpen | layerExists | layerStat | layerOpen | resolveTag | manifest
  | manifestByDigest | manifestExists | tags | catalog =>
    refine Or.inr ⟨rfl, hquiet fun f hf => ?_⟩
    rcases hf with ⟨n, digest, rfl⟩ | ⟨n, tag, rfl⟩ <;> simp [Touches]

/-- **Every operation keeps the record.** -/
theorem Recorded.next (h : Recorded l w.store published) (ht : w.store.LaidOut l)
    (op : Operation) : Recorded l (w.after l MemoryStore.reliable w.store op).store
      (published ++ op.publishes l w) := by
  rcases op.publishes_cases ht with ⟨p, m, hone, hparsed, hstore⟩ | ⟨hnone, hlinks⟩
  · rw [hone, hstore]
    exact h.publish p hparsed
  · rw [hnone, List.append_nil]
    exact h.congr (fun n digest => hlinks _ (Or.inl ⟨n, digest, rfl⟩))
      fun n tag => hlinks _ (Or.inr ⟨n, tag, rfl⟩)

namespace History

theorem reachable (h : History l w published) : Reachable l w := by
  induction h with
  | empty => exact .empty
  | step _ op fresh ih => exact ih.inMemory op fresh

/-- Pushing content puts no manifest in. -/
theorem run_pushing (h : History l w published) (n : RepositoryName) (id : UploadId)
    (hfresh : (n, id) ∉ w.drawn) (content : Bytes) (algorithm : Algorithm) :
    History l (w.run l (Operation.pushing w.handles.length n id content algorithm)) published := by
  have hstart := h.step (.start n id ⟨0, 0, 0⟩) fun key hkey => List.mem_singleton.1 hkey ▸ hfresh
  have hwrite := hstart.step (.write w.handles.length 0 (.ofBytes content))
    fun key hkey => by cases hkey
  have hfinish := hwrite.step (.finish w.handles.length (Digest.ofBytes algorithm content))
    fun key hkey => by cases hkey
  simp only [Operation.publishes, List.append_nil] at hfinish
  exact hfinish

/-- **The links of a history are what was put in.** -/
theorem recorded (h : History l w published) : Recorded l w.store published := by
  induction h with
  | empty => exact recorded_empty
  | step history op _ ih => exact ih.next history.reachable.inv.laidOut op

/-! ### Reading the record -/

/-- The contents that a history has to do with: those that are stored as blobs, and
the documents that were put in. -/
def Contents (l : Layout) (w : World) (published : List Publication) (content : Bytes) : Prop :=
  (∃ digest, w.store.file? (l.path (.blobData digest)) = some content) ∨
    ∃ p ∈ published, p.document = content

/-- Canonical digests tell apart the contents that a history has to do with. -/
def Separated (l : Layout) (w : World) (published : List Publication) : Prop :=
  ∀ x y, Contents l w published x → Contents l w published y →
    Digest.sha256 x = Digest.sha256 y → x = y

/-- What was put in is stored under its digest. -/
theorem document_stored (h : History l w published)
    (hseparated : Separated l w published) {p : Publication}
    (hp : p ∈ published) : w.store.file? (l.path (.blobData p.digest)) = some p.document := by
  obtain ⟨link, hlink⟩ := (h.recorded.revision p.name p.digest).2 ⟨p, hp, rfl, rfl⟩
  obtain ⟨-, content, hblob⟩ := h.reachable.linksPoint.revision p.name p.digest link hlink
  have haddressed := (h.reachable.inv.addressed p.digest content hblob).1
  rw [hblob, hseparated content p.document (Or.inl ⟨_, hblob⟩) (Or.inr ⟨p, hp, rfl⟩) haddressed]

theorem answers_of_latest (h : History l w published)
    (hseparated : Separated l w published) {n : RepositoryName} {tag : Tag}
    {p : Publication} (hlatest : Publication.latest? published n tag = some p) :
    w.answer (Repository.resolveTag ⟨l.inMemory, n⟩ tag.text) = .ok p.digest ∧
      (∃ m, w.answer (Repository.manifest ⟨l.inMemory, n⟩ tag.text) = .ok m ∧
        m.raw = p.document) ∧
      w.answer (Repository.manifestExists ⟨l.inMemory, n⟩ tag.text) = .ok true := by
  obtain ⟨hp, -, -⟩ := Publication.latest?_eq_some hlatest
  obtain ⟨m, hparsed⟩ := h.recorded.parsed p hp
  have hlink : w.store.file? (l.path (.currentLink n tag)) =
      some (Bytes.ofText p.digest.toText) := by
    rw [h.recorded.current, hlatest, Option.map_some]
  obtain ⟨hresolve, hmanifest, hexists⟩ := Repository.answers_of_linked h.reachable.linksPoint
    hlink (h.document_stored hseparated hp)
  refine ⟨congrArg Prod.fst hresolve, ⟨m, ?_, SignedManifest.raw_of_parse hparsed⟩,
    congrArg Prod.fst hexists⟩
  rw [World.answer, hmanifest, hparsed]
  rfl

theorem answers_of_no_latest (h : History l w published) {n : RepositoryName} {tag : Tag}
    (hlatest : Publication.latest? published n tag = none) :
    w.answer (Repository.resolveTag ⟨l.inMemory, n⟩ tag.text) =
        .error (.manifestUnknown n tag.text) ∧
      w.answer (Repository.manifest ⟨l.inMemory, n⟩ tag.text) =
        .error (.manifestUnknown n tag.text) ∧
      w.answer (Repository.manifestExists ⟨l.inMemory, n⟩ tag.text) = .ok false := by
  have hlink : w.store.file? (l.path (.currentLink n tag)) = none := by
    rw [h.recorded.current, hlatest, Option.map_none]
  obtain ⟨hresolve, hmanifest, hexists⟩ := Repository.answers_of_unlinked hlink
  exact ⟨congrArg Prod.fst hresolve, congrArg Prod.fst hmanifest, congrArg Prod.fst hexists⟩

theorem manifestByDigest_iff (h : History l w published)
    (hseparated : Separated l w published) (n : RepositoryName) (digest : Digest)
    (raw : Bytes) :
    (∃ m, w.answer (Repository.manifestByDigest ⟨l.inMemory, n⟩ digest) = .ok m ∧ m.raw = raw) ↔
      ∃ p ∈ published, p.name = n ∧ p.document = raw ∧ p.digest = digest := by
  constructor
  · rintro ⟨m, hanswer, rfl⟩
    cases hlink : w.store.file? (l.path (.revisionLink n digest)) with
    | none =>
      rw [World.answer, Repository.manifestByDigest_unlinked hlink] at hanswer
      cases hanswer
    | some link =>
      obtain ⟨p, hp, hname, rfl⟩ := (h.recorded.revision n digest).1 ⟨link, hlink⟩
      rw [World.answer, Repository.manifestByDigest_linked h.reachable.linksPoint hlink
        (h.document_stored hseparated hp)] at hanswer
      exact ⟨p, hp, hname, (SignedManifest.raw_of_parse hanswer).symm, rfl⟩
  · rintro ⟨p, hp, rfl, rfl, rfl⟩
    obtain ⟨link, hlink⟩ := (h.recorded.revision p.name p.digest).2 ⟨p, hp, rfl, rfl⟩
    obtain ⟨m, hparsed⟩ := h.recorded.parsed p hp
    refine ⟨m, ?_, SignedManifest.raw_of_parse hparsed⟩
    rw [World.answer, Repository.manifestByDigest_linked h.reachable.linksPoint hlink
      (h.document_stored hseparated hp)]
    exact hparsed

theorem tags_exact (h : History l w published) (n : RepositoryName) :
    ∃ texts, w.answer (Repository.tags ⟨l.inMemory, n⟩) = .ok texts ∧ texts.Pairwise (· < ·) ∧
      ∀ text, text ∈ texts ↔ ∃ p ∈ published, p.name = n ∧ p.tag.text = text := by
  obtain ⟨texts, houtcome, hincreasing, hmem⟩ :=
    Repository.outcome_tags h.reachable.inv.laidOut n
  refine ⟨texts, congrArg Prod.fst houtcome, hincreasing, fun text => (hmem text).trans ?_⟩
  constructor
  · rintro ⟨tag, link, rfl, hlink⟩
    rw [h.recorded.current, Option.map_eq_some_iff] at hlink
    obtain ⟨p, hlatest, -⟩ := hlink
    obtain ⟨hp, hname, rfl⟩ := Publication.latest?_eq_some hlatest
    exact ⟨p, hp, hname, rfl⟩
  · rintro ⟨p, hp, rfl, rfl⟩
    have hsome : Publication.latest? published p.name p.tag ≠ none := fun hnone =>
      Publication.latest?_eq_none_iff.1 hnone p hp ⟨rfl, rfl⟩
    obtain ⟨q, hlatest⟩ := Option.ne_none_iff_exists'.1 hsome
    refine ⟨p.tag, Bytes.ofText q.digest.toText, rfl, ?_⟩
    rw [h.recorded.current, hlatest, Option.map_some]

/-- **The manifests of a registry are a map from tags**, if canonical digests tell apart
the contents that a history has to do with. -/
theorem tagMap (h : History l w published)
    (hseparated : Separated l w published) : TagMap l w published := by
  have ht := h.reachable.inv.laidOut
  constructor
  case put_ok_iff =>
    intro n text m
    constructor
    · rintro ⟨digest, hanswer⟩
      by_contra hnot
      have hrefused : ¬ Repository.Accepts l w.store n text m.manifest :=
        fun ha => hnot ⟨ha.valid, ha.name, ha.tag, ha.visible⟩
      obtain ⟨e, hput⟩ := Repository.putManifest_refused hrefused
      rw [World.answer, hput] at hanswer
      cases hanswer
    · rintro ⟨⟨tag, htag⟩, hname, htext, hvisible⟩
      exact ⟨m.digest, congrArg Prod.fst
        (Repository.putManifest_accepted htag ⟨⟨tag, htag⟩, hname, htext, hvisible⟩)⟩
  case put_digest =>
    intro n text m digest hanswer
    by_cases haccepts : Repository.Accepts l w.store n text m.manifest
    · obtain ⟨tag, htag⟩ := haccepts.valid
      rw [World.answer, Repository.putManifest_accepted htag haccepts] at hanswer
      exact (Except.ok.inj hanswer).symm
    · obtain ⟨e, hput⟩ := Repository.putManifest_refused haccepts
      rw [World.answer, hput] at hanswer
      cases hanswer
  case put_failed =>
    intro n text m e hanswer
    by_cases haccepts : Repository.Accepts l w.store n text m.manifest
    · obtain ⟨tag, htag⟩ := haccepts.valid
      rw [World.answer, Repository.putManifest_accepted htag haccepts] at hanswer
      cases hanswer
    · obtain ⟨e, hput⟩ := Repository.putManifest_refused haccepts
      rw [hput]
  case tagged =>
    intro n tag p hlatest
    obtain ⟨hresolve, hmanifest, -⟩ := h.answers_of_latest hseparated hlatest
    exact ⟨hresolve, hmanifest⟩
  case untagged =>
    intro n tag hlatest
    obtain ⟨hresolve, hmanifest, -⟩ := h.answers_of_no_latest hlatest
    exact ⟨hresolve, hmanifest⟩
  case byDigest => exact h.manifestByDigest_iff hseparated
  case exists_iff =>
    intro n tag
    cases hlatest : Publication.latest? published n tag with
    | some p =>
      obtain ⟨-, ⟨m, hmanifest, -⟩, hexists⟩ := h.answers_of_latest hseparated hlatest
      exact ⟨true, hexists, fun _ => ⟨m, hmanifest⟩, fun _ => rfl⟩
    | none =>
      obtain ⟨-, hmanifest, hexists⟩ := h.answers_of_no_latest hlatest
      refine ⟨false, hexists, ?_, ?_⟩
      · intro hfalse
        cases hfalse
      · rintro ⟨m, hm⟩
        cases hmanifest.symm.trans hm
  case tags => exact h.tags_exact

/-- Two contents are told apart if their digests differ. -/
theorem separated_of_two {a b : Bytes} (hne : Digest.sha256 a ≠ Digest.sha256 b)
    (h : ∀ content, Contents l w published content → content = a ∨ content = b) :
    Separated l w published := by
  intro x y hx hy hdigest
  rcases h x hx with rfl | rfl <;> rcases h y hy with rfl | rfl
  · rfl
  · exact absurd hdigest hne
  · exact absurd hdigest.symm hne
  · rfl

/-- A signed manifest of one layer can be put into its repository after the layer was pushed. -/
theorem exists_put {m : SignedManifest} (hparse : SignedManifest.parse m.raw = .ok m)
    {n : RepositoryName} (tag : Tag) (hname : m.manifest.name = n.text)
    (htag : m.manifest.tag = tag.text) (hvalid : Tag.parse tag.text = .ok tag) {content : Bytes}
    (hlayers : ∀ layer ∈ m.manifest.layers, layer = Digest.sha256 content)
    (hne : Digest.sha256 m.raw ≠ Digest.sha256 content) (id : UploadId) :
    ∃ w, History l w [⟨n, tag, m.raw⟩] ∧ Separated l w [⟨n, tag, m.raw⟩] := by
  have hfresh : (n, id) ∉ World.empty.drawn := by simp [World.empty]
  obtain ⟨w, hrun, hw, hoffered, haccepts⟩ := Reachable.run_pushing_accepts (l := l) .empty id
    hfresh content .sha256 hname htag hvalid hlayers
  have hhistory : History l w [] := hrun ▸ History.empty.run_pushing n id hfresh content .sha256
  have hput := Repository.putManifest_accepted hvalid haccepts
  have hpublishes : Operation.publishes l w (.putManifest n tag.text m.raw) =
      [⟨n, tag, m.raw⟩] := by
    simp only [Operation.publishes, hparse, hvalid, hput]
  have hnext := hhistory.step (.putManifest n tag.text m.raw) fun key hkey => by cases hkey
  rw [hpublishes, List.nil_append] at hnext
  refine ⟨_, hnext, separated_of_two hne ?_⟩
  rintro x (⟨digest, hblob⟩ | ⟨p, hp, rfl⟩)
  · have hmem := (hnext.reachable.inv.addressed digest x hblob).2
    simpa [World.after, World.next, Operation.offers, hparse, hoffered, World.empty] using hmem
  · rw [List.mem_singleton.1 hp]
    exact Or.inl rfl

/-- The document is not taken for the layer. -/
theorem sha256_sample_ne : Digest.sha256 SignedManifest.sample.raw ≠ Digest.sha256 [1] := by
  decide +kernel

theorem tagMap_sample : ∃ w p, History default w [p] ∧ Separated default w [p] ∧
    TagMap default w [p] := by
  obtain ⟨w, hhistory, hseparated⟩ := exists_put (l := default) SignedManifest.parse_sample
    (n := ⟨"team/one", by decide⟩) ⟨"v1", by decide⟩ rfl rfl rfl
    (fun _ hlayer => List.mem_singleton.1 hlayer) sha256_sample_ne
    ⟨"00000000-0000-0000-0000-000000000001", by decide⟩
  exact ⟨w, _, hhistory, hseparated, tagMap hhistory hseparated⟩

end History
end ContainerRegistry
