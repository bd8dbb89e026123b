/-
# What operations may do to a store

Every change that an operation makes to a store is an edit: a file stays as it
is, or it is written as `Puts` allows, or it belongs to an upload and goes away.
`Puts` says once what each kind of file may be given and what must be in the
store by then, so that what all operations preserve follows from it alone, and
what one operation does has to be looked at once.

Key definitions: `Intent`, `Puts`, `Edit`, `Edits`, `MemoryStore.Addressed`,
`Digest.Separates`.
Key theorems: `Edit.put`, `Edit.move`, `Edit.remove`, `Edit.blob_kept`,
`Edits.addressed`, `Edits.exists_file`, `Edits.upload_file`.
-/
import ContainerRegistry.Manifest.Signed
import ContainerRegistry.Proofs.Memory
import Mathlib.Logic.Relation

namespace ContainerRegistry

/-- What an operation sets out to do. -/
structure Intent where
  /-- The uploads that it writes into. -/
  writes : RepositoryName → UploadId → Prop
  /-- The contents that it offers for storing. -/
  offers : Bytes → Prop

/-- Whether a resource goes away with an upload. -/
def Resource.isTransient : Resource → Bool
  | uploadData _ _ | uploadStartedAt _ _ => true
  | _ => false

/-- What may be written where, into a store. -/
inductive Puts (l : Layout) (i : Intent) (s : MemoryStore) : Resource → Bytes → Prop where
  | data {n id bytes} (writes : i.writes n id) : Puts l i s (.uploadData n id) bytes
  | startedAt {n id bytes} (writes : i.writes n id) : Puts l i s (.uploadStartedAt n id) bytes
  | blob {digest content} (addressed : Digest.ofBytes digest.algorithm content = digest)
      (offered : i.offers content) : Puts l i s (.blobData digest) content
  | layer {n digest content} (stored : s.file? (l.path (.blobData digest)) = some content) :
      Puts l i s (.layerLink n digest) (Bytes.ofText (l.path (.blobData digest)).text)
  | revision {n m content} (offered : i.offers m.raw) (parsed : SignedManifest.parse m.raw = .ok m)
      (name : m.manifest.name = n.text)
      (layers : ∀ digest ∈ m.manifest.layers,
        ∃ link, s.file? (l.path (.layerLink n digest)) = some link)
      (stored : s.file? (l.path (.blobData m.digest)) = some content) :
      Puts l i s (.revisionLink n m.digest) (Bytes.ofText m.digest.toText)
  | current {n tag m link} (offered : i.offers m.raw) (parsed : SignedManifest.parse m.raw = .ok m)
      (tagged : m.manifest.tag = tag.text)
      (linked : s.file? (l.path (.revisionLink n m.digest)) = some link) :
      Puts l i s (.currentLink n tag) (Bytes.ofText m.digest.toText)

/-- Digests tell certain contents apart. -/
def Digest.Separates (contents : Bytes → Prop) : Prop :=
  ∀ algorithm x y, contents x → contents y →
    Digest.ofBytes algorithm x = Digest.ofBytes algorithm y → x = y

/-- Every blob has the content that its digest names, and it is one of certain
contents. -/
def MemoryStore.Addressed (l : Layout) (contents : Bytes → Prop) (s : MemoryStore) : Prop :=
  ∀ digest content, s.file? (l.path (.blobData digest)) = some content →
    Digest.ofBytes digest.algorithm content = digest ∧ contents content

/-- A step from one store to the next. -/
structure Edit (l : Layout) (i : Intent) (s s' : MemoryStore) : Prop where
  laidOut : s'.LaidOut l
  file? : ∀ f : Resource, f.isFile = true →
    s'.file? (l.path f) = s.file? (l.path f) ∨
      (∃ bytes, s'.file? (l.path f) = some bytes ∧ Puts l i s f bytes) ∨
      (s'.file? (l.path f) = none ∧ f.isTransient = true)

/-- Any number of steps. -/
abbrev Edits (l : Layout) (i : Intent) : MemoryStore → MemoryStore → Prop :=
  Relation.ReflTransGen (Edit l i)

variable {l : Layout} {i j : Intent} {s s' : MemoryStore}

theorem Puts.mono {f : Resource} {bytes : Bytes} (h : Puts l i s f bytes)
    (hwrites : ∀ n id, i.writes n id → j.writes n id)
    (hoffers : ∀ content, i.offers content → j.offers content) : Puts l j s f bytes := by
  cases h with
  | data writes => exact .data (hwrites _ _ writes)
  | startedAt writes => exact .startedAt (hwrites _ _ writes)
  | blob addressed offered => exact .blob addressed (hoffers _ offered)
  | layer stored => exact .layer stored
  | revision offered parsed name layers stored =>
    exact .revision (hoffers _ offered) parsed name layers stored
  | current offered parsed tagged linked =>
    exact .current (hoffers _ offered) parsed tagged linked

namespace Edit

/-- Writing a file is an edit. -/
theorem put (hs : s.LaidOut l) {f : Resource} (hf : f.isFile = true) {bytes : Bytes}
    (h : Puts l i s f bytes) : Edit l i s (s.put (l.path f) bytes) where
  laidOut := hs.put hf bytes
  file? g _ := by
    rw [MemoryStore.file?_put_path hf]
    by_cases hg : g = f
    · subst hg
      exact Or.inr (Or.inl ⟨bytes, if_pos rfl, h⟩)
    · exact Or.inl (if_neg hg)

/-- Moving the bytes of an upload to the blob that they are the content of is an
edit. -/
theorem move (hs : s.LaidOut l) {n : RepositoryName} {id : UploadId} {digest : Digest}
    {content : Bytes} (hfile : s.file? (l.path (.uploadData n id)) = some content)
    (haddressed : Digest.ofBytes digest.algorithm content = digest) (hoffered : i.offers content) :
    Edit l i s (s.move (l.path (.uploadData n id)) (l.path (.blobData digest))) where
  laidOut := hs.move rfl rfl (by simp) hfile
  file? g _ := by
    rw [hs.file?_move rfl rfl (by simp) hfile]
    by_cases hblob : g = .blobData digest
    · subst hblob
      exact Or.inr (Or.inl ⟨content, if_pos rfl, .blob haddressed hoffered⟩)
    · rw [if_neg hblob]
      by_cases hdata : g = .uploadData n id
      · subst hdata
        exact Or.inr (Or.inr ⟨if_pos rfl, rfl⟩)
      · exact Or.inl (if_neg hdata)

/-- Removing an upload is an edit. -/
theorem remove (hs : s.LaidOut l) (n : RepositoryName) (id : UploadId) :
    Edit l i s (s.remove (l.path (.upload n id))) where
  laidOut := hs.remove _
  file? g hg := by
    rw [MemoryStore.file?_remove_upload n id hg]
    by_cases hup : g = .uploadData n id ∨ g = .uploadStartedAt n id
    · refine Or.inr (Or.inr ⟨if_pos hup, ?_⟩)
      rcases hup with rfl | rfl <;> rfl
    · exact Or.inl (if_neg hup)

/-- Only what belongs to an upload goes away. -/
theorem exists_file (h : Edit l i s s') {f : Resource} (hf : f.isFile = true)
    (hkept : f.isTransient = false) {bytes : Bytes} (hfile : s.file? (l.path f) = some bytes) :
    ∃ bytes', s'.file? (l.path f) = some bytes' := by
  rcases h.file? f hf with hsame | ⟨bytes', hput, -⟩ | ⟨-, htransient⟩
  · exact ⟨bytes, hsame.trans hfile⟩
  · exact ⟨bytes', hput⟩
  · rw [hkept] at htransient
    cases htransient

/-- The files of an upload that is not written into stay as they are or go away. -/
theorem upload_file (h : Edit l i s s') {n : RepositoryName} {id : UploadId}
    (hwrites : ¬ i.writes n id) {f : Resource}
    (hf : f = .uploadData n id ∨ f = .uploadStartedAt n id) :
    s'.file? (l.path f) = s.file? (l.path f) ∨ s'.file? (l.path f) = none := by
  rcases h.file? f (by rcases hf with rfl | rfl <;> rfl) with hsame | ⟨bytes, -, hput⟩ | ⟨hgone, -⟩
  · exact Or.inl hsame
  · rcases hf with rfl | rfl <;> cases hput <;> contradiction
  · exact Or.inr hgone

/-- A blob is written only with the content that its digest names. -/
theorem addressed {contents : Bytes → Prop} (h : Edit l i s s')
    (hoffers : ∀ content, i.offers content → contents content) (hs : s.Addressed l contents) :
    s'.Addressed l contents := by
  intro digest content hfile
  rcases h.file? (.blobData digest) rfl with hsame | ⟨bytes, hput, hputs⟩ | ⟨hgone, -⟩
  · exact hs digest content (hsame ▸ hfile)
  · obtain rfl : bytes = content := Option.some.inj (hput.symm.trans hfile)
    cases hputs with
    | blob addressed offered => exact ⟨addressed, hoffers _ offered⟩
  · cases hgone.symm.trans hfile

/-- Where digests tell contents apart, a blob keeps its content. -/
theorem blob_kept {contents : Bytes → Prop} (h : Edit l i s s')
    (hoffers : ∀ content, i.offers content → contents content) (hs : s.Addressed l contents)
    (hseparates : Digest.Separates contents) {digest : Digest} {content : Bytes}
    (hfile : s.file? (l.path (.blobData digest)) = some content) :
    s'.file? (l.path (.blobData digest)) = some content := by
  obtain ⟨content', hfile'⟩ := h.exists_file rfl rfl hfile
  obtain ⟨haddressed, hcontent⟩ := hs digest content hfile
  obtain ⟨haddressed', hcontent'⟩ := h.addressed hoffers hs digest content' hfile'
  rw [hseparates digest.algorithm content content' hcontent hcontent'
    (haddressed.trans haddressed'.symm)]
  exact hfile'

theorem mono (h : Edit l i s s') (hwrites : ∀ n id, i.writes n id → j.writes n id)
    (hoffers : ∀ content, i.offers content → j.offers content) : Edit l j s s' where
  laidOut := h.laidOut
  file? f hf := by
    rcases h.file? f hf with hsame | ⟨bytes, hput, hputs⟩ | hgone
    · exact Or.inl hsame
    · exact Or.inr (Or.inl ⟨bytes, hput, hputs.mono hwrites hoffers⟩)
    · exact Or.inr (Or.inr hgone)

end Edit

namespace Edits

/-- What every edit preserves, any number of them preserves. -/
theorem preserve (P : MemoryStore → Prop) (h : Edits l i s s')
    (hstep : ∀ t t', Edit l i t t' → P t → P t') (hs : P s) : P s' := by
  induction h with
  | refl => exact hs
  | tail _ hlast ih => exact hstep _ _ hlast ih

theorem laidOut (h : Edits l i s s') (hs : s.LaidOut l) : s'.LaidOut l :=
  h.preserve (fun t => t.LaidOut l) (fun _ _ he _ => he.laidOut) hs

theorem addressed {contents : Bytes → Prop} (h : Edits l i s s')
    (hoffers : ∀ content, i.offers content → contents content) (hs : s.Addressed l contents) :
    s'.Addressed l contents :=
  h.preserve (fun t => t.Addressed l contents) (fun _ _ he ht => he.addressed hoffers ht) hs

theorem exists_file (h : Edits l i s s') {f : Resource} (hf : f.isFile = true)
    (hkept : f.isTransient = false) {bytes : Bytes} (hfile : s.file? (l.path f) = some bytes) :
    ∃ bytes', s'.file? (l.path f) = some bytes' :=
  h.preserve (fun t => ∃ bytes, t.file? (l.path f) = some bytes)
    (fun _ _ he ⟨_, hb⟩ => he.exists_file hf hkept hb) ⟨bytes, hfile⟩

theorem upload_file (h : Edits l i s s') {n : RepositoryName} {id : UploadId}
    (hwrites : ¬ i.writes n id) {f : Resource}
    (hf : f = .uploadData n id ∨ f = .uploadStartedAt n id) :
    s'.file? (l.path f) = s.file? (l.path f) ∨ s'.file? (l.path f) = none := by
  refine h.preserve (fun t => t.file? (l.path f) = s.file? (l.path f) ∨ t.file? (l.path f) = none)
    (fun t t' he ht => ?_) (Or.inl rfl)
  rcases he.upload_file hwrites hf with hsame | hgone
  · rw [hsame]
    exact ht
  · exact Or.inr hgone

theorem mono (h : Edits l i s s') (hwrites : ∀ n id, i.writes n id → j.writes n id)
    (hoffers : ∀ content, i.offers content → j.offers content) : Edits l j s s' :=
  Relation.ReflTransGen.mono (fun _ _ he => he.mono hwrites hoffers) _ _ h

end Edits

end ContainerRegistry
