/-
# What putting a manifest does to storage that does not fail

Over the driver in memory a manifest is put in whole or not at all. It is put in
when the tag is one, the manifest bears the name of the repository and the tag,
and all its layers are visible (`Repository.Accepts`); then its document is
stored as a blob unless one of that digest is there, and both links are written
(`MemoryStore.publish`). Otherwise the store stays as it is.

Key definitions: `Repository.Accepts`, `MemoryStore.publish`.
Key theorems: `MemoryStore.file?_publish`, `Repository.requireLayers_ok_iff`,
`Repository.putManifest_accepted`, `Repository.putManifest_refused`.
-/
import ContainerRegistry.Proofs.Frame
import ContainerRegistry.Proofs.Pointing

namespace ContainerRegistry

open ContainerRegistry.Action

variable {l : Layout} {t : MemoryStore} {n : RepositoryName}

namespace MemoryStore

/-- The store with a document as a blob, unless one of its digest is there. -/
def withBlob (l : Layout) (t : MemoryStore) (document : Bytes) : MemoryStore :=
  match t.file? (l.path (.blobData (Digest.sha256 document))) with
  | some _ => t
  | none => t.put (l.path (.blobData (Digest.sha256 document))) document

/-- The store with a document, its revision link and a tag on it. -/
def publish (l : Layout) (t : MemoryStore) (n : RepositoryName) (tag : Tag) (document : Bytes) :
    MemoryStore :=
  let digest := Digest.sha256 document
  ((t.withBlob l document).put (l.path (.revisionLink n digest)) (Bytes.ofText digest.toText)).put
    (l.path (.currentLink n tag)) (Bytes.ofText digest.toText)

theorem file?_withBlob (document : Bytes) (f : Resource) :
    (t.withBlob l document).file? (l.path f) =
      if f = .blobData (Digest.sha256 document) then
        some ((t.file? (l.path (.blobData (Digest.sha256 document)))).getD document)
      else t.file? (l.path f) := by
  unfold withBlob
  cases hblob : t.file? (l.path (.blobData (Digest.sha256 document))) with
  | some content =>
    by_cases hf : f = .blobData (Digest.sha256 document)
    · rw [if_pos hf, hf]
      exact hblob
    · rw [if_neg hf]
  | none =>
    simp only [Option.getD_none]
    exact file?_put_path rfl f document

theorem LaidOut.withBlob (h : t.LaidOut l) (document : Bytes) :
    (t.withBlob l document).LaidOut l := by
  unfold MemoryStore.withBlob
  split
  · exact h
  · exact h.put rfl document

/-- What is in each file after a document was published. -/
theorem file?_publish (tag : Tag) (document : Bytes) (f : Resource) :
    (t.publish l n tag document).file? (l.path f) =
      if f = .currentLink n tag ∨ f = .revisionLink n (Digest.sha256 document) then
        some (Bytes.ofText (Digest.sha256 document).toText)
      else if f = .blobData (Digest.sha256 document) then
        some ((t.file? (l.path (.blobData (Digest.sha256 document)))).getD document)
      else t.file? (l.path f) := by
  rw [publish, file?_put_path rfl, file?_put_path rfl, file?_withBlob]
  by_cases hcurrent : f = .currentLink n tag
  · rw [if_pos hcurrent, if_pos (Or.inl hcurrent)]
  · by_cases hrevision : f = .revisionLink n (Digest.sha256 document)
    · rw [if_neg hcurrent, if_pos hrevision, if_pos (Or.inr hrevision)]
    · rw [if_neg hcurrent, if_neg hrevision, if_neg (not_or.2 ⟨hcurrent, hrevision⟩)]

end MemoryStore

namespace Registry

/-- Putting a blob in stores it unless it is there, and describes it. -/
theorem outcome_putBlob (content : Bytes) :
    ∃ size, (l.inMemory.putBlob content).outcome t =
      (.ok ⟨Digest.sha256 content, size⟩, t.withBlob l content) := by
  rw [putBlob, outcome_bind, outcome_blobExists]
  simp only
  cases hblob : t.file? (l.path (.blobData (Digest.sha256 content))) with
  | some stored =>
    simp only [Option.isSome_some, Bool.not_true, Bool.false_eq_true, if_false,
      outcome_blobStat_stored hblob, MemoryStore.withBlob, hblob]
    exact ⟨_, rfl⟩
  | none =>
    have hput : (t.put (l.path (.blobData (Digest.sha256 content))) content).file?
        (l.path (.blobData (Digest.sha256 content))) = some content := by
      rw [MemoryStore.file?_put_path rfl, if_pos rfl]
    have hcall : (stored (l.inMemory.storage.putContent
        (l.inMemory.blobPath (Digest.sha256 content)) content)).outcome t =
          (.ok (), t.put (l.path (.blobData (Digest.sha256 content))) content) := rfl
    simp only [Option.isSome_none, Bool.not_false, if_true, outcome_bind, hcall,
      outcome_blobStat_stored hput, MemoryStore.withBlob, hblob]
    exact ⟨_, rfl⟩

end Registry

namespace Repository

/-- A repository takes a manifest under a tag. -/
structure Accepts (l : Layout) (t : MemoryStore) (n : RepositoryName) (text : String)
    (m : Manifest) : Prop where
  valid : ∃ tag, Tag.parse text = .ok tag
  name : m.name = n.text
  tag : m.tag = text
  visible : ∀ layer ∈ m.layers, IsVisible l t n layer

/-- Layers are all known when all are visible. -/
theorem requireLayers_ok_iff (layers : List Digest) :
    ((requireLayers ⟨l.inMemory, n⟩ layers).outcome t).1 = .ok () ↔
      ∀ layer ∈ layers, IsVisible l t n layer := by
  induction layers with
  | nil => simp [requireLayers, outcome_pure]
  | cons layer rest ih =>
    have hstore : ((layerStat ⟨l.inMemory, n⟩ layer).outcome t).2 = t :=
      (reads_layerStat (d := MemoryStore.reliable) layer).outcome_snd t
    rw [requireLayers, outcome_bind, List.forall_mem_cons, isVisible_iff_layerStat, ← ih]
    rcases hstat : (layerStat ⟨l.inMemory, n⟩ layer).outcome t with ⟨e | descriptor, t'⟩
    · simp
    · rw [hstat] at hstore
      obtain rfl : t' = t := hstore
      simp

theorem identityFault?_eq_none_iff {n : Repository MemoryStore Bytes} {tag : Tag} {m : Manifest} :
    n.identityFault? tag m = none ↔ m.name = n.name.text ∧ m.tag = tag.text := by
  constructor
  · exact identityFault?_eq_none (d := MemoryStore.reliable)
  · rintro ⟨hname, htag⟩
    rw [identityFault?, if_neg (not_not_intro hname), if_neg (not_not_intro htag)]

/-- **A manifest that is accepted is published**, and answered with its digest. -/
theorem putManifest_accepted {text : String} {tag : Tag} {m : SignedManifest}
    (htag : Tag.parse text = .ok tag) (h : Accepts l t n text m.manifest) :
    (putManifest ⟨l.inMemory, n⟩ text m).outcome t =
      (.ok m.digest, t.publish l n tag m.raw) := by
  have hidentity : identityFault? ⟨l.inMemory, n⟩ tag m.manifest = none :=
    identityFault?_eq_none_iff.2 ⟨h.name, h.tag.trans (Tag.text_of_parse htag).symm⟩
  have hlayers : (requireLayers ⟨l.inMemory, n⟩ m.manifest.layers).outcome t = (.ok (), t) :=
    Prod.ext ((requireLayers_ok_iff _).2 h.visible)
      ((reads_requireLayers (d := MemoryStore.reliable) _).outcome_snd t)
  obtain ⟨size, hblob⟩ := Registry.outcome_putBlob m.raw
  have hvalid : tagOf text = .ok tag := by rw [tagOf, htag]
  rw [putManifest, hvalid, outcome_bind, outcome_ofExcept]
  simp only [hidentity]
  rw [outcome_bind, hlayers]
  simp only
  rw [outcome_bind, hblob]
  rfl

/-- **A manifest that is not accepted is refused**, and leaves the store as it is. -/
theorem putManifest_refused {text : String} {m : SignedManifest}
    (h : ¬ Accepts l t n text m.manifest) :
    ∃ e, (putManifest ⟨l.inMemory, n⟩ text m).outcome t = (.error e, t) := by
  rw [putManifest, tagOf, outcome_bind, outcome_ofExcept]
  cases htag : Tag.parse text with
  | error e => exact ⟨_, rfl⟩
  | ok tag =>
    simp only
    cases hidentity : identityFault? ⟨l.inMemory, n⟩ tag m.manifest with
    | some e => exact ⟨e, rfl⟩
    | none =>
      obtain ⟨hname, htext⟩ := identityFault?_eq_none_iff.1 hidentity
      have hstore : ((requireLayers ⟨l.inMemory, n⟩ m.manifest.layers).outcome t).2 = t :=
        (reads_requireLayers (d := MemoryStore.reliable) _).outcome_snd t
      simp only
      rw [outcome_bind]
      rcases hlayers : (requireLayers ⟨l.inMemory, n⟩ m.manifest.layers).outcome t with
        ⟨e | _, t'⟩
      · rw [hlayers] at hstore
        obtain rfl : t' = t := hstore
        exact ⟨e, rfl⟩
      · have hvisible := (requireLayers_ok_iff m.manifest.layers).1 (congrArg Prod.fst hlayers)
        exact absurd ⟨⟨tag, htag⟩, hname, htext.trans (Tag.text_of_parse htag), hvisible⟩ h

end Repository

/-- Where the layers of a manifest are one content, pushing the content is enough for the
manifest to be taken. -/
theorem Reachable.run_pushing_accepts {w : World} (h : Reachable l w) (id : UploadId)
    (hfresh : (n, id) ∉ w.drawn) (content : Bytes) (algorithm : Algorithm) {m : Manifest}
    {tag : Tag} (hname : m.name = n.text) (htag : m.tag = tag.text)
    (hvalid : Tag.parse tag.text = .ok tag)
    (hlayers : ∀ layer ∈ m.layers, layer = Digest.ofBytes algorithm content) :
    ∃ w', w' = w.run l (Operation.pushing w.handles.length n id content algorithm) ∧
      Reachable l w' ∧ w'.offered = content :: w.offered ∧
      Repository.Accepts l w'.store n tag.text m := by
  obtain ⟨w', hrun, hw', hoffered, -, -, hlink⟩ := h.run_pushing n id hfresh content algorithm
  refine ⟨w', hrun, hw', hoffered, ⟨tag, hvalid⟩, hname, htag, fun layer hlayer => ?_⟩
  rw [hlayers layer hlayer, Repository.isVisible_iff hw'.inv.laidOut hw'.linksPoint]
  exact ⟨_, hlink⟩

end ContainerRegistry
