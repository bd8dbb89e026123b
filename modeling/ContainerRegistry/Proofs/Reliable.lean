/-
# On storage that does not fail, uploads go through

Over the driver in memory a source that does not fail is written whole, so any
content can be uploaded under a new identifier and finished under its digest, in
either algorithm: from a reachable world to one in which the blob is stored and
linked. What was stored before stays.

Key definitions: `World.answer`, `World.run`, `Operation.uploading`,
`Operation.pushing`.
Key theorems: `Upload.write_reliable`, `Reachable.run_pushing`, `Reachable.exists_upload`,
`Reachable.exists_layer`, `Reachable.exists_cancelUpload`.
-/
import ContainerRegistry.Proofs.World

namespace ContainerRegistry

open ContainerRegistry.Action

/-- The registry on the driver in memory. -/
abbrev Layout.inMemory (l : Layout) : Registry MemoryStore Bytes :=
  MemoryStore.reliable.registry l

variable {l : Layout} {w : World} {t : MemoryStore} {u : Upload}

/-- **A source that does not fail is written whole.** -/
theorem Upload.write_reliable (ht : t.LaidOut l) (htracks : u.Tracks l t)
    (hstate : u.state = .writing) {bytes : Bytes}
    (hfile : t.file? (l.path (.uploadData u.name u.id)) = some bytes) (content : Bytes) :
    (write l.inMemory bytes.length (.ofBytes content)).Ensures MemoryStore.reliable.onHandle (u, t)
      fun x w => x = .ok content.length ∧ Same u w.1 ∧
        w.2 = t.put (l.path (.uploadData u.name u.id)) (bytes ++ content) := by
  refine Ensures.bind ((size_of_file ht MemoryStore.not_reliable_fails hstate hfile).mono ?_)
  rintro x w ⟨rfl, rfl⟩
  simp only [Then, ne_eq, not_true_eq_false, if_false]
  refine Ensures.bind (ensures_catchUp hfile (htracks bytes hfile) ?caught ?fault)
  case fault =>
    exact fun hfault => hfault.elim
  case caught =>
    intro u' hu' _ _
    refine Ensures.bind (ensures_handle ?_)
    refine Ensures.bind (ensures_onStorage (ensures_stored ?_))
    rw [dataPath, Registry.path, hu'.name, hu'.id]
    refine MemoryStore.ensures_writeStream hfile content ?_
    simp only [mapError_ok, Then, if_true]
    exact Ensures.bind (ensures_change (Ensures.pure ⟨rfl, hu'.trans (same_hash _ u'), rfl⟩))

/-! ### Worlds that are reached without failures -/

/-- What is answered in a world, on storage that does not fail. -/
def World.answer {α : Type} (w : World) (action : RegistryAction MemoryStore α) :
    Except RegistryError α :=
  (action.outcome w.store).1

/-- The world after operations on storage that does not fail. -/
def World.run (w : World) (l : Layout) (ops : List Operation) : World :=
  ops.foldl (fun w op => w.after l MemoryStore.reliable w.store op) w

theorem World.run_append (w : World) (l : Layout) (ops more : List Operation) :
    w.run l (ops ++ more) = (w.run l ops).run l more :=
  List.foldl_append

/-- The operations that upload content, on a handle of the next number. -/
def Operation.uploading (handle : Nat) (n : RepositoryName) (id : UploadId) (content : Bytes) :
    List Operation :=
  [.start n id ⟨0, 0, 0⟩, .write handle 0 (.ofBytes content)]

/-- The operations that make content a layer. -/
def Operation.pushing (handle : Nat) (n : RepositoryName) (id : UploadId) (content : Bytes)
    (algorithm : Algorithm) : List Operation :=
  uploading handle n id content ++ [.finish handle (Digest.ofBytes algorithm content)]

namespace Reachable

/-- An operation on the driver in memory leads to a reachable world. -/
theorem inMemory (h : Reachable l w) (op : Operation) (hfresh : op.IsFresh w) :
    Reachable l (w.after l MemoryStore.reliable w.store op) :=
  h.step MemoryStore.reliable w.store trivial rfl op hfresh

/-- Content that is uploaded under a new identifier is stored, and nothing else changes. -/
theorem run_uploading (h : Reachable l w) (n : RepositoryName) (id : UploadId)
    (hfresh : (n, id) ∉ w.drawn) (content : Bytes) :
    ∃ w' u, w' = w.run l (Operation.uploading w.handles.length n id content) ∧ Reachable l w' ∧
      w'.handles = w.handles ++ [u] ∧ u.name = n ∧ u.id = id ∧
      u.state = .writing ∧ w'.offered = w.offered ∧ w'.drawn = (n, id) :: w.drawn ∧
      w'.store.file? (l.path (.uploadData n id)) = some content ∧
      ∀ f : Resource, f.isFile = true → f.isTransient = false →
        w'.store.file? (l.path f) = w.store.file? (l.path f) := by
  obtain ⟨w₁, hw₁⟩ : ∃ w₁, w₁ = w.after l MemoryStore.reliable w.store (.start n id ⟨0, 0, 0⟩) :=
    ⟨_, rfl⟩
  have hreached₁ : Reachable l w₁ := hw₁ ▸ h.inMemory _ fun key hkey =>
    List.mem_singleton.1 hkey ▸ hfresh
  have hstore₁ : w₁.store = (w.store.put (l.path (.uploadStartedAt n id))
      (Bytes.ofText (Instant.toOffsetText ⟨0, 0, 0⟩))).put (l.path (.uploadData n id)) [] :=
    hw₁ ▸ rfl
  have hhandles₁ : w₁.handles = w.handles ++ [Upload.opened id n ⟨0, 0, 0⟩] := hw₁ ▸ rfl
  have hget : w₁.handles[w.handles.length]? = some (Upload.opened id n ⟨0, 0, 0⟩) := by
    rw [hhandles₁, List.getElem?_concat_length]
  have hfile₁ : w₁.store.file? (l.path (.uploadData n id)) = some [] := by
    rw [hstore₁, MemoryStore.file?_put_path rfl, if_pos rfl]
  obtain ⟨-, -, hsame, hstore⟩ := Upload.write_reliable hreached₁.inv.laidOut
    (hreached₁.inv.handles _ (List.mem_of_getElem? hget)).2 rfl hfile₁ content
    (Upload.opened id n ⟨0, 0, 0⟩, w₁.store) trivial rfl
  obtain ⟨w₂, hw₂⟩ : ∃ w₂, w₂ = w₁.after l MemoryStore.reliable w₁.store
      (.write w.handles.length 0 (.ofBytes content)) := ⟨_, rfl⟩
  have hstore₂ : w₂.store = w₁.store.put (l.path (.uploadData n id)) content :=
    hw₂ ▸ (World.after_uses rfl hget).1.trans hstore
  have hhandles₂ := hw₂ ▸ (World.after_uses rfl hget).2
  refine ⟨w₂, _, ?_, hw₂ ▸ hreached₁.inMemory _ (fun _ hkey => by cases hkey), ?_, hsame.name,
    hsame.id, hsame.state, ?_, ?_, ?_, ?_⟩
  · rw [hw₂, hw₁]
    rfl
  · rw [hhandles₂, hhandles₁, List.set_append_right _ _ (Nat.le_refl _), Nat.sub_self]
    rfl
  · rw [hw₂, hw₁]
    rfl
  · rw [hw₂, hw₁]
    rfl
  · rw [hstore₂, MemoryStore.file?_put_path rfl, if_pos rfl]
  · intro f hf hkept
    rw [hstore₂, MemoryStore.file?_put_path rfl, if_neg, hstore₁, MemoryStore.file?_put_path rfl,
      if_neg, MemoryStore.file?_put_path rfl, if_neg]
    all_goals
      rintro rfl
      cases hkept

/-- Any content can be uploaded under a new identifier, and nothing else changes. -/
theorem exists_upload (h : Reachable l w) (n : RepositoryName) (id : UploadId)
    (hfresh : (n, id) ∉ w.drawn) (content : Bytes) :
    ∃ w' u, Reachable l w' ∧ w'.handles = w.handles ++ [u] ∧ u.name = n ∧ u.id = id ∧
      u.state = .writing ∧ w'.offered = w.offered ∧ w'.drawn = (n, id) :: w.drawn ∧
      w'.store.file? (l.path (.uploadData n id)) = some content ∧
      ∀ f : Resource, f.isFile = true → f.isTransient = false →
        w'.store.file? (l.path f) = w.store.file? (l.path f) := by
  obtain ⟨w', u, -, hupload⟩ := h.run_uploading n id hfresh content
  exact ⟨w', u, hupload⟩

/-- An upload that is finished under the digest of its bytes, in either algorithm, is stored and
linked. -/
theorem run_finish (h : Reachable l w) {handle : Nat} (hget : w.handles[handle]? = some u)
    (hstate : u.state = .writing) {content : Bytes}
    (hfile : w.store.file? (l.path (.uploadData u.name u.id)) = some content)
    (algorithm : Algorithm) :
    ∃ w' u', w' = w.run l [.finish handle (Digest.ofBytes algorithm content)] ∧ Reachable l w' ∧
      w'.handles = w.handles.set handle u' ∧ u'.state = .finished ∧
      w'.offered = content :: w.offered ∧ w'.drawn = w.drawn ∧
      (∃ stored, w'.store.file? (l.path (.blobData (Digest.ofBytes algorithm content))) =
        some stored) ∧
      w'.store.file? (l.path (.layerLink u.name (Digest.ofBytes algorithm content))) =
        some (Bytes.ofText (l.path (.blobData (Digest.ofBytes algorithm content))).text) := by
  obtain ⟨w', hw'⟩ : ∃ w', w' = w.after l MemoryStore.reliable w.store
      (.finish handle (Digest.ofBytes algorithm content)) := ⟨_, rfl⟩
  have hstore := hw' ▸ (World.after_uses rfl hget).1
  have hhandles := hw' ▸ (World.after_uses rfl hget).2
  have hoffered : w'.offered = content :: w.offered := by
    rw [hw']
    simp [World.after, World.next, Operation.offers, hget, hfile]
  obtain ⟨-, ⟨hmismatch, -⟩ | ⟨-, stored, -, hfinished, -, hblob, hlink⟩⟩ := Upload.finish_of_file
    MemoryStore.not_reliable_fails h.inv.laidOut (h.inv.handles u (List.mem_of_getElem? hget)).2
    hstate hfile (Digest.ofBytes algorithm content) (u, w.store) trivial rfl
  · exact absurd rfl hmismatch
  · refine ⟨w', _, hw', hw' ▸ h.inMemory _ (fun _ hkey => by cases hkey), hhandles, hfinished,
      hoffered, by rw [hw']; rfl, ⟨stored, ?_⟩, ?_⟩
    · rw [hstore]
      exact hblob
    · rw [hstore]
      exact hlink

/-- Content that is pushed under a new identifier becomes a layer of the repository. -/
theorem run_pushing (h : Reachable l w) (n : RepositoryName) (id : UploadId)
    (hfresh : (n, id) ∉ w.drawn) (content : Bytes) (algorithm : Algorithm) :
    ∃ w', w' = w.run l (Operation.pushing w.handles.length n id content algorithm) ∧
      Reachable l w' ∧ w'.offered = content :: w.offered ∧ w'.drawn = (n, id) :: w.drawn ∧
      (∃ stored, w'.store.file? (l.path (.blobData (Digest.ofBytes algorithm content))) =
        some stored) ∧
      w'.store.file? (l.path (.layerLink n (Digest.ofBytes algorithm content))) =
        some (Bytes.ofText (l.path (.blobData (Digest.ofBytes algorithm content))).text) := by
  obtain ⟨w₁, u, hrun₁, hw₁, hhandles, rfl, rfl, hstate, hoffered₁, hdrawn₁, hfile, -⟩ :=
    h.run_uploading n id hfresh content
  have hget : w₁.handles[w.handles.length]? = some u := by
    rw [hhandles, List.getElem?_concat_length]
  obtain ⟨w₂, -, hrun₂, hw₂, -, -, hoffered₂, hdrawn₂, hblob, hlink⟩ :=
    hw₁.run_finish hget hstate hfile algorithm
  refine ⟨w₂, ?_, hw₂, hoffered₂.trans (by rw [hoffered₁]), hdrawn₂.trans hdrawn₁, hblob, hlink⟩
  rw [hrun₂, hrun₁, ← World.run_append]
  rfl

/-- Any content can be made a layer of any repository. -/
theorem exists_layer (h : Reachable l w) (n : RepositoryName) (id : UploadId)
    (hfresh : (n, id) ∉ w.drawn) (content : Bytes) (algorithm : Algorithm) :
    ∃ w', Reachable l w' ∧ w'.offered = content :: w.offered ∧ w'.drawn = (n, id) :: w.drawn ∧
      (∃ stored, w'.store.file? (l.path (.blobData (Digest.ofBytes algorithm content))) =
        some stored) ∧
      w'.store.file? (l.path (.layerLink n (Digest.ofBytes algorithm content))) =
        some (Bytes.ofText (l.path (.blobData (Digest.ofBytes algorithm content))).text) := by
  obtain ⟨w', -, hpush⟩ := h.run_pushing n id hfresh content algorithm
  exact ⟨w', hpush⟩

/-- An upload can be cancelled by its identifier, whoever has a handle on it. -/
theorem exists_cancelUpload (h : Reachable l w) (n : RepositoryName) (id : UploadId) :
    ∃ w', Reachable l w' ∧ w'.handles = w.handles ∧ w'.landed = w.landed ∧
      w'.store.file? (l.path (.uploadData n id)) = none ∧
      ∀ f : Resource, f.isFile = true → f.isTransient = false →
        w'.store.file? (l.path f) = w.store.file? (l.path f) := by
  obtain ⟨w', hw'⟩ : ∃ w', w' = w.after l MemoryStore.reliable w.store (.cancelUpload n id) :=
    ⟨_, rfl⟩
  have hstore : w'.store = ((MemoryStore.delete (l.path (.upload n id))).outcome w.store).2 :=
    hw' ▸ rfl
  rw [MemoryStore.outcome_delete] at hstore
  refine ⟨w', hw' ▸ h.inMemory _ (fun _ hkey => by cases hkey), hw' ▸ rfl, ?_, ?_⟩
  · rw [hw']
    exact List.append_nil _
  · split at hstore
    · refine ⟨?_, fun f hf hkept => ?_⟩
      · rw [hstore, MemoryStore.file?_remove_upload n id rfl, if_pos (Or.inl rfl)]
      · rw [hstore, MemoryStore.file?_remove_upload n id hf, if_neg]
        rintro (rfl | rfl) <;> cases hkept
    · rename_i hfree
      refine ⟨?_, fun f _ _ => by rw [hstore]⟩
      refine Option.eq_none_iff_forall_ne_some.2 fun bytes hbytes => hfree ?_
      rw [hstore] at hbytes
      exact (h.inv.laidOut.occupied_iff _).2
        ⟨_, bytes, rfl, Resource.upload_isPrefix_data n id, hbytes⟩

end Reachable
end ContainerRegistry
