/-
# What is done with a handle comes to, in memory

On storage that does not fail, the state of a handle and the file of its upload decide
what every action on it is answered, and what it leaves behind, to the last detail. A
handle that no longer writes is refused before storage is touched. While the file is
there, its bytes are caught up on and decide the rest; once it is gone, the upload is
unknown, or finished by the claimed blob. Whatever two handles on one upload have hashed
so far, they are the same once they have caught up.

Key definitions: `Upload.caught`, `MemoryStore.retired`, `MemoryStore.settled`,
`MemoryStore.committed`.
Key theorems: `Upload.caught_eq`, `Upload.outcome_write_stored`, `Upload.outcome_finish_match`,
`Upload.outcome_finish_mismatch`, `Upload.outcome_finish_moved`, `Upload.outcome_cancel_writing`.
-/
import ContainerRegistry.Proofs.Pointing
import ContainerRegistry.Proofs.Streaming

namespace ContainerRegistry

open ContainerRegistry.Action

namespace MemoryStore

variable {l : Layout} {t : MemoryStore} {n : RepositoryName} {id : UploadId}

/-- The store without an upload, if it has one. -/
def retired (l : Layout) (t : MemoryStore) (n : RepositoryName) (id : UploadId) : MemoryStore :=
  if t.occupied (l.path (.upload n id)) then t.remove (l.path (.upload n id)) else t

theorem LaidOut.retired (h : t.LaidOut l) (n : RepositoryName) (id : UploadId) :
    (t.retired l n id).LaidOut l := by
  unfold MemoryStore.retired
  split
  · exact h.remove _
  · exact h

/-- Retiring an upload takes its two files away and no other. -/
theorem LaidOut.file?_retired (h : t.LaidOut l) {f : Resource} (hf : f.isFile = true) :
    (t.retired l n id).file? (l.path f) =
      if f = .uploadData n id ∨ f = .uploadStartedAt n id then none else t.file? (l.path f) := by
  unfold MemoryStore.retired
  by_cases hoccupied : t.occupied (l.path (.upload n id)) = true
  · rw [if_pos hoccupied]
    exact file?_remove_upload n id hf
  · rw [if_neg hoccupied]
    split
    · rename_i hupload
      refine Option.eq_none_iff_forall_ne_some.2 fun bytes hbytes => hoccupied ?_
      refine (h.occupied_iff _).2 ⟨f, bytes, hf, ?_, hbytes⟩
      rcases hupload with rfl | rfl
      · exact Resource.upload_isPrefix_data n id
      · exact Resource.upload_isPrefix_startedAt n id
    · rfl

/-- The store with the bytes of an upload in the blob store, unless the claimed blob is there. -/
def settled (l : Layout) (t : MemoryStore) (n : RepositoryName) (id : UploadId)
    (expected : Digest) : MemoryStore :=
  match t.file? (l.path (.blobData expected)) with
  | some _ => t
  | none => t.move (l.path (.uploadData n id)) (l.path (.blobData expected))

theorem LaidOut.settled (h : t.LaidOut l) {bytes : Bytes}
    (hfile : t.file? (l.path (.uploadData n id)) = some bytes) (expected : Digest) :
    (t.settled l n id expected).LaidOut l := by
  unfold MemoryStore.settled
  split
  · exact h
  · exact h.move rfl rfl (by simp) hfile

/-- Settling stores the blob, and at most the bytes of the upload are gone. -/
theorem LaidOut.file?_settled (h : t.LaidOut l) {bytes : Bytes}
    (hfile : t.file? (l.path (.uploadData n id)) = some bytes) {expected : Digest} {f : Resource}
    (hf : f ≠ .uploadData n id) :
    (t.settled l n id expected).file? (l.path f) =
      if f = .blobData expected then
        some ((t.file? (l.path (.blobData expected))).getD bytes)
      else t.file? (l.path f) := by
  unfold MemoryStore.settled
  cases hblob : t.file? (l.path (.blobData expected)) with
  | some content =>
    by_cases hf : f = .blobData expected
    · rw [if_pos hf, hf]
      exact hblob
    · rw [if_neg hf]
  | none =>
    simp only [Option.getD_none]
    rw [h.file?_move rfl rfl (by simp) hfile, if_neg hf]

/-- The store with a link of a blob as a layer. -/
def withLink (l : Layout) (t : MemoryStore) (n : RepositoryName) (expected : Digest) :
    MemoryStore :=
  t.put (l.path (.layerLink n expected)) (Bytes.ofText (l.path (.blobData expected)).text)

/-- The store with a blob linked as a layer, and the upload of it retired. -/
def committed (l : Layout) (t : MemoryStore) (n : RepositoryName) (id : UploadId)
    (expected : Digest) : MemoryStore :=
  (t.withLink l n expected).retired l n id

theorem LaidOut.committed (h : t.LaidOut l) (n : RepositoryName) (id : UploadId)
    (expected : Digest) : (t.committed l n id expected).LaidOut l :=
  LaidOut.retired (LaidOut.put h rfl _) n id

theorem LaidOut.file?_committed (h : t.LaidOut l) {expected : Digest} {f : Resource}
    (hf : f.isFile = true) : (t.committed l n id expected).file? (l.path f) =
      if f = .uploadData n id ∨ f = .uploadStartedAt n id then none
      else if f = .layerLink n expected then
        some (Bytes.ofText (l.path (.blobData expected)).text)
      else t.file? (l.path f) := by
  have hlinked : (t.withLink l n expected).LaidOut l := h.put rfl _
  rw [MemoryStore.committed, hlinked.file?_retired hf, withLink, file?_put_path rfl]

end MemoryStore

namespace Upload

variable {l : Layout} {t : MemoryStore} {u v : Upload} {bytes content : Bytes} {expected : Digest}
  {n : RepositoryName} {id : UploadId}

/-! ### Catching up -/

/-- A handle that has hashed the rest of the stored bytes. -/
def caught (bytes : Bytes) (u : Upload) : Upload :=
  hash (bytes.drop u.hashed) u

theorem same_caught (bytes : Bytes) (u : Upload) : Same u (caught bytes u) :=
  same_hash _ u

theorem Covers.caught (h : u.Covers bytes) : (caught bytes u).Covers bytes :=
  h.hash List.prefix_rfl

theorem Covers.hashed_caught (h : u.Covers bytes) :
    (Upload.caught bytes u).hashed = bytes.length := by
  rw [Upload.caught, Upload.hash, List.length_drop]
  exact Nat.add_sub_cancel' h.le

/-- Handles on one upload are the same when they have caught up. -/
theorem caught_eq (h : Same u v) (hu : u.Covers bytes) (hv : v.Covers bytes) :
    caught bytes u = caught bytes v := by
  have hrunning : (caught bytes u).running = (caught bytes v).running := by
    rw [hu.caught.running, hv.caught.running, hu.hashed_caught, hv.hashed_caught]
  have hhashed : (caught bytes u).hashed = (caught bytes v).hashed :=
    hu.hashed_caught.trans hv.hashed_caught.symm
  obtain ⟨_, _, _, _, _, _⟩ := u
  obtain ⟨_, _, _, _, _, _⟩ := v
  obtain ⟨rfl, rfl, rfl, rfl⟩ := h
  simp only [caught, hash, Upload.mk.injEq, true_and, and_true] at hrunning hhashed ⊢
  exact ⟨hrunning, hhashed⟩

/-! ### The parts of actions -/

section Parts

variable {σ ρ α : Type} {s : σ} (r : Registry σ ρ)

theorem outcome_handle : (handle : UploadAction σ Upload).outcome (u, s) = (.ok u, (u, s)) :=
  rfl

theorem outcome_change (f : Upload → Upload) :
    (change f : UploadAction σ Unit).outcome (u, s) = (.ok (), (f u, s)) :=
  rfl

theorem outcome_onStorage {action : RegistryAction σ α} {x : Except RegistryError α} {s' : σ}
    (h : action.outcome s = (x, s')) : (onStorage action).outcome (u, s) = (x, (u, s')) := by
  rw [onStorage, outcome_zoom, h]

theorem outcome_ensureOpen_writing (h : u.state = .writing) :
    (ensureOpen : UploadAction σ Unit).outcome (u, s) = (.ok (), (u, s)) := by
  rw [ensureOpen, outcome_bind, outcome_handle]
  simp only [if_pos h]
  rfl

theorem outcome_ensureOpen_closed (h : u.state ≠ .writing) :
    (ensureOpen : UploadAction σ Unit).outcome (u, s) = (.error .layerClosed, (u, s)) := by
  rw [ensureOpen, outcome_bind, outcome_handle]
  simp only [if_neg h]
  rfl

/-! ### Handles that no longer write -/

theorem outcome_size_closed (h : u.state ≠ .writing) :
    (size r).outcome (u, s) = (.error .layerClosed, (u, s)) := by
  rw [size, outcome_bind, outcome_ensureOpen_closed h]

theorem outcome_write_closed (h : u.state ≠ .writing) (offset : Nat) (source : Source) :
    (write r offset source).outcome (u, s) = (.error .layerClosed, (u, s)) := by
  rw [write, outcome_bind, outcome_size_closed r h]

theorem outcome_finish_closed (h : u.state ≠ .writing) (expected : Digest) :
    (finish r expected).outcome (u, s) = (.error .layerClosed, (u, s)) := by
  rw [finish, outcome_bind, outcome_ensureOpen_closed h]

theorem outcome_cancel_cancelled (h : u.state = .cancelled) :
    (cancel r).outcome (u, s) = (.ok (), (u, s)) := by
  rw [cancel, outcome_bind, outcome_handle]
  simp only [h]
  rfl

theorem outcome_cancel_finished (h : u.state = .finished) :
    (cancel r).outcome (u, s) = (.error .layerClosed, (u, s)) := by
  rw [cancel, outcome_bind, outcome_handle]
  simp only [h]
  rfl

end Parts

/-! ### Opening -/

theorem outcome_remove (t : MemoryStore) (n : RepositoryName) (id : UploadId) :
    (remove l.inMemory n id).outcome t = (.ok (), t.retired l n id) := by
  have hcall : (((MemoryStore.delete (l.path (.upload n id))).attempt :
      RegistryAction MemoryStore _).outcome t).2 = t.retired l n id := by
    rw [outcome_attempt, MemoryStore.outcome_delete, MemoryStore.retired]
    split <;> rfl
  rw [remove, outcome_bind, ← hcall]
  rfl

theorem outcome_start (t : MemoryStore) (n : RepositoryName) (id : UploadId) (now : Instant) :
    (start ⟨l.inMemory, n⟩ id now).outcome t = (.ok (opened id n now),
      (t.put (l.path (.uploadStartedAt n id)) (Bytes.ofText now.toOffsetText)).put
        (l.path (.uploadData n id)) []) :=
  rfl

theorem outcome_resume_unknown (h : t.file? (l.path (.uploadStartedAt n id)) = none) :
    (resume ⟨l.inMemory, n⟩ id).outcome t = (.error (.uploadUnknown id), t) := by
  have hcall := t.outcome_getContent (l.path (.uploadStartedAt n id))
  rw [h] at hcall
  have hunknown : (orUnknown (.uploadUnknown id)
      (l.inMemory.storage.getContent (l.inMemory.path (.uploadStartedAt n id)))).outcome t =
        (.error (.uploadUnknown id), t) := outcome_orUnknown_missing rfl hcall
  rw [resume, outcome_bind, hunknown]

theorem outcome_resume_stored (h : t.file? (l.path (.uploadStartedAt n id)) = some content) :
    (resume ⟨l.inMemory, n⟩ id).outcome t =
      ((startOfContent (l.path (.uploadStartedAt n id)) content).map (opened id n), t) := by
  have hcall := t.outcome_getContent (l.path (.uploadStartedAt n id))
  rw [h] at hcall
  have hknown : (orUnknown (.uploadUnknown id)
      (l.inMemory.storage.getContent (l.inMemory.path (.uploadStartedAt n id)))).outcome t =
        (.ok content, t) := outcome_orUnknown_ok hcall
  rw [resume, outcome_bind, hknown]
  simp only
  rw [outcome_bind, outcome_ofExcept]
  show _ = ((startOfContent (l.inMemory.path (.uploadStartedAt n id)) content).map (opened id n), t)
  cases startOfContent (l.inMemory.path (.uploadStartedAt n id)) content <;> rfl

/-! ### Measuring and writing -/

theorem outcome_size_stored (ht : t.LaidOut l) (hstate : u.state = .writing)
    (hfile : t.file? (l.path (.uploadData u.name u.id)) = some bytes) :
    (size l.inMemory).outcome (u, t) = (.ok bytes.length, (u, t)) := by
  have hstat := ht.outcome_stat (r := .uploadData u.name u.id) rfl
  rw [hfile] at hstat
  have hknown : (onStorage (orUnknown (.uploadUnknown u.id)
      (l.inMemory.storage.stat (dataPath l.inMemory u)))).outcome (u, t) =
        (.ok ⟨bytes.length, false⟩, (u, t)) := outcome_onStorage (outcome_orUnknown_ok hstat)
  rw [size, outcome_bind, outcome_ensureOpen_writing hstate]
  simp only
  rw [outcome_bind, outcome_handle]
  simp only
  rw [outcome_bind, hknown]
  rfl

/-- Without anything in the place of its bytes an upload is unknown. -/
theorem outcome_size_missing (hstate : u.state = .writing) {cause : StorageError}
    (hcause : cause.isNotFound = true)
    (hstat : (l.inMemory.storage.stat (dataPath l.inMemory u)).outcome t = (.error cause, t)) :
    (size l.inMemory).outcome (u, t) = (.error (.uploadUnknown u.id), (u, t)) := by
  have hunknown : (onStorage (orUnknown (.uploadUnknown u.id)
      (l.inMemory.storage.stat (dataPath l.inMemory u)))).outcome (u, t) =
        (.error (.uploadUnknown u.id), (u, t)) :=
    outcome_onStorage (outcome_orUnknown_missing hcause hstat)
  rw [size, outcome_bind, outcome_ensureOpen_writing hstate]
  simp only
  rw [outcome_bind, outcome_handle]
  simp only
  rw [outcome_bind, hunknown]

theorem outcome_size_gone (ht : t.LaidOut l) (hstate : u.state = .writing)
    (hgone : t.file? (l.path (.uploadData u.name u.id)) = none) :
    (size l.inMemory).outcome (u, t) = (.error (.uploadUnknown u.id), (u, t)) := by
  have hstat := ht.outcome_stat (r := .uploadData u.name u.id) rfl
  rw [hgone] at hstat
  exact outcome_size_missing hstate rfl hstat

/-- Catching up hashes the rest of the stored bytes. -/
theorem outcome_catchUp_stored (hfile : t.file? (l.path (.uploadData u.name u.id)) = some bytes)
    (hcovers : u.Covers bytes) :
    (catchUp l.inMemory bytes.length).outcome (u, t) = (.ok (), (caught bytes u, t)) := by
  rw [catchUp, outcome_bind, outcome_change, hcovers.shrink]
  simp only
  rw [outcome_bind, outcome_handle]
  simp only
  by_cases hall : u.hashed = bytes.length
  · have hcaught : caught bytes u = u := by
      rw [caught, hall, List.drop_length, hash, RunningDigest.update_nil]
      rfl
    rw [if_pos hall, hcaught]
    rfl
  · rw [if_neg hall]
    have hread := t.outcome_readStream (l.path (.uploadData u.name u.id)) u.hashed
    rw [hfile] at hread
    simp only [if_neg (Nat.not_lt.2 hcovers.le)] at hread
    have hopened : (onStorage (orUnknown (.uploadUnknown u.id)
        (l.inMemory.storage.readStream (dataPath l.inMemory u) u.hashed))).outcome (u, t) =
          (.ok (bytes.drop u.hashed), (u, t)) := outcome_onStorage (outcome_orUnknown_ok hread)
    -- as much is wanted as there is left
    have hwanted : upTo (some (bytes.length - u.hashed)) (bytes.drop u.hashed) =
        bytes.drop u.hashed :=
      List.take_of_length_le (Nat.le_of_eq List.length_drop)
    rw [outcome_bind, hopened]
    show (_, (hash (upTo (some (bytes.length - u.hashed)) (bytes.drop u.hashed)) u, t)) = _
    rw [hwanted]
    rfl

theorem outcome_write_gone (ht : t.LaidOut l) (hstate : u.state = .writing)
    (hgone : t.file? (l.path (.uploadData u.name u.id)) = none) (offset : Nat) (source : Source) :
    (write l.inMemory offset source).outcome (u, t) = (.error (.uploadUnknown u.id), (u, t)) := by
  rw [write, outcome_bind, outcome_size_gone ht hstate hgone]

theorem outcome_write_offset (ht : t.LaidOut l) (hstate : u.state = .writing)
    (hfile : t.file? (l.path (.uploadData u.name u.id)) = some bytes) {offset : Nat}
    (hoffset : offset ≠ bytes.length) (source : Source) :
    (write l.inMemory offset source).outcome (u, t) =
      (.error (.invalidOffset bytes.length offset), (u, t)) := by
  rw [write, outcome_bind, outcome_size_stored ht hstate hfile]
  simp only [if_pos hoffset]
  rfl

/-- A write at the stored size catches up first; then the source fails, or it is appended and
hashed. -/
theorem outcome_write_stored (ht : t.LaidOut l) (hstate : u.state = .writing)
    (hfile : t.file? (l.path (.uploadData u.name u.id)) = some bytes) (hcovers : u.Covers bytes)
    (source : Source) :
    (write l.inMemory bytes.length source).outcome (u, t) =
      match source.failure with
      | some e => (.error (.storage (.ofIo MemoryStore.engine
          (l.path (.uploadData u.name u.id)) e)), (caught bytes u, t))
      | none => (.ok source.bytes.length, (hash source.bytes (caught bytes u),
          t.put (l.path (.uploadData u.name u.id)) (bytes ++ source.bytes))) := by
  have hwrite := t.outcome_writeStream (l.path (.uploadData u.name u.id)) bytes.length source
  rw [hfile, Option.getD_some, if_neg (Nat.lt_irrefl _), splice_length] at hwrite
  rw [write, outcome_bind, outcome_size_stored ht hstate hfile]
  simp only [ne_eq, not_true_eq_false, if_false]
  rw [outcome_bind, outcome_catchUp_stored hfile hcovers]
  simp only
  rw [outcome_bind, outcome_handle]
  simp only
  have hcall : ∀ x t', (MemoryStore.writeStream (l.path (.uploadData u.name u.id)) bytes.length
      source).outcome t = (x, t') →
        (onStorage (stored (l.inMemory.storage.writeStream
          (dataPath l.inMemory (caught bytes u)) bytes.length source))).outcome
            (caught bytes u, t) = (x.mapError .storage, (caught bytes u, t')) := by
    intro x t' h
    refine outcome_onStorage ?_
    show ((MemoryStore.writeStream (l.path (.uploadData u.name u.id)) bytes.length
      source).mapError _).outcome t = _
    rw [outcome_mapError, h]
  cases hfailure : source.failure with
  | some e =>
    simp only [hfailure] at hwrite
    rw [outcome_bind, hcall _ _ hwrite]
    rfl
  | none =>
    simp only [hfailure] at hwrite
    rw [outcome_bind, hcall _ _ hwrite]
    simp only [mapError_ok, if_true, List.take_length]
    rfl

/-! ### Finishing -/

theorem outcome_actualDigest (hfile : t.file? (l.path (.uploadData u.name u.id)) = some bytes)
    (hcovers : u.Covers bytes) (hall : u.hashed = bytes.length) (algorithm : Algorithm) :
    (actualDigest l.inMemory algorithm).outcome (u, t) =
      (.ok (Digest.ofBytes algorithm bytes), (u, t)) := by
  rw [actualDigest, outcome_bind, outcome_handle]
  simp only
  by_cases halgorithm : algorithm = u.running.algorithm
  · have hsame : algorithm = .sha256 := halgorithm.trans hcovers.algorithm
    rw [if_pos halgorithm, hcovers.finish hall, hsame]
    rfl
  · rw [if_neg halgorithm, rehash, outcome_bind, outcome_handle]
    simp only
    have hread := t.outcome_readStream (l.path (.uploadData u.name u.id)) 0
    rw [hfile] at hread
    simp only [if_neg (Nat.not_lt_zero bytes.length), List.drop_zero] at hread
    have hopened : (onStorage (orUnknown (.uploadUnknown u.id)
        (l.inMemory.storage.readStream (dataPath l.inMemory u) 0))).outcome (u, t) =
          (.ok bytes, (u, t)) := outcome_onStorage (outcome_orUnknown_ok hread)
    rw [outcome_bind, hopened]
    show (Except.ok (algorithm.start.update bytes).finish, (u, t)) = _
    rw [RunningDigest.finish_update_start]

theorem outcome_isMoved_stored (ht : t.LaidOut l)
    (hfile : t.file? (l.path (.uploadData u.name u.id)) = some bytes) (expected : Digest) :
    (isMoved l.inMemory expected).outcome (u, t) = (.ok false, (u, t)) := by
  have hstat := ht.outcome_stat (r := .uploadData u.name u.id) rfl
  rw [hfile] at hstat
  have hfound :
      (onStorage (found (l.inMemory.storage.stat (dataPath l.inMemory u)))).outcome (u, t) =
        (.ok (some ⟨bytes.length, false⟩), (u, t)) := outcome_onStorage (outcome_found_ok hstat)
  rw [isMoved, outcome_bind, outcome_handle]
  simp only
  rw [outcome_bind, hfound]
  rfl

theorem outcome_isMoved_gone (ht : t.LaidOut l)
    (hgone : t.file? (l.path (.uploadData u.name u.id)) = none) (expected : Digest) :
    (isMoved l.inMemory expected).outcome (u, t) =
      (.ok (t.file? (l.path (.blobData expected))).isSome, (u, t)) := by
  have hstat := ht.outcome_stat (r := .uploadData u.name u.id) rfl
  rw [hgone] at hstat
  have hfound :
      (onStorage (found (l.inMemory.storage.stat (dataPath l.inMemory u)))).outcome (u, t) =
        (.ok none, (u, t)) := outcome_onStorage (outcome_found_missing rfl hstat)
  rw [isMoved, outcome_bind, outcome_handle]
  simp only
  rw [outcome_bind, hfound]
  exact outcome_onStorage (Registry.outcome_blobExists expected)

/-- Bytes that are stored under another digest are left alone. -/
theorem outcome_settle_mismatch (ht : t.LaidOut l) (hstate : u.state = .writing)
    (hfile : t.file? (l.path (.uploadData u.name u.id)) = some bytes) (hcovers : u.Covers bytes)
    (hdigest : Digest.ofBytes expected.algorithm bytes ≠ expected) :
    (settle l.inMemory expected).outcome (u, t) =
      (.error (.digestMismatch expected (Digest.ofBytes expected.algorithm bytes)),
        (caught bytes u, t)) := by
  rw [settle, outcome_bind, outcome_size_stored ht hstate hfile]
  simp only
  rw [outcome_bind, outcome_catchUp_stored hfile hcovers]
  simp only
  rw [outcome_bind, outcome_actualDigest (u := caught bytes u) hfile hcovers.caught
    hcovers.hashed_caught]
  simp only [if_pos hdigest]
  rfl

/-- Bytes that have the claimed digest are in the blob store then. -/
theorem outcome_settle_match (ht : t.LaidOut l) (hstate : u.state = .writing)
    (hfile : t.file? (l.path (.uploadData u.name u.id)) = some bytes) (hcovers : u.Covers bytes)
    (hdigest : Digest.ofBytes expected.algorithm bytes = expected) :
    (settle l.inMemory expected).outcome (u, t) =
      (.ok (), (caught bytes u, t.settled l u.name u.id expected)) := by
  have hexists : (onStorage (l.inMemory.blobExists expected)).outcome (caught bytes u, t) =
      (.ok (t.file? (l.path (.blobData expected))).isSome, (caught bytes u, t)) :=
    outcome_onStorage (Registry.outcome_blobExists expected)
  rw [settle, outcome_bind, outcome_size_stored ht hstate hfile]
  simp only
  rw [outcome_bind, outcome_catchUp_stored hfile hcovers]
  simp only
  rw [outcome_bind, outcome_actualDigest (u := caught bytes u) hfile hcovers.caught
    hcovers.hashed_caught]
  simp only [hdigest, ne_eq, not_true_eq_false, if_false]
  rw [outcome_bind, hexists]
  cases hblob : t.file? (l.path (.blobData expected)) with
  | some content =>
    simp only [Option.isSome_some, if_true, MemoryStore.settled, hblob]
    rfl
  | none =>
    have hoccupied : t.occupied (l.path (.uploadData u.name u.id)) = true :=
      (ht.occupied_file_iff rfl).2 ⟨bytes, hfile⟩
    have hrename :=
      t.outcome_rename (l.path (.uploadData u.name u.id)) (l.path (.blobData expected))
    rw [if_pos hoccupied] at hrename
    simp only [Option.isSome_none, Bool.false_eq_true, if_false, MemoryStore.settled, hblob]
    exact outcome_onStorage_stored hrename

/-- A stored blob is linked, and the upload is retired. -/
theorem outcome_commit (ht : t.LaidOut l)
    (hblob : t.file? (l.path (.blobData expected)) = some content) :
    (commit l.inMemory expected).outcome (u, t) = (.ok ⟨expected, content.length⟩,
      ({ u with state := .finished }, t.committed l u.name u.id expected)) := by
  have hlink : (onStorage (Repository.linkLayer ⟨l.inMemory, u.name⟩ expected
      (l.inMemory.blobPath expected))).outcome (u, t) =
        (.ok (), (u, t.withLink l u.name expected)) := rfl
  have hremove : (onStorage (remove l.inMemory u.name u.id)).outcome
      (u, t.withLink l u.name expected) =
        (.ok (), (u, t.committed l u.name u.id expected)) :=
    outcome_onStorage (outcome_remove _ _ _)
  have hstored : (t.committed l u.name u.id expected).file? (l.path (.blobData expected)) =
      some content := by
    rw [ht.file?_committed rfl, if_neg (by simp), if_neg (by simp), hblob]
  rw [commit, outcome_bind, outcome_handle]
  simp only
  rw [outcome_bind, hlink]
  simp only
  rw [outcome_bind, hremove]
  simp only
  rw [outcome_bind, outcome_change]
  exact outcome_onStorage (Registry.outcome_blobStat_stored hstored)

/-- **Under another digest than that of its bytes** an upload stays as it is. -/
theorem outcome_finish_mismatch (ht : t.LaidOut l) (hstate : u.state = .writing)
    (hfile : t.file? (l.path (.uploadData u.name u.id)) = some bytes) (hcovers : u.Covers bytes)
    (hdigest : Digest.ofBytes expected.algorithm bytes ≠ expected) :
    (finish l.inMemory expected).outcome (u, t) =
      (.error (.digestMismatch expected (Digest.ofBytes expected.algorithm bytes)),
        (caught bytes u, t)) := by
  rw [finish, outcome_bind, outcome_ensureOpen_writing hstate]
  simp only
  rw [outcome_bind, outcome_isMoved_stored ht hfile]
  simp only [Bool.false_eq_true, if_false]
  rw [outcome_bind, outcome_settle_mismatch ht hstate hfile hcovers hdigest]

/-- **Under the digest of its bytes** an upload becomes a layer, unless one is there as the
stored blob. -/
theorem outcome_finish_match (ht : t.LaidOut l) (hstate : u.state = .writing)
    (hfile : t.file? (l.path (.uploadData u.name u.id)) = some bytes) (hcovers : u.Covers bytes)
    (hdigest : Digest.ofBytes expected.algorithm bytes = expected) :
    (finish l.inMemory expected).outcome (u, t) =
      (.ok ⟨expected, ((t.file? (l.path (.blobData expected))).getD bytes).length⟩,
        ({ caught bytes u with state := .finished },
          (t.settled l u.name u.id expected).committed l u.name u.id expected)) := by
  have hblob : (t.settled l u.name u.id expected).file? (l.path (.blobData expected)) =
      some ((t.file? (l.path (.blobData expected))).getD bytes) := by
    rw [ht.file?_settled hfile (by simp), if_pos rfl]
  rw [finish, outcome_bind, outcome_ensureOpen_writing hstate]
  simp only
  rw [outcome_bind, outcome_isMoved_stored ht hfile]
  simp only [Bool.false_eq_true, if_false]
  rw [outcome_bind, outcome_settle_match ht hstate hfile hcovers hdigest]
  exact outcome_commit (u := caught bytes u) (ht.settled hfile expected) hblob

/-- **With its bytes gone** an upload is finished by the claimed blob. -/
theorem outcome_finish_moved (ht : t.LaidOut l) (hstate : u.state = .writing)
    (hgone : t.file? (l.path (.uploadData u.name u.id)) = none)
    (hblob : t.file? (l.path (.blobData expected)) = some content) :
    (finish l.inMemory expected).outcome (u, t) = (.ok ⟨expected, content.length⟩,
      ({ u with state := .finished }, t.committed l u.name u.id expected)) := by
  rw [finish, outcome_bind, outcome_ensureOpen_writing hstate]
  simp only
  rw [outcome_bind, outcome_isMoved_gone ht hgone, hblob]
  simp only [Option.isSome_some, if_true]
  exact outcome_commit ht hblob

theorem outcome_finish_gone (ht : t.LaidOut l) (hstate : u.state = .writing)
    (hgone : t.file? (l.path (.uploadData u.name u.id)) = none)
    (hblob : t.file? (l.path (.blobData expected)) = none) :
    (finish l.inMemory expected).outcome (u, t) = (.error (.uploadUnknown u.id), (u, t)) := by
  rw [finish, outcome_bind, outcome_ensureOpen_writing hstate]
  simp only
  rw [outcome_bind, outcome_isMoved_gone ht hgone, hblob]
  simp only [Option.isSome_none, Bool.false_eq_true, if_false]
  rw [outcome_bind, settle, outcome_bind, outcome_size_gone ht hstate hgone]

theorem outcome_cancel_writing (hstate : u.state = .writing) :
    (cancel l.inMemory).outcome (u, t) =
      (.ok (), ({ u with state := .cancelled }, t.retired l u.name u.id)) := by
  have hremove : (onStorage (remove l.inMemory u.name u.id)).outcome (u, t) =
      (.ok (), (u, t.retired l u.name u.id)) := outcome_onStorage (outcome_remove _ _ _)
  rw [cancel, outcome_bind, outcome_handle]
  simp only [hstate]
  rw [outcome_bind, hremove]
  rfl

end Upload

/-- What an operation leaves behind that uses a handle. -/
theorem World.after_outcome {α : Type} {l : Layout} {w : World} {op : Operation} {handle : Nat}
    {u v : Upload} {t : MemoryStore} {x : Except RegistryError α}
    {action : UploadAction MemoryStore α}
    (hact : Session.act l.inMemory ⟨w.store, w.handles⟩ op =
      Session.uses ⟨w.store, w.handles⟩ handle action)
    (hu : w.handles[handle]? = some u) (h : action.outcome (u, w.store) = (x, (v, t))) :
    (w.after l MemoryStore.reliable w.store op).store = t ∧
      (w.after l MemoryStore.reliable w.store op).handles = w.handles.set handle v := by
  obtain ⟨hstore, hhandles⟩ := @World.after_uses α w l MemoryStore.reliable w.store op handle
    u action hact hu
  exact ⟨hstore.trans (congrArg (fun p => p.2.2) h),
    hhandles.trans (congrArg (fun p => w.handles.set handle p.2.1) h)⟩

end ContainerRegistry
