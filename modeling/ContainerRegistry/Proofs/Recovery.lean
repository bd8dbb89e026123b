/-
# Without its bytes an upload is finished by any stored blob

A finish that finds the bytes of its upload gone takes it that an earlier attempt
has moved them, and links the claimed blob if it is stored. That the blob is of
this upload is not asked: when the upload was cancelled by its identifier, or
finished through another handle, a handle that still writes can be finished under
the digest of any blob that any repository has stored, and the blob is linked.
So an upload is finished exactly if its bytes are stored and have the digest, or
are gone and a blob has it.

Key theorems: `Upload.finish_succeeds_iff`, `Upload.not_forall_finish_landed`.
-/
import ContainerRegistry.Proofs.Reliable

namespace ContainerRegistry

open ContainerRegistry.Action

namespace Upload

/-- **When a handle that writes can be finished**: in any reachable world, on a driver
that fails in its writes at most. Success links the blob. -/
theorem finish_succeeds_iff {l : Layout} {w : World} (hw : Reachable l w) {u : Upload}
    (hu : u ∈ w.handles) (hstate : u.state = .writing) (d : Unreliable) (hfails : ¬ d.fails)
    (s : d.State) (hs : d.view.admits s) (hst : d.view.look s = w.store) (expected : Digest) :
    ((∃ descriptor, ((finish (d.registry l) expected).outcome (u, s)).1 = .ok descriptor) ↔
      (w.store.file? (l.path (.uploadData u.name u.id)) = some (w.landedIn u.name u.id) ∧
        Digest.ofBytes expected.algorithm (w.landedIn u.name u.id) = expected) ∨
      (w.store.file? (l.path (.uploadData u.name u.id)) = none ∧
        ∃ content, w.store.file? (l.path (.blobData expected)) = some content)) ∧
    ((∃ descriptor, ((finish (d.registry l) expected).outcome (u, s)).1 = .ok descriptor) →
      (d.view.look ((finish (d.registry l) expected).outcome (u, s)).2.2).file?
        (l.path (.layerLink u.name expected)) =
          some (Bytes.ofText (l.path (.blobData expected)).text)) := by
  have hinv : w.Inv l := hw.inv
  have hlook : d.onHandle.look (u, s) = (u, w.store) := congrArg (Prod.mk u) hst
  cases hfile : w.store.file? (l.path (.uploadData u.name u.id)) with
  | some bytes =>
    obtain rfl : bytes = w.landedIn u.name u.id := hinv.landed _ _ bytes hfile
    obtain ⟨-, ⟨hmismatch, herror, -⟩ | ⟨hdigest, content, hok, -, -, -, hlink⟩⟩ := finish_of_file
      hfails hinv.laidOut (hinv.handles u hu).2 hstate hfile expected (u, s) hs hlook
    · have hnot := not_ok_of_eq_error herror
      exact ⟨by simp [hnot, hmismatch], fun hok => absurd hok hnot⟩
    · exact ⟨⟨fun _ => Or.inl ⟨rfl, hdigest⟩, fun _ => ⟨_, hok⟩⟩, fun _ => hlink⟩
  | none =>
    obtain ⟨-, ⟨hmissing, ⟨e, herror⟩, -⟩ | ⟨content, hblob, hok, hlink⟩⟩ := finish_of_absent
      hfails hinv.laidOut hstate hfile expected (u, s) hs hlook
    · have hnot := not_ok_of_eq_error herror
      exact ⟨by simp [hnot, hmissing], fun hok => absurd hok hnot⟩
    · exact ⟨⟨fun _ => Or.inr ⟨rfl, content, hblob⟩, fun _ => ⟨_, hok⟩⟩, fun _ => hlink⟩

/-- One repository stores a byte as a blob; an upload into another, in which nothing
has landed, is cancelled by its identifier while its handle goes on writing. -/
theorem exists_cancelled (l : Layout) : ∃ w u, Reachable l w ∧ u ∈ w.handles ∧
    u.state = .writing ∧ w.landedIn u.name u.id = [] ∧
    w.store.file? (l.path (.uploadData u.name u.id)) = none ∧
    ∃ content, w.store.file? (l.path (.blobData (Digest.sha256 [1]))) = some content := by
  obtain ⟨w₁, hw₁, -, hdrawn₁, ⟨content, hblob₁⟩, -⟩ := Reachable.exists_layer (l := l) .empty
    ⟨"team/one", by decide⟩ ⟨"00000000-0000-0000-0000-000000000001", by decide⟩
    (by simp [World.empty]) [1] .sha256
  obtain ⟨w₂, u, hw₂, hhandles₂, hname₂, hid₂, hstate₂, -, -, hfile₂, hkept₂⟩ :=
    hw₁.exists_upload ⟨"team/two", by decide⟩ ⟨"00000000-0000-0000-0000-000000000002", by decide⟩
      (by simp [hdrawn₁, World.empty]) []
  rw [← hname₂, ← hid₂] at hfile₂
  obtain ⟨w₃, hw₃, hhandles₃, hlanded₃, hgone₃, hkept₃⟩ :=
    hw₂.exists_cancelUpload u.name u.id
  refine ⟨w₃, u, hw₃, by simp [hhandles₃, hhandles₂], hstate₂, ?_, hgone₃, content, ?_⟩
  · rw [World.landedIn, hlanded₃]
    exact (hw₂.inv.landed _ _ _ hfile₂).symm
  · rw [hkept₃ _ rfl rfl, hkept₂ _ rfl rfl]
    exact hblob₁

/-- The digest of a byte is not that of nothing. -/
theorem sha256_nil_ne : Digest.sha256 [] ≠ Digest.sha256 [1] := by decide +kernel

/-- The cancelled upload is finished by the blob of the other repository. -/
theorem finish_succeeds_cancelled : ∃ (l : Layout) (w : World) (u : Upload), Reachable l w ∧
    u ∈ w.handles ∧ u.state = .writing ∧ w.landedIn u.name u.id = [] ∧
    ∃ descriptor, ((finish l.inMemory (Digest.sha256 [1])).outcome (u, w.store)).1 =
      .ok descriptor := by
  obtain ⟨w, u, hw, hu, hstate, hlanded, hgone, hblob⟩ := exists_cancelled default
  exact ⟨default, w, u, hw, hu, hstate, hlanded, (finish_succeeds_iff hw hu hstate
    MemoryStore.reliable MemoryStore.not_reliable_fails w.store trivial rfl
    (Digest.sha256 [1])).1.2 (Or.inr ⟨hgone, hblob⟩)⟩

/-- **A finish that succeeds does not say that the bytes have the digest** that landed
in the upload, nor that any did. -/
theorem not_forall_finish_landed : ¬ ∀ (l : Layout) (w : World), Reachable l w →
    ∀ u ∈ w.handles, u.state = .writing → ∀ expected descriptor,
      ((finish l.inMemory expected).outcome (u, w.store)).1 = .ok descriptor →
        Digest.ofBytes expected.algorithm (w.landedIn u.name u.id) = expected := by
  intro hclaim
  obtain ⟨w, u, hw, hu, hstate, hlanded, hgone, content, hblob⟩ := exists_cancelled default
  obtain ⟨-, ⟨hmissing, -⟩ | ⟨_, -, hok, -⟩⟩ := finish_of_absent MemoryStore.not_reliable_fails
    hw.inv.laidOut hstate hgone (Digest.sha256 [1]) (u, w.store) trivial rfl
  · cases hmissing.symm.trans hblob
  · have hdigest := hclaim default w hw u hu hstate (Digest.sha256 [1]) _ hok
    rw [hlanded] at hdigest
    exact sha256_nil_ne hdigest

end Upload
end ContainerRegistry
