/-
# The bytes that landed decide about an upload

However writes failed before and through however many handles they were made,
the bytes that landed in an upload decide what any handle that still writes is
answered while they are stored: its size, which write may come next, and whether
the upload can be finished under a digest, in either algorithm. A digest that is
not theirs changes nothing, and after one that is the layer reads as them. The
driver that answers may fail in its writes at most.

Key definitions: `MemoryStore.Holds`, `Verdict`.
Key theorems: `Upload.verdict`.
-/
import ContainerRegistry.Proofs.Reliable

namespace ContainerRegistry

open ContainerRegistry.Action

/-- Whether some file of a store has certain bytes. -/
def MemoryStore.Holds (t : MemoryStore) (bytes : Bytes) : Prop :=
  ∃ place : List Component, t.files[place]? = some bytes

/-- What the bytes that landed in an upload decide, for a handle on a driver in a state. -/
structure Verdict (l : Layout) (w : World) (u : Upload) (d : Unreliable) (s : d.State) : Prop where
  /-- The size is the number of bytes that landed. -/
  size : ((Upload.size (d.registry l)).outcome (u, s)).1 = .ok (w.landedIn u.name u.id).length
  /-- A write that starts anywhere else is refused, and changes no file. -/
  write : ∀ offset source, offset ≠ (w.landedIn u.name u.id).length →
    ((Upload.write (d.registry l) offset source).outcome (u, s)).1 =
        .error (.invalidOffset (w.landedIn u.name u.id).length offset) ∧
      d.view.look ((Upload.write (d.registry l) offset source).outcome (u, s)).2.2 = w.store
  /-- The upload can be finished exactly under the digests of those bytes. -/
  finish : ∀ expected,
    (∃ descriptor, ((Upload.finish (d.registry l) expected).outcome (u, s)).1 = .ok descriptor) ↔
      Digest.ofBytes expected.algorithm (w.landedIn u.name u.id) = expected
  /-- Any other digest is answered with theirs, changes no file and leaves the handle writing. -/
  mismatch : ∀ expected, Digest.ofBytes expected.algorithm (w.landedIn u.name u.id) ≠ expected →
    ((Upload.finish (d.registry l) expected).outcome (u, s)).1 =
        .error (.digestMismatch expected
          (Digest.ofBytes expected.algorithm (w.landedIn u.name u.id))) ∧
      d.view.look ((Upload.finish (d.registry l) expected).outcome (u, s)).2.2 = w.store ∧
      ((Upload.finish (d.registry l) expected).outcome (u, s)).2.1.state = .writing
  /-- Once finished, the layer reads as those bytes from any offset, if digests tell the
  stored contents apart. -/
  served : Digest.Separates w.store.Holds → ∀ expected,
    Digest.ofBytes expected.algorithm (w.landedIn u.name u.id) = expected →
    ∀ offset, offset ≤ (w.landedIn u.name u.id).length →
      Repository.Serves l
        (d.view.look ((Upload.finish (d.registry l) expected).outcome (u, s)).2.2)
        u.name expected offset ((w.landedIn u.name u.id).drop offset)

/-- **The bytes that landed in an upload decide about it** while they are stored. -/
theorem Upload.verdict {l : Layout} {w : World} (hw : Reachable l w) {u : Upload}
    (hu : u ∈ w.handles) (hstate : u.state = .writing) {bytes : Bytes}
    (hfile : w.store.file? (l.path (.uploadData u.name u.id)) = some bytes) (d : Unreliable)
    (hfails : ¬ d.fails) (s : d.State) (hs : d.view.admits s) (hst : d.view.look s = w.store) :
    Verdict l w u d s := by
  have hinv : w.Inv l := hw.inv
  have ht : w.store.LaidOut l := hinv.laidOut
  have htracks : u.Tracks l w.store := (hinv.handles u hu).2
  have hlook : d.onHandle.look (u, s) = (u, w.store) := congrArg (Prod.mk u) hst
  obtain rfl : bytes = w.landedIn u.name u.id := hinv.landed _ _ bytes hfile
  have hfinish := fun expected =>
    (Upload.finish_of_file hfails ht htracks hstate hfile expected (u, s) hs hlook).2
  constructor
  case size =>
    exact (Upload.size_of_file ht hfails hstate hfile (u, s) hs hlook).2.1
  case write =>
    intro offset source hoffset
    obtain ⟨-, hrefused, hsame⟩ :=
      Upload.write_offset ht hfails hstate hfile hoffset source (u, s) hs hlook
    exact ⟨hrefused, congrArg Prod.snd hsame⟩
  case finish =>
    intro expected
    constructor
    · intro hok
      rcases hfinish expected with ⟨-, herror, -⟩ | ⟨hdigest, -⟩
      · exact absurd hok (not_ok_of_eq_error herror)
      · exact hdigest
    · intro hdigest
      rcases hfinish expected with ⟨hmismatch, -⟩ | ⟨-, content, hok, -⟩
      · exact absurd hdigest hmismatch
      · exact ⟨_, hok⟩
  case mismatch =>
    intro expected hmismatch
    rcases hfinish expected with ⟨-, herror, hstore, hwriting⟩ | ⟨hdigest, -⟩
    · exact ⟨herror, hstore, hwriting⟩
    · exact absurd hdigest hmismatch
  case served =>
    intro hseparates expected hdigest offset hoffset
    rcases hfinish expected with ⟨hmismatch, -⟩ | ⟨-, content, -, -, horigin, hblob, hlink⟩
    · exact absurd hdigest hmismatch
    · -- a blob that was there already is the content that the digest names
      have hcontent : content = w.landedIn u.name u.id := by
        rcases horigin with hsame | hstored
        · exact hsame
        · refine hseparates expected.algorithm _ _ ⟨_, hstored⟩ ⟨_, hfile⟩ ?_
          exact (hinv.addressed expected content hstored).1.trans hdigest.symm
      subst hcontent
      have hedits := (Upload.finish_edits (i := ⟨fun _ _ => False, fun _ => True⟩) ht htracks
        (fun _ _ => trivial) expected (u, s) hs hlook).2.1
      exact Repository.serves_of_link (hedits.laidOut ht) hlink hblob hoffset

/-- Three bytes that landed, and a write that is going to fail. -/
theorem Upload.verdict_of_three_bytes : ∃ l w u, Reachable l w ∧ u ∈ w.handles ∧
    u.state = .writing ∧ w.landedIn u.name u.id = [1, 2, 3] ∧
    Verdict l w u (Faulty.unreliable (· = .writeStream))
      ⟨w.store, [⟨.writeStream, "data", 0, .partialWrite, .io, "cut", 1⟩]⟩ := by
  obtain ⟨w, u, hw, hhandles, hname, hid, hstate, -, -, hfile, -⟩ := Reachable.exists_upload
    (l := default) .empty ⟨"team/one", by decide⟩
    ⟨"00000000-0000-0000-0000-000000000001", by decide⟩ (by simp [World.empty]) [1, 2, 3]
  rw [← hname, ← hid] at hfile
  have hu : u ∈ w.handles := by simp [hhandles, World.empty]
  refine ⟨default, w, u, hw, hu, hstate, (hw.inv.landed _ _ _ hfile).symm, ?_⟩
  exact Upload.verdict hw hu hstate hfile (Faulty.unreliable (· = .writeStream))
    Faulty.not_failsBesidesWrites _ (by simp [Faulty.unreliable, Faulty.beneath]) rfl

end ContainerRegistry
