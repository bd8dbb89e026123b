/-
# How far handles have hashed

Storage may refuse a write, land a part of it and fail, or land less than it takes; a source
may fail midway, a stream may break while a handle catches up, and other handles append to the
same file. Whatever a run was made of, a handle that writes has hashed a prefix of the bytes
that are stored, as long as they are there.

A write moves a handle on in two strides. Catching up takes it to the end of what is stored, or
a part of the way where reading breaks, and what was written is hashed only if all that was
taken of the source landed. So a write that fails leaves the handle with a prefix of the bytes
that were stored before it, and one that succeeds leaves it at either end of what was added.

Key definitions: `Upload.Advanced`, `World.Accounts`.
Key theorems: `Upload.write_advances`, `Reachable.running_digest`.
-/
import ContainerRegistry.Proofs.Reliable

namespace ContainerRegistry

open ContainerRegistry.Action

variable {l : Layout}

namespace Upload

/-- How far a handle has come by a write at an offset that was answered so. -/
structure Advanced (l : Layout) (t : MemoryStore) (offset : Nat) (u : Upload)
    (answer : Except RegistryError Nat) (u' : Upload) : Prop where
  same : Same u u'
  /-- No byte is hashed again. -/
  le : u.hashed ≤ u'.hashed
  /-- A write that fails leaves a prefix of the bytes that were stored before it. -/
  failed : ∀ e, answer = .error e → ∀ bytes,
    t.file? (l.path (.uploadData u.name u.id)) = some bytes → u'.Covers bytes
  /-- Where no bytes are stored a write fails, and the handle stays as it is. -/
  missing : t.file? (l.path (.uploadData u.name u.id)) = none →
    (∃ e, answer = .error e) ∧ u' = u
  /-- A write that succeeds leaves the stored bytes hashed, and all that it added or nothing
  of it. -/
  written : ∀ n, answer = .ok n →
    ∃ bytes, t.file? (l.path (.uploadData u.name u.id)) = some bytes ∧ offset = bytes.length ∧
      (u'.hashed = bytes.length ∨ u'.hashed = bytes.length + n)

namespace Advanced

variable {t : MemoryStore} {offset : Nat} {u u' : Upload} {bytes : Bytes}

/-- A write that is refused. -/
theorem unmoved (htracks : u.Tracks l t) (e : RegistryError) :
    Advanced l t offset u (.error e) u where
  same := .refl u
  le := Nat.le_refl _
  failed _ _ := htracks
  missing _ := ⟨⟨e, rfl⟩, rfl⟩
  written n h := by cases h

/-- A write that fails after some of the stored bytes were hashed. -/
theorem stored (hfile : t.file? (l.path (.uploadData u.name u.id)) = some bytes)
    (hsame : Same u u') (hcovers : u'.Covers bytes) (hle : u.hashed ≤ u'.hashed)
    (e : RegistryError) : Advanced l t offset u (.error e) u' where
  same := hsame
  le := hle
  failed _ _ _ hfile' := Option.some.inj (hfile.symm.trans hfile') ▸ hcovers
  missing hgone := by cases hgone.symm.trans hfile
  written n h := by cases h

end Advanced

variable {d : Unreliable} {t : MemoryStore} {u : Upload}

/-- **A write advances a handle by stored bytes alone**, unless storage confirms all that it
took. -/
theorem write_advances (ht : t.LaidOut l) (htracks : u.Tracks l t) (offset : Nat)
    (source : Source) :
    (write (d.registry l) offset source).Ensures d.onHandle (u, t) fun answer w =>
      Advanced l t offset u answer w.1 := by
  refine ensures_write ht htracks ?refused ?behind ?cut ?written
  case refused =>
    exact .unmoved htracks
  case behind =>
    exact fun bytes u' hfile hsame hcovers hle e => .stored hfile hsame hcovers hle e
  case cut =>
    -- what landed of a write that fails is in the file, but not hashed
    intro bytes u' n hfile hsame hcovers hall _ e
    exact .stored hfile hsame hcovers (hall ▸ (htracks bytes hfile).le) e
  case written =>
    intro bytes u' n hfile hoffset hsame _ hhashed _
    have hstored : u.hashed ≤ bytes.length := (htracks bytes hfile).le
    have hle : u.hashed ≤ u'.hashed := by
      rcases hhashed with h | h <;> omega
    constructor
    case same => exact hsame
    case le => exact hle
    case failed =>
      intro e h
      cases h
    case missing =>
      intro hgone
      cases hgone.symm.trans hfile
    case written =>
      intro m h
      cases h
      exact ⟨bytes, hfile, hoffset, hhashed⟩

end Upload

/-- The running digest of a handle accounts for stored bytes. -/
structure World.Accounts (l : Layout) (w : World) (handle : Nat) (u : Upload) : Prop where
  /-- It is in the state that comes of feeding a fresh one the bytes that it covers, which are
  stored. -/
  running : u.state = .writing → ∀ bytes,
    w.store.file? (l.path (.uploadData u.name u.id)) = some bytes →
      u.hashed ≤ bytes.length ∧ u.running = Algorithm.sha256.start.update (bytes.take u.hashed)
  /-- A write on any driver, in any of its states, leaves a handle that has come so far. -/
  write : ∀ (d : Unreliable) (s : d.State), d.view.admits s → d.view.look s = w.store →
    ∀ (offset : Nat) (source : Source), ∃ u',
      (w.after l d s (.write handle offset source)).handles = w.handles.set handle u' ∧
        Upload.Advanced l w.store offset u
          ((Upload.write (d.registry l) offset source).outcome (u, s)).1 u'

/-- **The running digest of a handle is that of a prefix of the stored bytes**, in every world
that is reached, and a write that fails advances it to the end of what was stored before it at
most. -/
theorem Reachable.running_digest {w : World} (hw : Reachable l w) {handle : Nat} {u : Upload}
    (hu : w.handles[handle]? = some u) : w.Accounts l handle u := by
  have hinv : w.Inv l := hw.inv
  have htracks : u.Tracks l w.store := (hinv.handles u (List.mem_of_getElem? hu)).2
  constructor
  case running =>
    intro _ bytes hfile
    have hcovers : u.Covers bytes := htracks bytes hfile
    exact ⟨hcovers.le, hcovers.running⟩
  case write =>
    intro d s hs hst offset source
    have hlook : d.onHandle.look (u, s) = (u, w.store) := congrArg (Prod.mk u) hst
    have hadvanced := (Upload.write_advances hinv.laidOut htracks offset source (u, s) hs hlook).2
    exact ⟨_, (World.after_uses rfl hu).2, hadvanced⟩

/-- A handle under which three bytes are stored. -/
theorem Reachable.running_digest_of_three_bytes : ∃ w u, Reachable default w ∧
    w.handles[0]? = some u ∧ u.state = .writing ∧
    w.store.file? (Layout.path default (.uploadData u.name u.id)) = some [1, 2, 3] ∧
    w.Accounts default 0 u := by
  obtain ⟨w, u, hw, hhandles, hname, hid, hstate, -, -, hfile, -⟩ := Reachable.exists_upload
    (l := default) .empty ⟨"team/one", by decide⟩
    ⟨"00000000-0000-0000-0000-000000000001", by decide⟩ (by simp [World.empty]) [1, 2, 3]
  rw [← hname, ← hid] at hfile
  have hget : w.handles[0]? = some u := by simp [hhandles, World.empty]
  exact ⟨w, u, hw, hget, hstate, hfile, Reachable.running_digest hw hget⟩

end ContainerRegistry
