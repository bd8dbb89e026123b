/-
# A handle's running digest covers stored bytes

A handle on an upload keeps the digest of the first `hashed` bytes that are
stored (`Upload.Covers`). Catching up, writing and the failures in between keep
it so: what was pulled before a stream broke is a prefix of what was asked for,
and a write moves the digest on only by what landed. Other handles only append
to the file, which leaves a covered prefix covered.

Key definitions: `Unreliable.onHandle`, `Upload.Covers`, `Upload.Tracks`, `Upload.Same`,
`Upload.Kept`.
Key theorems: `Upload.Covers.hash`, `Upload.ensures_size`, `Upload.ensures_catchUp`,
`Upload.ensures_actualDigest`, `Upload.ensures_write`, `Upload.write_covers`.
-/
import ContainerRegistry.Proofs.Link
import ContainerRegistry.Registry.Upload

namespace ContainerRegistry

open ContainerRegistry.Action

namespace Unreliable

/-- The handle, and the store beneath. -/
def onHandle (d : Unreliable) : View (Upload × d.State) (Upload × MemoryStore) :=
  ⟨fun p => d.view.admits p.2, fun p => (p.1, d.view.look p.2)⟩

end Unreliable

namespace Upload

/-! ### What a handle has hashed -/

/-- The running digest is that of a prefix of certain bytes. -/
structure Covers (u : Upload) (bytes : Bytes) : Prop where
  le : u.hashed ≤ bytes.length
  running : u.running = Algorithm.sha256.start.update (bytes.take u.hashed)

/-- A handle tracks a store when it covers its file there, if there is one. -/
def Tracks (l : Layout) (t : MemoryStore) (u : Upload) : Prop :=
  ∀ bytes, t.file? (l.path (.uploadData u.name u.id)) = some bytes → u.Covers bytes

/-- What a handle tracks does not depend on its state. -/
theorem Tracks.of_state {l : Layout} {t : MemoryStore} {u : Upload} (h : u.Tracks l t)
    (state : UploadState) : Tracks l t { u with state := state } :=
  fun bytes hfile => ⟨(h bytes hfile).le, (h bytes hfile).running⟩

/-- Two handles differ in what they have hashed at most. -/
structure Same (u u' : Upload) : Prop where
  id : u'.id = u.id
  name : u'.name = u.name
  started : u'.started = u.started
  state : u'.state = u.state

theorem Same.refl (u : Upload) : Same u u :=
  ⟨rfl, rfl, rfl, rfl⟩

theorem Same.trans {u u' u'' : Upload} (h : Same u u') (h' : Same u' u'') : Same u u'' :=
  ⟨h'.id.trans h.id, h'.name.trans h.name, h'.started.trans h.started, h'.state.trans h.state⟩

/-- A handle that covers the file of an upload tracks the store. -/
theorem Same.tracks {u u' : Upload} {l : Layout} {t : MemoryStore} {bytes : Bytes}
    (h : Same u u') (hfile : t.file? (l.path (.uploadData u.name u.id)) = some bytes)
    (hcovers : u'.Covers bytes) : u'.Tracks l t := by
  intro bytes' hfile'
  rw [h.name, h.id] at hfile'
  rwa [Option.some.inj (hfile'.symm.trans hfile)]

/-- What an action leaves behind that writes into no upload: the store is edited, and
the handle is on the same upload and tracks what was stored of it. -/
structure Kept (l : Layout) (i : Intent) (t : MemoryStore) (u : Upload)
    (w : Upload × MemoryStore) : Prop where
  edits : Edits l i t w.2
  name : w.1.name = u.name
  id : w.1.id = u.id
  tracks : w.1.Tracks l t

/-- What keeps the bytes of an upload from being looked at. -/
def Obstructed (d : Unreliable) (l : Layout) (t : MemoryStore) (u : Upload) : Prop :=
  u.state ≠ .writing ∨ t.file? (l.path (.uploadData u.name u.id)) = none ∨ d.fails

theorem not_obstructed {d : Unreliable} {l : Layout} {t : MemoryStore} {u : Upload}
    (hfails : ¬ d.fails) (hstate : u.state = .writing) {bytes : Bytes}
    (hfile : t.file? (l.path (.uploadData u.name u.id)) = some bytes) : ¬ u.Obstructed d l t := by
  rintro (hclosed | hgone | hfault)
  · exact hclosed hstate
  · cases hgone.symm.trans hfile
  · exact hfails hfault

theorem same_hash (bytes : Bytes) (u : Upload) : Same u (hash bytes u) :=
  ⟨rfl, rfl, rfl, rfl⟩

namespace Covers

variable {u : Upload} {bytes : Bytes}

theorem opened (id : UploadId) (n : RepositoryName) (started : Instant) (bytes : Bytes) :
    (Upload.opened id n started).Covers bytes where
  le := Nat.zero_le _
  running := by simp [Upload.opened]

theorem algorithm (h : u.Covers bytes) : u.running.algorithm = .sha256 := by
  rw [h.running, RunningDigest.algorithm_update, RunningDigest.algorithm_start]

/-- More bytes at the end leave a covered prefix covered. -/
theorem append (h : u.Covers bytes) (more : Bytes) : u.Covers (bytes ++ more) where
  le := by
    rw [List.length_append]
    exact Nat.le_trans h.le (Nat.le_add_right _ _)
  running := by rw [h.running, List.take_append_of_le_length h.le]

/-- Hashing what comes next covers more. -/
theorem hash (h : u.Covers bytes) {next : Bytes} (hnext : next <+: bytes.drop u.hashed) :
    (Upload.hash next u).Covers bytes := by
  obtain ⟨rest, hrest⟩ := hnext
  have htake : bytes.take (u.hashed + next.length) = bytes.take u.hashed ++ next := by
    rw [List.take_add, ← hrest, List.take_left]
  constructor
  · have hle := congrArg List.length hrest
    simp only [List.length_append, List.length_drop] at hle
    have := h.le
    simp only [Upload.hash]
    omega
  · show u.running.update next = _
    rw [Upload.hash, htake, RunningDigest.update_append, ← h.running]

/-- Hashing what was appended covers all. -/
theorem hash_append (h : u.Covers bytes) (hall : u.hashed = bytes.length) (more : Bytes) :
    (Upload.hash more u).Covers (bytes ++ more) := by
  have hrest : (bytes ++ more).drop u.hashed = more := by rw [hall, List.drop_left]
  exact (h.append more).hash ⟨[], by rw [hrest, List.append_nil]⟩

/-- Where all bytes are covered, the running digest is theirs. -/
theorem finish (h : u.Covers bytes) (hall : u.hashed = bytes.length) :
    u.running.finish = Digest.ofBytes .sha256 bytes := by
  rw [h.running, hall, List.take_length, RunningDigest.finish_update_start]

/-- A handle does not cover more than is stored, so it has nothing to forget. -/
theorem shrink (h : u.Covers bytes) : Upload.shrink bytes.length u = u :=
  if_neg (Nat.not_lt.2 h.le)

end Covers

/-! ### The parts of actions on handles -/

variable {d : Unreliable} {l : Layout} {i : Intent} {t : MemoryStore} {u : Upload} {α : Type}

theorem ensures_onStorage {action : RegistryAction d.State α}
    {post : Except RegistryError α → Upload × MemoryStore → Prop}
    (h : action.Ensures d.view t fun x t' => post x (u, t')) :
    (onStorage action).Ensures d.onHandle (u, t) post := by
  refine Ensures.zoom (v := d.view) (w := t) fun s hs hst => ?_
  obtain ⟨u', s⟩ := s
  obtain ⟨rfl, rfl⟩ := Prod.mk.inj hst
  refine ⟨hs, rfl, h.mono fun x t' hpost s' hs' ht' => ?_⟩
  subst ht'
  exact ⟨hs', hpost⟩

theorem ensures_handle {post : Except RegistryError Upload → Upload × MemoryStore → Prop}
    (h : post (.ok u) (u, t)) :
    (handle : UploadAction d.State _).Ensures d.onHandle (u, t) post := by
  refine Ensures.bind_get fun s _ hst => ?_
  obtain ⟨rfl, rfl⟩ := Prod.mk.inj hst
  exact Ensures.pure h

theorem ensures_change {f : Upload → Upload}
    {post : Except RegistryError Unit → Upload × MemoryStore → Prop}
    (h : post (.ok ()) (f u, t)) :
    (change f : UploadAction d.State _).Ensures d.onHandle (u, t) post := by
  intro s hs hst
  obtain ⟨rfl, rfl⟩ := Prod.mk.inj hst
  exact ⟨hs, h⟩

theorem ensures_ensureOpen {post : Except RegistryError Unit → Upload × MemoryStore → Prop}
    (writing : u.state = .writing → post (.ok ()) (u, t))
    (closed : u.state ≠ .writing → post (.error .layerClosed) (u, t)) :
    (ensureOpen : UploadAction d.State _).Ensures d.onHandle (u, t) post := by
  refine Ensures.bind (ensures_handle ?_)
  simp only [Then]
  by_cases hstate : u.state = .writing
  · rw [if_pos hstate]
    exact Ensures.pure (writing hstate)
  · rw [if_neg hstate]
    exact Ensures.throw (closed hstate)

/-- The size of an upload is that of its file. -/
theorem ensures_size (ht : t.LaidOut l)
    {post : Except RegistryError Nat → Upload × MemoryStore → Prop}
    (measured : u.state = .writing → ∀ bytes,
      t.file? (l.path (.uploadData u.name u.id)) = some bytes → post (.ok bytes.length) (u, t))
    (failed : u.Obstructed d l t → ∀ e, post (.error e) (u, t)) :
    (size (d.registry l)).Ensures d.onHandle (u, t) post := by
  refine Ensures.bind (ensures_ensureOpen ?writing ?closed)
  case closed =>
    exact fun hstate => failed (Or.inl hstate) _
  case writing =>
    intro hstate
    refine Ensures.bind (ensures_handle ?_)
    refine Ensures.bind (ensures_onStorage (ensures_orUnknown
      (Unreliable.stat_path (r := .uploadData u.name u.id) ht rfl ?found ?missing ?fault)))
    case found =>
      exact fun bytes hfile => Ensures.pure (measured hstate bytes hfile)
    case missing =>
      exact fun hfile _ _ => failed (Or.inr (Or.inl hfile)) _
    case fault =>
      exact fun hfails _ => failed (Or.inr (Or.inr hfails)) _

/-- A handle that writes measures the stored bytes. -/
theorem size_of_file (ht : t.LaidOut l) (hfails : ¬ d.fails) (hstate : u.state = .writing)
    {bytes : Bytes} (hfile : t.file? (l.path (.uploadData u.name u.id)) = some bytes) :
    (size (d.registry l)).Ensures d.onHandle (u, t) fun x w =>
      x = .ok bytes.length ∧ w = (u, t) := by
  refine ensures_size ht ?measured ?failed
  case measured =>
    intro _ bytes' hfile'
    obtain rfl : bytes' = bytes := Option.some.inj (hfile'.symm.trans hfile)
    exact ⟨rfl, rfl⟩
  case failed =>
    exact fun hwhy => absurd hwhy (not_obstructed hfails hstate hfile)

/-- Catching up covers all stored bytes, or a prefix of them when it fails. -/
theorem ensures_catchUp {bytes : Bytes}
    (hfile : t.file? (l.path (.uploadData u.name u.id)) = some bytes) (hcovers : u.Covers bytes)
    {post : Except RegistryError Unit → Upload × MemoryStore → Prop}
    (caught : ∀ u', Same u u' → u'.Covers bytes → u'.hashed = bytes.length →
      post (.ok ()) (u', t))
    (fault : d.fails → ∀ u', Same u u' → u'.Covers bytes → u.hashed ≤ u'.hashed →
      ∀ e, post (.error e) (u', t)) :
    (catchUp (d.registry l) bytes.length).Ensures d.onHandle (u, t) post := by
  refine Ensures.bind (ensures_change ?_)
  rw [hcovers.shrink]
  refine Ensures.bind (ensures_handle ?_)
  simp only [Then]
  by_cases hall : u.hashed = bytes.length
  · rw [if_pos hall]
    exact Ensures.pure (caught u (.refl u) hcovers hall)
  · rw [if_neg hall]
    refine Ensures.bind (ensures_onStorage (ensures_orUnknown
      (Unreliable.readStream_path ?opened ?beyond ?missing ?fault)))
    case beyond =>
      intro bytes' hfile' hlong
      obtain rfl : bytes' = bytes := Option.some.inj (hfile'.symm.trans hfile)
      exact absurd hlong (Nat.not_lt.2 hcovers.le)
    case missing =>
      intro hfile'
      cases hfile'.symm.trans hfile
    case fault =>
      exact fun hfails e => fault hfails u (.refl u) hcovers (Nat.le_refl _) _
    case opened =>
      intro bytes' stream hfile' _ hsound hrest
      obtain rfl : bytes' = bytes := Option.some.inj (hfile'.symm.trans hfile)
      refine Ensures.bind_get fun s hs hst => ?_
      have hwanted : upTo (some (bytes'.length - u.hashed)) (bytes'.drop u.hashed) =
          bytes'.drop u.hashed :=
        List.take_of_length_le (Nat.le_of_eq List.length_drop)
      have hpull := d.pull_cases (some (bytes'.length - u.hashed)) hsound hs
      rw [hrest, hwanted] at hpull
      refine Ensures.bind (ensures_change ?_)
      rcases hpull with ⟨hwhole, hbytes⟩ | ⟨⟨e, hbroken⟩, hfails, hpre⟩
      · simp only [Then, hwhole, hbytes]
        refine Ensures.pure (caught _ (same_hash _ u) (hcovers.hash List.prefix_rfl) ?_)
        have hle : u.hashed ≤ bytes'.length := hcovers.le
        rw [Upload.hash, List.length_drop]
        exact Nat.add_sub_cancel' hle
      · simp only [Then, hbroken]
        exact Ensures.throw (fault hfails _ (same_hash _ u) (hcovers.hash hpre)
          (Nat.le_add_right _ _) _)

/-- Where all stored bytes are covered, their digest is found in either algorithm. -/
theorem ensures_actualDigest {bytes : Bytes}
    (hfile : t.file? (l.path (.uploadData u.name u.id)) = some bytes) (hcovers : u.Covers bytes)
    (hall : u.hashed = bytes.length) {algorithm : Algorithm}
    {post : Except RegistryError Digest → Upload × MemoryStore → Prop}
    (found : post (.ok (Digest.ofBytes algorithm bytes)) (u, t))
    (fault : d.fails → ∀ e, post (.error e) (u, t)) :
    (actualDigest (d.registry l) algorithm).Ensures d.onHandle (u, t) post := by
  refine Ensures.bind (ensures_handle ?_)
  simp only [Then]
  by_cases halgorithm : algorithm = u.running.algorithm
  · rw [if_pos halgorithm, hcovers.finish hall]
    rw [halgorithm, hcovers.algorithm] at found
    exact Ensures.pure found
  · rw [if_neg halgorithm]
    refine Ensures.bind (ensures_handle ?_)
    refine Ensures.bind (ensures_onStorage (ensures_orUnknown
      (Unreliable.readStream_path ?opened ?beyond ?missing ?fault)))
    case beyond =>
      intro bytes' _ hlong
      exact absurd hlong (Nat.not_lt_zero _)
    case missing =>
      intro hfile'
      cases hfile'.symm.trans hfile
    case fault =>
      exact fun hfails _ => fault hfails _
    case opened =>
      intro bytes' stream hfile' _ hsound hrest
      obtain rfl : bytes' = bytes := Option.some.inj (hfile'.symm.trans hfile)
      refine Ensures.bind_get fun s hs _ => ?_
      rcases d.pull_cases none hsound hs with ⟨hwhole, hbytes⟩ | ⟨⟨e, hbroken⟩, hfails, -⟩
      · simp only [hwhole]
        refine Ensures.pure ?_
        rw [hbytes, upTo, hrest, List.drop_zero, RunningDigest.finish_update_start]
        exact found
      · simp only [hbroken]
        exact Ensures.throw (fault hfails _)

/-! ### Writing -/

/-- A write that does not start at the stored size is refused before anything else. -/
theorem write_offset (ht : t.LaidOut l) (hfails : ¬ d.fails) (hstate : u.state = .writing)
    {bytes : Bytes} (hfile : t.file? (l.path (.uploadData u.name u.id)) = some bytes)
    {offset : Nat} (hoffset : offset ≠ bytes.length) (source : Source) :
    (write (d.registry l) offset source).Ensures d.onHandle (u, t) fun x w =>
      x = .error (.invalidOffset bytes.length offset) ∧ w = (u, t) := by
  refine Ensures.bind ((size_of_file ht hfails hstate hfile).mono ?_)
  rintro x w ⟨rfl, rfl⟩
  simp only [Then, if_pos hoffset]
  exact Ensures.throw ⟨rfl, rfl⟩

/-- A write is refused before anything is done, or it catches up, in part where reading
breaks, and then appends a part of its source. It succeeds where storage says that it did, and
the handle has hashed all that was added then, or nothing of it. -/
theorem ensures_write (ht : t.LaidOut l) (htracks : u.Tracks l t) {offset : Nat}
    {source : Source} {post : Except RegistryError Nat → Upload × MemoryStore → Prop}
    (refused : ∀ e, post (.error e) (u, t))
    (behind : ∀ bytes u', t.file? (l.path (.uploadData u.name u.id)) = some bytes →
      Same u u' → u'.Covers bytes → u.hashed ≤ u'.hashed → ∀ e, post (.error e) (u', t))
    (cut : ∀ bytes u' n, t.file? (l.path (.uploadData u.name u.id)) = some bytes →
      Same u u' → u'.Covers bytes → u'.hashed = bytes.length → n ≤ source.bytes.length → ∀ e,
      post (.error e)
        (u', t.put (l.path (.uploadData u.name u.id)) (bytes ++ source.bytes.take n)))
    (written : ∀ bytes u' n, t.file? (l.path (.uploadData u.name u.id)) = some bytes →
      offset = bytes.length → Same u u' → u'.Covers (bytes ++ source.bytes.take n) →
      u'.hashed = bytes.length ∨ u'.hashed = bytes.length + n → n ≤ source.bytes.length →
      post (.ok n)
        (u', t.put (l.path (.uploadData u.name u.id)) (bytes ++ source.bytes.take n))) :
    (write (d.registry l) offset source).Ensures d.onHandle (u, t) post := by
  refine Ensures.bind (ensures_size ht ?measured ?failed)
  case failed =>
    exact fun _ e => refused e
  case measured =>
    intro _ bytes hfile
    simp only [Then]
    by_cases hoffset : offset = bytes.length
    · rw [if_neg (not_not_intro hoffset)]
      refine Ensures.bind (ensures_catchUp hfile (htracks bytes hfile) ?caught ?fault)
      case fault =>
        exact fun _ u' hu' hcov hle e => behind bytes u' hfile hu' hcov hle e
      case caught =>
        intro u' hu' hcov hall
        refine Ensures.bind (ensures_handle ?_)
        refine Ensures.bind (ensures_onStorage (ensures_stored ?_))
        rw [hoffset, dataPath, Registry.path, hu'.name, hu'.id]
        refine Unreliable.writeStream_path hfile ?landed ?unwritten
        case unwritten =>
          exact fun _ => behind bytes u' hfile hu' hcov (hall ▸ (htracks bytes hfile).le) _
        case landed =>
          intro n x hn hwritten
          cases x with
          | error e => exact cut bytes u' n hfile hu' hcov hall hn _
          | ok transfer =>
            obtain rfl : transfer.written = n := hwritten transfer rfl
            simp only [mapError_ok, Then]
            split
            · rename_i htaken
              refine Ensures.bind (ensures_change (Ensures.pure (written bytes _ _ hfile hoffset
                (hu'.trans (same_hash _ u')) ?_ (Or.inr ?_) hn)))
              · rw [htaken]
                exact hcov.hash_append hall _
              · rw [Upload.hash, htaken, List.length_take, Nat.min_eq_left hn, hall]
            · exact Ensures.pure (written bytes u' _ hfile hoffset hu' (hcov.append _)
                (Or.inl hall) hn)
    · rw [if_pos hoffset]
      exact Ensures.throw (refused _)

/-- **A write appends what landed**, whatever it answers, and what the handle has
hashed stays a prefix of what is stored. -/
theorem write_covers (ht : t.LaidOut l) (htracks : u.Tracks l t) (offset : Nat)
    (source : Source) :
    (write (d.registry l) offset source).Ensures d.onHandle (u, t) fun _ w =>
      Same u w.1 ∧
        ((w.2 = t ∧ w.1.Tracks l t) ∨
          ∃ bytes n, t.file? (l.path (.uploadData u.name u.id)) = some bytes ∧
            n ≤ source.bytes.length ∧
            w.2 = t.put (l.path (.uploadData u.name u.id)) (bytes ++ source.bytes.take n) ∧
            w.1.Covers (bytes ++ source.bytes.take n)) := by
  refine ensures_write ht htracks ?refused ?behind ?cut ?written
  case refused =>
    exact fun _ => ⟨.refl u, Or.inl ⟨rfl, htracks⟩⟩
  case behind =>
    exact fun bytes u' hfile hu' hcov _ _ => ⟨hu', Or.inl ⟨rfl, hu'.tracks hfile hcov⟩⟩
  case cut =>
    exact fun bytes u' n hfile hu' hcov _ hn _ =>
      ⟨hu', Or.inr ⟨bytes, n, hfile, hn, rfl, hcov.append _⟩⟩
  case written =>
    exact fun bytes u' n hfile _ hu' hcov _ hn => ⟨hu', Or.inr ⟨bytes, n, hfile, hn, rfl, hcov⟩⟩

/-! ### Opening and abandoning -/

theorem ensures_remove {n : RepositoryName} {id : UploadId}
    {post : Except RegistryError Unit → MemoryStore → Prop}
    (removed : post (.ok ()) (t.remove (l.path (.upload n id)))) (kept : post (.ok ()) t) :
    (remove (d.registry l) n id).Ensures d.view t post :=
  Ensures.bind (Ensures.attempt (Unreliable.delete_path (Ensures.pure removed)
    fun _ => Ensures.pure kept))

theorem remove_edits (ht : t.LaidOut l) (n : RepositoryName) (id : UploadId) :
    (remove (d.registry l) n id).Ensures d.view t fun _ t' => Edits l i t t' :=
  ensures_remove (.single (Edit.remove ht n id)) .refl

/-- A new upload has no bytes. -/
theorem start_edits (ht : t.LaidOut l) {n : RepositoryName} {id : UploadId} (now : Instant)
    (hwrites : i.writes n id) (hfresh : t.file? (l.path (.uploadData n id)) = none) :
    (start (d.repository l n) id now).Ensures d.view t fun x t' =>
      Edits l i t t' ∧
        (∀ bytes, t'.file? (l.path (.uploadData n id)) = some bytes → bytes = []) ∧
        ∀ u, x = .ok u → u = opened id n now := by
  obtain ⟨t₁, ht₁⟩ : ∃ t₁, t₁ = t.put (l.path (.uploadStartedAt n id))
      (Bytes.ofText now.toOffsetText) := ⟨_, rfl⟩
  have hstarted : Edit l i t t₁ := ht₁ ▸ Edit.put ht rfl (.startedAt hwrites)
  have hput : Edit l i t₁ (t₁.put (l.path (.uploadData n id)) []) :=
    Edit.put hstarted.laidOut rfl (.data hwrites)
  have hmissing : t₁.file? (l.path (.uploadData n id)) = none := by
    rw [ht₁, MemoryStore.file?_put_path rfl, if_neg (by simp), hfresh]
  have hempty : (t₁.put (l.path (.uploadData n id)) []).file? (l.path (.uploadData n id)) =
      some [] := by
    rw [MemoryStore.file?_put_path rfl, if_pos rfl]
  have hnone : ∀ t' : MemoryStore, t'.file? (l.path (.uploadData n id)) = none →
      ∀ bytes, t'.file? (l.path (.uploadData n id)) = some bytes → bytes = [] := by
    intro t' h bytes hbytes
    cases h.symm.trans hbytes
  refine Ensures.bind (ensures_stored (Unreliable.putContent_path ?started ?unstarted))
  case unstarted =>
    exact fun _ _ => ⟨.refl, hnone t hfresh, fun _ h => by cases h⟩
  case started =>
    subst ht₁
    refine Ensures.bind (ensures_stored (Unreliable.putContent_path ?empty ?missing))
    case empty =>
      refine Ensures.pure ⟨.tail (.single hstarted) hput, ?_, ?_⟩
      · exact fun bytes hbytes => (Option.some.inj (hempty.symm.trans hbytes)).symm
      · intro u h
        cases h
        rfl
    case missing =>
      exact fun _ _ => ⟨.single hstarted, hnone _ hmissing, fun _ h => by cases h⟩

/-- An upload can be resumed while its start time is stored. -/
theorem resume_reads (n : RepositoryName) (id : UploadId) :
    (resume (d.repository l n) id).Ensures d.view t fun x t' =>
      t' = t ∧ ∀ u, x = .ok u → (∃ started, u = opened id n started) ∧
        ∃ content, t.file? (l.path (.uploadStartedAt n id)) = some content := by
  refine Ensures.bind (ensures_orUnknown (Unreliable.getContent_path ?found ?missing ?fault))
  case found =>
    intro content hcontent
    refine Ensures.bind (Ensures.ofExcept ?_)
    cases startOfContent ((d.registry l).path (.uploadStartedAt n id)) content with
    | error e => exact ⟨rfl, fun _ h => by cases h⟩
    | ok started =>
      refine Ensures.pure ⟨rfl, fun u h => ?_⟩
      cases h
      exact ⟨⟨started, rfl⟩, content, hcontent⟩
  case missing =>
    exact fun _ _ _ => ⟨rfl, fun _ h => by cases h⟩
  case fault =>
    exact fun _ _ => ⟨rfl, fun _ h => by cases h⟩

theorem cancel_edits (ht : t.LaidOut l) (htracks : u.Tracks l t) :
    (cancel (d.registry l)).Ensures d.onHandle (u, t) fun _ => Kept l i t u := by
  refine Ensures.bind (ensures_handle ?_)
  simp only [Then]
  cases u.state with
  | cancelled => exact Ensures.pure ⟨.refl, rfl, rfl, htracks⟩
  | finished => exact Ensures.throw ⟨.refl, rfl, rfl, htracks⟩
  | writing =>
    refine Ensures.bind (ensures_onStorage ((remove_edits (i := i) ht u.name u.id).mono ?_))
    intro x t' hedits
    cases x with
    | error e => exact ⟨hedits, rfl, rfl, htracks⟩
    | ok _ =>
      exact ensures_change ⟨hedits, rfl, rfl, htracks.of_state _⟩

end Upload
end ContainerRegistry
