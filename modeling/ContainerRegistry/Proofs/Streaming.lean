/-
# Streams and uploads that act alike

A stream on an open file gives the bytes of the file as they are, and one in memory
those that it was opened on. They give the same as long as nobody writes to the file:
a handle reads the data of an upload at once, and the file of a blob is never written
to again. What is done with a handle is therefore done alike in memory and on a file
tree, and so is what is read through a reader.

Key definitions: `LocalStore.Yields`, `BlobReader.ReadsAlike`.
Key theorems: `LocalStore.Yields.pull`, `Upload.write_agrees`, `Upload.finish_agrees`,
`Registry.blobOpen_agrees`, `BlobReader.ReadsAlike.read`.
-/
import ContainerRegistry.Proofs.Agreement
import ContainerRegistry.Proofs.Handle

namespace ContainerRegistry

open ContainerRegistry.Action

/-- A stream on an open file has yet to give these bytes. -/
def LocalStore.Yields (s : LocalStore) (stream : FileStream) (rest : Bytes) : Prop :=
  ∃ id, stream.file = some id ∧ stream.unread (s.disk.bytes id) = rest

/-- **A pull gives what it gives in memory.** -/
theorem LocalStore.Yields.pull {s : LocalStore} {stream : FileStream} {rest : Bytes}
    (h : s.Yields stream rest) (limit : Option Nat) :
    (LocalStore.pull stream limit s).bytes = upTo limit rest ∧
      (LocalStore.pull stream limit s).failure = none ∧
      (LocalStore.pull stream limit s).rest.file = stream.file ∧
      s.Yields (LocalStore.pull stream limit s).rest (beyond limit rest) := by
  obtain ⟨id, hfile, rfl⟩ := h
  rw [LocalStore.pull, hfile]
  exact ⟨stream.bytes_pullFrom _ limit, stream.failure_pullFrom _ limit,
    (stream.file_pullFrom _ limit).trans hfile, id, (stream.file_pullFrom _ limit).trans hfile,
    stream.unread_pullFrom _ limit⟩

section Registries

variable {place : LocalStore.Place} {o : LocalStore} {t : MemoryStore} {s : LocalStore}

/-- A stream that is opened in memory is opened on the tree, and yields the same. -/
theorem Reflects.opened (h : Reflects place t s) (hu : place.IsUsable) {f : Resource}
    (hf : f.isFile = true) {bytes : Bytes} (hfile : t.file? (Layout.standard.path f) = some bytes)
    {offset : Nat} (hoffset : offset ≤ bytes.length) :
    ∃ stream, (MemoryStore.readStream (Layout.standard.path f) offset).outcome t =
        (.ok (bytes.drop offset), t) ∧
      (LocalStore.readStream place (Layout.standard.path f) offset).outcome s = (.ok stream, s) ∧
      s.Yields stream (bytes.drop offset) := by
  obtain ⟨id, -, rfl, hlocal⟩ := h.outcome_readStream hu hf hfile hoffset
  refine ⟨_, ?_, hlocal, id, rfl, rfl⟩
  rw [t.outcome_readStream, hfile]
  exact if_neg (Nat.not_lt.2 hoffset)

namespace Upload

variable {u : Upload}

/-- A storage call that succeeds, made for a handle. -/
theorem outcome_onStorage_orUnknown {σ α : Type} {call : Action σ StorageError α} {x : σ} {a : α}
    (h : call.outcome x = (.ok a, x)) {unknown : RegistryError} :
    (onStorage (orUnknown unknown call)).outcome (u, x) = (.ok a, (u, x)) := by
  rw [onStorage, outcome_zoom, outcome_orUnknown_ok h]

theorem outcome_onStorage_stored {σ α : Type} {call : Action σ StorageError α} {x x' : σ} {a : α}
    (h : call.outcome x = (.ok a, x')) :
    (onStorage (stored call)).outcome (u, x) = (.ok a, (u, x')) := by
  rw [onStorage, outcome_zoom, stored, outcome_mapError, h]
  rfl

theorem same_shrink (count : Nat) (u : Upload) :
    Same u (shrink count u) ∧ (shrink count u).hashed ≤ count := by
  rw [shrink]
  split
  · exact ⟨⟨rfl, rfl, rfl, rfl⟩, Nat.zero_le _⟩
  · exact ⟨.refl u, by omega⟩

/-- The running digest is brought up to the stored size alike. -/
theorem outcome_catchUp (h : Reflects place t s) (hu : place.IsUsable) {bytes : Bytes}
    (hdata : t.file? (Layout.standard.path (.uploadData u.name u.id)) = some bytes) :
    ∃ u', Same u u' ∧
      (catchUp Layout.standard.inMemory bytes.length).outcome (u, t) = (.ok (), (u', t)) ∧
      (catchUp place.registry bytes.length).outcome (u, s) = (.ok (), (u', s)) := by
  obtain ⟨hsame, hle⟩ := same_shrink bytes.length u
  rw [catchUp, catchUp, outcome_bind, outcome_bind]
  simp only [change, outcome_modify]
  revert hsame hle
  generalize shrink bytes.length u = u'
  intro hsame hle
  rw [outcome_bind, outcome_bind]
  show ∃ u'', _ ∧ (ite _ _ _ : UploadAction MemoryStore Unit).outcome (u', t) = _ ∧
    (ite _ _ _ : UploadAction LocalStore Unit).outcome (u', s) = _
  by_cases hall : u'.hashed = bytes.length
  · rw [if_pos hall, if_pos hall]
    exact ⟨u', hsame, rfl, rfl⟩
  · rw [if_neg hall, if_neg hall]
    rw [← hsame.id, ← hsame.name] at hdata
    obtain ⟨stream, hmemory, hlocal, hyields⟩ := h.opened hu rfl hdata hle
    obtain ⟨hbytes, hfailure, -, -⟩ := hyields.pull (some (bytes.length - u'.hashed))
    refine ⟨hash (upTo (some (bytes.length - u'.hashed)) (bytes.drop u'.hashed)) u',
      hsame.trans (same_hash _ _), ?_, ?_⟩
    · have hopened : (onStorage (orUnknown (.uploadUnknown u'.id)
          (Layout.standard.inMemory.storage.readStream (dataPath Layout.standard.inMemory u')
            u'.hashed))).outcome (u', t) = (.ok (bytes.drop u'.hashed), (u', t)) :=
        outcome_onStorage_orUnknown hmemory
      rw [outcome_bind, hopened]
      rfl
    · have hopened : (onStorage (orUnknown (.uploadUnknown u'.id)
          (place.registry.storage.readStream (dataPath place.registry u')
            u'.hashed))).outcome (u', s) = (.ok stream, (u', s)) :=
        outcome_onStorage_orUnknown hlocal
      rw [outcome_bind, hopened]
      simp only [outcome_bind, outcome_get]
      have hpulled : (place.registry.storage.pull stream (some (bytes.length - u'.hashed))
        s) = LocalStore.pull stream (some (bytes.length - u'.hashed)) s := rfl
      rw [hpulled, hbytes, hfailure]
      rfl

theorem asks_rehash (h : Reflects place t s) (hu : place.IsUsable) {bytes : Bytes}
    (hdata : t.file? (Layout.standard.path (.uploadData u.name u.id)) = some bytes)
    (algorithm : Algorithm) :
    Asks (rehash Layout.standard.inMemory algorithm) (u, t) (rehash place.registry algorithm)
      (u, s) := by
  obtain ⟨stream, hmemory, hlocal, hyields⟩ := h.opened hu rfl hdata (Nat.zero_le _)
  obtain ⟨hbytes, hfailure, -, -⟩ := hyields.pull none
  refine asks_handle ⟨.ok (algorithm.start.update bytes).finish, ?_, ?_⟩
  · have hopened : (onStorage (orUnknown (.uploadUnknown u.id)
        (Layout.standard.inMemory.storage.readStream (dataPath Layout.standard.inMemory u)
          0))).outcome (u, t) = (.ok bytes, (u, t)) :=
      outcome_onStorage_orUnknown hmemory
    rw [outcome_bind, hopened]
    rfl
  · have hopened : (onStorage (orUnknown (.uploadUnknown u.id)
        (place.registry.storage.readStream (dataPath place.registry u) 0))).outcome (u, s) =
        (.ok stream, (u, s)) :=
      outcome_onStorage_orUnknown hlocal
    have hpulled : place.registry.storage.pull stream none s = LocalStore.pull stream none s := rfl
    rw [outcome_bind, hopened]
    simp only [outcome_bind, outcome_get]
    rw [hpulled, hbytes, hfailure]
    rfl

theorem asks_actualDigest (h : Reflects place t s) (hu : place.IsUsable) {bytes : Bytes}
    (hdata : t.file? (Layout.standard.path (.uploadData u.name u.id)) = some bytes)
    (algorithm : Algorithm) :
    Asks (actualDigest Layout.standard.inMemory algorithm) (u, t)
      (actualDigest place.registry algorithm) (u, s) := by
  refine asks_handle ?_
  split
  · exact Asks.pure _
  · exact asks_rehash h hu hdata algorithm

/-- **Writes** of readers that do not fail. -/
theorem write_agrees (h : ContainerRegistry.Follows place o t s) (hu : place.IsUsable)
    (offset : Nat) {source : Source} (hsource : source.failure = none) :
    Alike (Follows place o) ((write Layout.standard.inMemory offset source).outcome (u, t))
      ((write place.registry offset source).outcome (u, s)) := by
  refine Agree.bind_asks (asks_size h.1 hu) ⟨rfl, h⟩ fun count hsize => ?_
  obtain ⟨bytes, hdata, rfl⟩ := stored_of_size h.1.tidy.laidOut hsize
  by_cases hoffset : offset = bytes.length
  · simp only [hoffset, ne_eq, not_true_eq_false, if_false]
    obtain ⟨u', hsame, hmemory, hlocal⟩ := outcome_catchUp h.1 hu hdata
    refine Agree.bind_ok hmemory hlocal (handle_agrees ?_)
    rw [← hsame.id, ← hsame.name] at hdata
    obtain ⟨s', hwritten, hreflects, hkeeps⟩ :=
      h.1.writeStream hu hdata (Nat.le_refl _) hsource
    have hwritten' : (MemoryStore.writeStream (Layout.standard.path (.uploadData u'.name u'.id))
        bytes.length source).outcome t = (.ok ⟨source.bytes.length, source.bytes.length⟩,
          t.put (Layout.standard.path (.uploadData u'.name u'.id))
            (splice bytes bytes.length source.bytes)) := by
      simp only [t.outcome_writeStream, hsource, hdata, Option.getD_some, Nat.lt_irrefl, if_false]
    refine Agree.bind_ok (outcome_onStorage_stored hwritten')
      (outcome_onStorage_stored hwritten) ?_
    simp only [if_true]
    exact change_agrees _ (Agree.pure ⟨rfl, rfl, hreflects, h.2.trans hkeeps⟩)
  · simp only [ne_eq, hoffset, not_false_eq_true, if_true]
    exact Agree.throw ⟨rfl, h⟩

/-- **The data of an upload moves into the blob store** if its digest is the claimed one. -/
theorem settle_agrees (h : ContainerRegistry.Follows place o t s) (hu : place.IsUsable)
    (expected : Digest) :
    Alike (Follows place o) ((settle Layout.standard.inMemory expected).outcome (u, t))
      ((settle place.registry expected).outcome (u, s)) := by
  refine Agree.bind_asks (asks_size h.1 hu) ⟨rfl, h⟩ fun count hsize => ?_
  obtain ⟨bytes, hdata, rfl⟩ := stored_of_size h.1.tidy.laidOut hsize
  obtain ⟨u', hsame, hmemory, hlocal⟩ := outcome_catchUp h.1 hu hdata
  refine Agree.bind_ok hmemory hlocal ?_
  rw [← hsame.id, ← hsame.name] at hdata
  refine Agree.bind_asks (asks_actualDigest h.1 hu hdata _) ⟨rfl, h⟩ fun actual _ => ?_
  split
  · exact Agree.throw ⟨rfl, h⟩
  refine Agree.bind_asks (asks_onStorage (Registry.asks_blobExists h.1 hu expected)) ⟨rfl, h⟩
    fun x _ => ?_
  cases x with
  | true => exact Agree.pure ⟨rfl, rfl, h⟩
  | false =>
    obtain ⟨s', hrenamed, hreflects, hkeeps⟩ := h.1.rename hu hdata expected
    have hrenamed' : (MemoryStore.rename (Layout.standard.path (.uploadData u'.name u'.id))
        (Layout.standard.path (.blobData expected))).outcome t = (.ok (),
          t.move (Layout.standard.path (.uploadData u'.name u'.id))
            (Layout.standard.path (.blobData expected))) := by
      rw [t.outcome_rename, if_pos ((h.1.tidy.laidOut.occupied_file_iff rfl).2 ⟨bytes, hdata⟩)]
    exact handle_agrees (Agree.of_outcome (outcome_onStorage_stored hrenamed')
      (outcome_onStorage_stored hrenamed) ⟨rfl, rfl, hreflects, h.2.trans hkeeps⟩)

theorem commit_agrees (h : ContainerRegistry.Follows place o t s) (hu : place.IsUsable)
    (expected : Digest) :
    Alike (Follows place o) ((commit Layout.standard.inMemory expected).outcome (u, t))
      ((commit place.registry expected).outcome (u, s)) := by
  refine handle_agrees ?_
  refine Agree.bind (onStorage_agrees (Repository.linkLayer_agrees h hu expected)) ?_
  rintro _ _ ⟨_, t₁⟩ ⟨_, s₁⟩ ⟨rfl, rfl, -, h₁⟩
  refine Agree.bind (onStorage_agrees (remove_agrees h₁ hu _ _)) ?_
  rintro _ _ ⟨_, t₂⟩ ⟨_, s₂⟩ ⟨rfl, rfl, -, h₂⟩
  exact change_agrees _ ((asks_onStorage (Registry.asks_blobStat h₂.1 hu expected)).alike ⟨rfl, h₂⟩)

/-- **Finishing** an upload. -/
theorem finish_agrees (h : ContainerRegistry.Follows place o t s) (hu : place.IsUsable)
    (expected : Digest) :
    Alike (Follows place o) ((finish Layout.standard.inMemory expected).outcome (u, t))
      ((finish place.registry expected).outcome (u, s)) := by
  refine Agree.bind_asks asks_ensureOpen ⟨rfl, h⟩ fun _ _ => ?_
  refine Agree.bind_asks (asks_isMoved h.1 hu expected) ⟨rfl, h⟩ fun x _ => ?_
  cases x with
  | true => exact commit_agrees h hu expected
  | false =>
    refine Agree.bind (settle_agrees h hu expected) ?_
    rintro _ _ ⟨_, t'⟩ ⟨_, s'⟩ ⟨-, rfl, h'⟩
    exact commit_agrees h' hu expected

/-- **Cancelling** an upload. -/
theorem cancel_agrees (h : ContainerRegistry.Follows place o t s) (hu : place.IsUsable) :
    Alike (Follows place o) ((cancel Layout.standard.inMemory).outcome (u, t))
      ((cancel place.registry).outcome (u, s)) := by
  refine handle_agrees ?_
  cases hstate : u.state with
  | cancelled => exact Agree.pure ⟨rfl, rfl, h⟩
  | finished => exact Agree.throw ⟨rfl, h⟩
  | writing =>
    refine Agree.bind (onStorage_agrees (remove_agrees h hu _ _)) ?_
    rintro _ _ ⟨_, t'⟩ ⟨_, s'⟩ ⟨rfl, rfl, -, h'⟩
    exact .ok ⟨rfl, rfl, h'⟩

end Upload

/-! ### Readers -/

/-- Two streams that have yet to give the same bytes, of which the second reads a file
that nobody writes to, or no streams. -/
inductive StreamsAlike (place : LocalStore.Place) (s : LocalStore) :
    Option Bytes → Option FileStream → Prop where
  | closed : StreamsAlike place s none none
  | opened {stream : FileStream} {id : Nat} {bytes : Bytes} (hfile : stream.file = some id)
      (hholds : s.Holds place id bytes) :
      StreamsAlike place s (some (stream.unread bytes)) (some stream)

/-- Two readers on the same content that are as far and have yet to give the same. -/
structure BlobReader.ReadsAlike (place : LocalStore.Place) (s : LocalStore) (b : BlobReader Bytes)
    (b' : BlobReader FileStream) : Prop where
  descriptor : b.descriptor = b'.descriptor
  position : b.position = b'.position
  stream : StreamsAlike place s b.stream b'.stream

namespace BlobReader.ReadsAlike

variable {b : BlobReader Bytes} {b' : BlobReader FileStream}

/-- Readers outlive what becomes of the tree. -/
theorem keeps (h : ReadsAlike place s b b') {s' : LocalStore} (hkeeps : s.Keeps place s') :
    ReadsAlike place s' b b' where
  descriptor := h.descriptor
  position := h.position
  stream := by
    obtain ⟨descriptor, position, stream⟩ := b
    obtain ⟨descriptor', position', stream'⟩ := b'
    cases h.stream with
    | closed => exact .closed
    | opened hfile hholds => exact .opened hfile (hkeeps _ _ hholds)

theorem close (h : ReadsAlike place s b b') : ReadsAlike place s b.close b'.close :=
  ⟨h.descriptor, h.position, .closed⟩

theorem isClosed (h : ReadsAlike place s b b') : b.isClosed = b'.isClosed := by
  obtain ⟨descriptor, position, stream⟩ := b
  obtain ⟨descriptor', position', stream'⟩ := b'
  cases h.stream with
  | closed => rfl
  | opened => rfl

variable {stream : FileStream} {id : Nat} {bytes : Bytes}

/-- Readers move on alike when the same bytes came and the streams have yet to give the same. -/
theorem advance (hdescriptor : b.descriptor = b'.descriptor) (hposition : b.position = b'.position)
    {rest : FileStream} (hfile : rest.file = some id) (hholds : s.Holds place id bytes)
    (taken : Bytes) :
    (b.advance ⟨taken, none, rest.unread bytes⟩).1 = (b'.advance ⟨taken, none, rest⟩).1 ∧
      ReadsAlike place s (b.advance ⟨taken, none, rest.unread bytes⟩).2
        (b'.advance ⟨taken, none, rest⟩).2 := by
  refine ⟨rfl, hdescriptor, ?_, .opened hfile hholds⟩
  simp only [BlobReader.advance, hposition]

theorem pull (hdescriptor : b.descriptor = b'.descriptor) (hposition : b.position = b'.position)
    (hfile : stream.file = some id) (hholds : s.Holds place id bytes) (limit : Option Nat) :
    (b.advance (MemoryStore.driver.pull (stream.unread bytes) limit t)).1 =
        (b'.advance ((LocalStore.driver place).pull stream limit s)).1 ∧
      ReadsAlike place s (b.advance (MemoryStore.driver.pull (stream.unread bytes) limit t)).2
        (b'.advance ((LocalStore.driver place).pull stream limit s)).2 := by
  have hpulled : (LocalStore.driver place).pull stream limit s =
      ⟨upTo limit (stream.unread bytes), none, (stream.pullFrom bytes limit).rest⟩ := by
    show LocalStore.pull stream limit s = _
    rw [LocalStore.pull, hfile, ← stream.bytes_pullFrom bytes limit,
      ← stream.failure_pullFrom bytes limit, ← hholds.2.1]
  have hpulled' : MemoryStore.driver.pull (stream.unread bytes) limit t =
      ⟨upTo limit (stream.unread bytes), none,
        (stream.pullFrom bytes limit).rest.unread bytes⟩ := by
    rw [stream.unread_pullFrom bytes limit]
    rfl
  rw [hpulled, hpulled']
  exact advance hdescriptor hposition ((stream.file_pullFrom bytes limit).trans hfile) hholds _

/-- **A plain read gives what it gives in memory**, had it been asked there for as many bytes as
came. -/
theorem read (h : ReadsAlike place s b b') (count : Nat) :
    ∃ got, got ≤ count ∧ (0 < count → 0 < got) ∧
      (b.read MemoryStore.driver got t).1 = (b'.read (LocalStore.driver place) count s).1 ∧
      ReadsAlike place s (b.read MemoryStore.driver got t).2
        (b'.read (LocalStore.driver place) count s).2 := by
  obtain ⟨descriptor, position, stream⟩ := b
  obtain ⟨descriptor', position', stream'⟩ := b'
  cases h.stream with
  | closed => exact ⟨count, Nat.le_refl _, id, rfl, h⟩
  | @opened stream id bytes hfile hholds =>
    obtain ⟨got, hle, hpos, hbytes, hrest⟩ := stream.exists_fetch_eq bytes count
    refine ⟨got, hle, hpos, ?_⟩
    have hfetched : (LocalStore.driver place).fetch stream count s =
        ⟨(stream.unread bytes).take got, none, (stream.fetch bytes count).2⟩ := by
      show LocalStore.fetch stream count s = _
      rw [LocalStore.fetch, hfile, ← hbytes, ← hholds.2.1]
    have hfetched' : MemoryStore.driver.fetch (stream.unread bytes) got t =
        ⟨(stream.unread bytes).take got, none, (stream.fetch bytes count).2.unread bytes⟩ := by
      rw [hrest]
      rfl
    simp only [BlobReader.read]
    rw [hfetched, hfetched']
    exact advance h.descriptor h.position ((stream.file_fetch bytes count).trans hfile) hholds _

theorem readUpTo (h : ReadsAlike place s b b') (count : Nat) :
    (b.readUpTo MemoryStore.driver count t).1 =
        (b'.readUpTo (LocalStore.driver place) count s).1 ∧
      ReadsAlike place s (b.readUpTo MemoryStore.driver count t).2
        (b'.readUpTo (LocalStore.driver place) count s).2 := by
  rw [BlobReader.readUpTo, BlobReader.readUpTo]
  by_cases hcount : count = 0
  · rw [if_pos hcount, if_pos hcount]
    exact ⟨rfl, h⟩
  · rw [if_neg hcount, if_neg hcount]
    obtain ⟨descriptor, position, stream⟩ := b
    obtain ⟨descriptor', position', stream'⟩ := b'
    cases h.stream with
    | closed => exact ⟨rfl, h⟩
    | opened hfile hholds => exact pull h.descriptor h.position hfile hholds (some count)

theorem readToEnd (h : ReadsAlike place s b b') :
    (b.readToEnd MemoryStore.driver t).1 = (b'.readToEnd (LocalStore.driver place) s).1 ∧
      ReadsAlike place s (b.readToEnd MemoryStore.driver t).2
        (b'.readToEnd (LocalStore.driver place) s).2 := by
  obtain ⟨descriptor, position, stream⟩ := b
  obtain ⟨descriptor', position', stream'⟩ := b'
  cases h.stream with
  | closed => exact ⟨rfl, h⟩
  | opened hfile hholds => exact pull h.descriptor h.position hfile hholds none

end BlobReader.ReadsAlike

namespace Registry

/-- Content that is described is stored, and has the size that is stated. -/
theorem stored_of_blobStatAt (h : t.LaidOut Layout.standard) {digest : Digest}
    {descriptor : Descriptor} (hstat : (Layout.standard.inMemory.blobStatAt digest
      (Layout.standard.path (.blobData digest))).outcome t = (.ok descriptor, t)) :
    ∃ bytes, t.file? (Layout.standard.path (.blobData digest)) = some bytes ∧
      bytes.length = descriptor.size := by
  have hcall : (orUnknown (.blobUnknown digest) (Layout.standard.inMemory.storage.stat
      (Layout.standard.path (.blobData digest)))).outcome t = _ :=
    (outcome_mapError _ _ t).trans (congrArg
      (fun x : Except StorageError Metadata × MemoryStore => (x.1.mapError _, x.2))
      (t.outcome_stat (Layout.standard.path (.blobData digest))))
  rw [blobStatAt, outcome_bind, hcall] at hstat
  cases hfile : t.file? (Layout.standard.path (.blobData digest)) with
  | some bytes =>
    rw [hfile] at hstat
    cases hstat
    exact ⟨bytes, rfl, rfl⟩
  | none =>
    have hfree : ¬ t.occupied (Layout.standard.path (.blobData digest)) = true := by
      rw [h.occupied_file_iff rfl, hfile]
      simp
    rw [hfile, if_neg hfree] at hstat
    cases hstat

/-- Opening a blob at its path. -/
theorem blobOpenAt_agrees (h : Follows place o t s) (hu : place.IsUsable) (digest : Digest)
    (offset : Nat) :
    Agree (fun b b' t' s' => BlobReader.ReadsAlike place s' b b' ∧ Follows place o t' s')
      (Follows place o)
      ((Layout.standard.inMemory.blobOpenAt digest (Layout.standard.path (.blobData digest))
        offset).outcome t)
      ((place.registry.blobOpenAt digest (Layout.standard.path (.blobData digest))
        offset).outcome s) := by
  refine Agree.bind_asks (asks_blobStatAt h.1 hu digest) h fun descriptor hstat => ?_
  split
  · exact Agree.throw h
  rename_i hoffset
  obtain ⟨bytes, hfile, hsize⟩ := stored_of_blobStatAt h.1.tidy.laidOut hstat
  have hle : offset ≤ bytes.length := hsize ▸ Nat.le_of_not_lt hoffset
  obtain ⟨id, hentry, rfl, hlocal⟩ := h.1.outcome_readStream hu rfl hfile hle
  have hmemory : (MemoryStore.readStream (Layout.standard.path (.blobData digest))
      offset).outcome t = (.ok ((s.disk.bytes id).drop offset), t) := by
    rw [t.outcome_readStream, hfile]
    exact if_neg (Nat.not_lt.2 hle)
  refine Agree.bind_ok (outcome_orUnknown_ok hmemory) (outcome_orUnknown_ok hlocal) ?_
  have hstreams : StreamsAlike place s
      (some (FileStream.unread ⟨some id, offset, []⟩ (s.disk.bytes id)))
      (some ⟨some id, offset, []⟩) :=
    .opened rfl (h.1.holds hentry)
  exact Agree.pure ⟨⟨rfl, rfl, hstreams⟩, h⟩

/-- **Opening a blob.** -/
theorem blobOpen_agrees (h : Follows place o t s) (hu : place.IsUsable) (digest : Digest)
    (offset : Nat) :
    Agree (fun b b' t' s' => BlobReader.ReadsAlike place s' b b' ∧ Follows place o t' s')
      (Follows place o) ((Layout.standard.inMemory.blobOpen digest offset).outcome t)
      ((place.registry.blobOpen digest offset).outcome s) :=
  blobOpenAt_agrees h hu digest offset

end Registry

/-- **Opening a layer.** -/
theorem Repository.layerOpen_agrees (h : Follows place o t s) (hu : place.IsUsable)
    (n : RepositoryName) (digest : Digest) (offset : Nat) :
    Agree (fun b b' t' s' => BlobReader.ReadsAlike place s' b b' ∧ Follows place o t' s')
      (Follows place o) ((layerOpen ⟨Layout.standard.inMemory, n⟩ digest offset).outcome t)
      ((layerOpen ⟨place.registry, n⟩ digest offset).outcome s) := by
  refine Agree.bind_asks (asks_resolveLayer h.1 hu digest) h fun target hresolved => ?_
  rw [target_of_resolveLayer h.1.tidy hresolved]
  exact (Registry.blobOpenAt_agrees h hu digest offset).mapError _

end Registries
end ContainerRegistry
