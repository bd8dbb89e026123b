/-
# A reader delivers a slice of its content

A reader keeps three things apart: what it reads and of which size, how far it is, and the
stream of what is left. They are never compared again once it is open, though the room for
reading to the end is worked out by taking the position from the size. That they agree
follows from how they move (`BlobReader.Usage.Tracks`): reads of either kind take from the
front of the stream and move the position by as much, and storage has no part in it, since
the stream of a file in memory is what the file held from the offset on when it was opened.

So the position is never beyond the size, and what was delivered is the content from the
offset to the position, whatever is done to the storage in between. A closed reader delivers
nothing more and stays where it is.

Key definitions: `BlobReader.Event`, `BlobReader.Usage`, `BlobReader.Usage.Tracks`,
`BlobReader.Faithful`.
Key theorems: `BlobReader.Usage.Tracks.after`, `BlobReader.Usage.reader_run_closed`,
`BlobReader.delivers_slice`.
-/
import ContainerRegistry.Proofs.Pointing

namespace ContainerRegistry

open ContainerRegistry.Action

namespace BlobReader

/-- What is asked of a reader. -/
inductive Call where
  /-- A read into a buffer of so many bytes. -/
  | read (count : Nat)
  | readToEnd
  | close

/-- What happens while a reader is in use. -/
inductive Event where
  | asked (call : Call)
  /-- Something is done to the storage, whatever it is. -/
  | elsewhere (change : MemoryStore → MemoryStore)

/-- A reader in use. -/
structure Usage where
  reader : BlobReader Bytes
  storage : MemoryStore
  /-- All bytes that were delivered so far. -/
  delivered : Bytes

namespace Usage

/-- What a call is answered, and the reader after it. -/
def answer (x : Usage) : Call → Except RegistryError Bytes × BlobReader Bytes
  | .read count => x.reader.read MemoryStore.driver count x.storage
  | .readToEnd => x.reader.readToEnd MemoryStore.driver x.storage
  | .close => (.ok [], x.reader.close)

/-- The bytes that an answer delivers. -/
def bytesOf : Except RegistryError Bytes → Bytes
  | .ok bytes => bytes
  | .error _ => []

/-- What becomes of a reader in use. -/
def after (x : Usage) : Event → Usage
  | .asked call => ⟨(x.answer call).2, x.storage, x.delivered ++ bytesOf (x.answer call).1⟩
  | .elsewhere change => { x with storage := change x.storage }

/-- A reader in use after all that happened. -/
def run (x : Usage) (events : List Event) : Usage :=
  events.foldl after x

theorem run_cons (x : Usage) (e : Event) (events : List Event) :
    x.run (e :: events) = (x.after e).run events := rfl

theorem run_append (x : Usage) (events more : List Event) :
    x.run (events ++ more) = (x.run events).run more :=
  List.foldl_append

/-- The position, the size and the stream agree with what was delivered. -/
structure Tracks (content : Bytes) (offset : Nat) (x : Usage) : Prop where
  size : x.reader.size = content.length
  within : x.reader.position ≤ content.length
  position : x.reader.position = offset + x.delivered.length
  /-- What was delivered and what is left are the content from the offset on. -/
  whole : x.delivered ++ content.drop x.reader.position = content.drop offset
  stream : ∀ rest, x.reader.stream = some rest → rest = content.drop x.reader.position

variable {content : Bytes} {offset : Nat} {x : Usage} {rest : Bytes}

/-- What was delivered is the content between the offset and the position. -/
theorem Tracks.slice (h : x.Tracks content offset) :
    x.delivered = (content.take x.reader.position).drop offset := by
  have hoffset : offset ≤ x.reader.position := h.position ▸ Nat.le_add_right _ _
  have hlength : x.delivered.length = x.reader.position - offset := by
    have := h.position
    omega
  rw [List.drop_take, ← hlength, ← h.whole, List.take_left]

/-! ### While it is open -/

/-- Both ways to read take from the front of the stream. -/
theorem answer_read_open (hopen : x.reader.stream = some rest) (count : Nat) :
    x.answer (.read count) = (.ok (upTo (some count) rest),
      ⟨x.reader.descriptor, x.reader.position + (upTo (some count) rest).length,
        some (beyond (some count) rest)⟩) := by
  simp only [answer, read, hopen]
  rfl

theorem answer_readToEnd_open (hopen : x.reader.stream = some rest) :
    x.answer .readToEnd = (.ok (upTo none rest),
      ⟨x.reader.descriptor, x.reader.position + (upTo none rest).length,
        some (beyond none rest)⟩) := by
  simp only [answer, readToEnd, hopen]
  rfl

/-- The three move together when bytes are taken from the stream. -/
theorem Tracks.taken (h : x.Tracks content offset) (hopen : x.reader.stream = some rest)
    (limit : Option Nat) :
    Tracks content offset ⟨⟨x.reader.descriptor, x.reader.position + (upTo limit rest).length,
      some (beyond limit rest)⟩, x.storage, x.delivered ++ upTo limit rest⟩ := by
  have hrest : rest = content.drop x.reader.position := h.stream rest hopen
  have hcut : upTo limit rest ++ beyond limit rest = rest := upTo_append_beyond limit rest
  have hlength : (upTo limit rest).length + (beyond limit rest).length =
      content.length - x.reader.position := by
    rw [← List.length_append, hcut, hrest, List.length_drop]
  -- what is beyond the limit is the content from the new position on
  have hleft : beyond limit rest =
      content.drop (x.reader.position + (upTo limit rest).length) := by
    calc beyond limit rest
        = (upTo limit rest ++ beyond limit rest).drop (upTo limit rest).length :=
          List.drop_left.symm
      _ = rest.drop (upTo limit rest).length := by rw [hcut]
      _ = (content.drop x.reader.position).drop (upTo limit rest).length :=
          congrArg (List.drop _) hrest
      _ = content.drop (x.reader.position + (upTo limit rest).length) := List.drop_drop
  have hwithin := h.within
  have hposition := h.position
  constructor
  case size => exact h.size
  case within =>
    show x.reader.position + (upTo limit rest).length ≤ content.length
    omega
  case position =>
    show x.reader.position + (upTo limit rest).length = offset + (x.delivered ++ _).length
    rw [List.length_append]
    omega
  case whole =>
    show (x.delivered ++ upTo limit rest) ++ content.drop (x.reader.position + _) = _
    rw [← hleft, List.append_assoc, hcut, hrest, h.whole]
  case stream =>
    intro rest' hrest'
    rw [← Option.some.inj hrest']
    exact hleft

/-! ### Once it is closed -/

theorem answer_read_closed (hclosed : x.reader.stream = none) (count : Nat) :
    x.answer (.read count) = (.error closedRead, x.reader) := by
  simp only [answer, read, hclosed]

theorem answer_readToEnd_closed (hclosed : x.reader.stream = none) :
    x.answer .readToEnd = (.error .layerClosed, x.reader) := by
  simp only [answer, readToEnd, hclosed]

theorem close_closed (hclosed : x.reader.stream = none) : x.reader.close = x.reader := by
  rw [close, ← hclosed]

/-- Nothing that happens has an effect on a closed reader, and it delivers nothing. -/
theorem after_closed (hclosed : x.reader.stream = none) (e : Event) :
    (x.after e).reader = x.reader ∧ (x.after e).delivered = x.delivered := by
  cases e with
  | elsewhere change => exact ⟨rfl, rfl⟩
  | asked call =>
    cases call with
    | read count =>
      rw [after, answer_read_closed hclosed]
      exact ⟨rfl, List.append_nil _⟩
    | readToEnd =>
      rw [after, answer_readToEnd_closed hclosed]
      exact ⟨rfl, List.append_nil _⟩
    | close => exact ⟨close_closed hclosed, List.append_nil _⟩

theorem reader_run_closed (hclosed : x.reader.stream = none) (events : List Event) :
    (x.run events).reader = x.reader := by
  induction events generalizing x with
  | nil => rfl
  | cons e events ih =>
    obtain ⟨hreader, -⟩ := after_closed hclosed e
    rw [run_cons, ih (hreader ▸ hclosed), hreader]

/-! ### Whatever happens -/

/-- **The position, the size and the stream agree after each thing that happens.** -/
theorem Tracks.after (h : x.Tracks content offset) (e : Event) :
    (x.after e).Tracks content offset := by
  cases e with
  | elsewhere change => exact ⟨h.size, h.within, h.position, h.whole, h.stream⟩
  | asked call =>
    cases hstream : x.reader.stream with
    | none =>
      obtain ⟨hreader, hdelivered⟩ := after_closed hstream (.asked call)
      constructor
      case size => rw [hreader, h.size]
      case within => rw [hreader]; exact h.within
      case position => rw [hreader, hdelivered, h.position]
      case whole => rw [hreader, hdelivered, h.whole]
      case stream => rw [hreader]; exact h.stream
    | some rest =>
      cases call with
      | read count =>
        rw [Usage.after, answer_read_open hstream]
        exact h.taken hstream (some count)
      | readToEnd =>
        rw [Usage.after, answer_readToEnd_open hstream]
        exact h.taken hstream none
      | close =>
        refine ⟨h.size, h.within, ?_, ?_, fun _ hrest => by cases hrest⟩
        · exact h.position.trans (by simp [Usage.after, answer, bytesOf])
        · simpa [Usage.after, answer, bytesOf, close] using h.whole

theorem Tracks.run (h : x.Tracks content offset) (events : List Event) :
    (x.run events).Tracks content offset := by
  induction events generalizing x with
  | nil => exact h
  | cons e events ih => exact ih (h.after e)

/-- Only closing a reader takes its stream away. -/
theorem isSome_stream_after (hopen : x.reader.stream.isSome) {e : Event}
    (he : e ≠ .asked .close) : (x.after e).reader.stream.isSome := by
  obtain ⟨rest, hstream⟩ := Option.isSome_iff_exists.1 hopen
  cases e with
  | elsewhere change => exact hopen
  | asked call =>
    cases call with
    | read count => rw [after, answer_read_open hstream]; rfl
    | readToEnd => rw [after, answer_readToEnd_open hstream]; rfl
    | close => exact absurd rfl he

theorem isSome_stream_run (hopen : x.reader.stream.isSome) {events : List Event}
    (hclose : .asked .close ∉ events) : (x.run events).reader.stream.isSome := by
  induction events generalizing x with
  | nil => exact hopen
  | cons e events ih =>
    rw [List.mem_cons, not_or] at hclose
    exact ih (isSome_stream_after hopen (Ne.symm hclose.1)) hclose.2

/-- Once a reader was closed it has no stream. -/
theorem stream_run_of_mem {events : List Event} (hclose : .asked .close ∈ events) :
    (x.run events).reader.stream = none := by
  obtain ⟨before, more, rfl⟩ := List.append_of_mem hclose
  have hclosed : (((x.run before).after (.asked .close)).reader).stream = none := rfl
  rw [run_append, run_cons, reader_run_closed hclosed]
  exact hclosed

end Usage

/-- What a client may rely on of a reader on content from an offset, after all that happened
since it was opened. -/
structure Faithful (content : Bytes) (offset : Nat) (opened : Usage) (events : List Event) :
    Prop where
  /-- The position is the offset and what was delivered. -/
  position : (opened.run events).reader.position =
    offset + (opened.run events).delivered.length
  /-- The position is never beyond the size, which is that of the content. -/
  within : (opened.run events).reader.position ≤ (opened.run events).reader.size ∧
    (opened.run events).reader.size = content.length
  /-- What was delivered is the content from the offset to the position. -/
  slice : (opened.run events).delivered =
    (content.take (opened.run events).reader.position).drop offset
  /-- Until it is closed a read delivers what is next, as far as the buffer goes. -/
  read : .asked .close ∉ events → ∀ count, ((opened.run events).answer (.read count)).1 =
    .ok ((content.drop (opened.run events).reader.position).take count)
  /-- Until it is closed reading to the end delivers all that is left. -/
  readToEnd : .asked .close ∉ events → ((opened.run events).answer .readToEnd).1 =
    .ok (content.drop (opened.run events).reader.position)
  /-- Once it is closed every read fails, whatever the buffer, and closing it again does
  nothing. -/
  closed : .asked .close ∈ events →
    (∀ count, ((opened.run events).answer (.read count)).1 =
      .error (.io (.custom .other RegistryError.layerClosed.message))) ∧
    ((opened.run events).answer .readToEnd).1 = .error .layerClosed ∧
    (opened.run events).reader.close = (opened.run events).reader
  /-- Once it is closed it stays where it is. -/
  stays : .asked .close ∈ events → ∀ more,
    (opened.run (events ++ more)).reader = (opened.run events).reader

/-- What tracks its content is faithful to it. -/
theorem Usage.Tracks.faithful {content : Bytes} {offset : Nat} {x : Usage}
    (h : x.Tracks content offset) (hopen : x.reader.stream.isSome) (events : List Event) :
    Faithful content offset x events := by
  have hrun := h.run events
  constructor
  case position => exact hrun.position
  case within => exact ⟨hrun.size ▸ hrun.within, hrun.size⟩
  case slice => exact hrun.slice
  case read =>
    intro hclose count
    obtain ⟨rest, hstream⟩ := Option.isSome_iff_exists.1 (isSome_stream_run hopen hclose)
    rw [answer_read_open hstream, hrun.stream rest hstream]
    rfl
  case readToEnd =>
    intro hclose
    obtain ⟨rest, hstream⟩ := Option.isSome_iff_exists.1 (isSome_stream_run hopen hclose)
    rw [answer_readToEnd_open hstream, hrun.stream rest hstream]
    rfl
  case closed =>
    intro hclose
    have hstream := stream_run_of_mem (x := x) hclose
    refine ⟨fun count => ?_, ?_, close_closed hstream⟩
    · rw [answer_read_closed hstream]
      rfl
    · rw [answer_readToEnd_closed hstream]
  case stays =>
    intro hclose more
    rw [run_append]
    exact reader_run_closed (stream_run_of_mem hclose) more

/-- **A reader delivers a slice of its content**: what is stored at a path can be opened at any
offset within it, and is then delivered in order, without gaps and once. -/
theorem delivers_slice (l : Layout) {t : MemoryStore} {path : Path} {content : Bytes}
    (hfile : t.file? path = some content) (digest : Digest) {offset : Nat}
    (hoffset : offset ≤ content.length) :
    ∃ reader, (l.inMemory.blobOpenAt digest path offset).outcome t = (.ok reader, t) ∧
      ∀ events, Faithful content offset ⟨reader, t, []⟩ events := by
  have hopens : (l.inMemory.blobOpenAt digest path offset).outcome t =
      (BlobReader.openedOn digest offset content, t) := by
    rw [Registry.outcome_blobOpenAt, MemoryStore.contentAt, hfile]
    rfl
  rw [BlobReader.openedOn, if_neg (Nat.not_lt.2 hoffset)] at hopens
  have htracks : Usage.Tracks content offset
      ⟨⟨⟨digest, content.length⟩, offset, some (content.drop offset)⟩, t, []⟩ :=
    ⟨rfl, hoffset, rfl, rfl, fun _ hrest => (Option.some.inj hrest).symm⟩
  exact ⟨_, hopens, htracks.faithful rfl⟩

/-- Five bytes are opened at the second and deleted after two more were read: the rest is
delivered all the same, and nothing once the reader is closed. -/
theorem delivers_slice_deleted : ∃ (t : MemoryStore) (path : Path) (reader : BlobReader Bytes),
    t.file? path = some [1, 2, 3, 4, 5] ∧
      ((default : Layout).inMemory.blobOpenAt (Digest.sha256 [1]) path 1).outcome t =
        (.ok reader, t) ∧
      Faithful [1, 2, 3, 4, 5] 1 ⟨reader, t, []⟩
        [.asked (.read 2), .elsewhere fun s => s.remove path, .asked .readToEnd, .asked .close,
          .asked (.read 1)] := by
  have hfile : (MemoryStore.empty.put ⟨"/five"⟩ [1, 2, 3, 4, 5]).file? ⟨"/five"⟩ =
      some [1, 2, 3, 4, 5] := by
    rw [MemoryStore.file?_put, if_pos rfl]
  have hoffset : 1 ≤ ([1, 2, 3, 4, 5] : Bytes).length := by decide
  obtain ⟨reader, hopens, hfaithful⟩ := delivers_slice default hfile (Digest.sha256 [1]) hoffset
  exact ⟨_, _, reader, hfile, hopens, hfaithful _⟩

end BlobReader
end ContainerRegistry
