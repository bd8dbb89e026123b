/-
# Streams on open files

A stream reads its file as the file is at that time, and what it has read it
gives, whatever happens to the file. Asked for little, it reads a piece of 8 KiB
and keeps the rest ahead; asked for a piece or more, with nothing ahead, it reads
just that. A reader asks again and again with room that doubles as it fills, so
that how much it wants decides how much the stream ends up ahead.

Key definitions: `FileStream`, `FileStream.fetch`, `FileStream.gather`,
`FileStream.pullFrom`.
Key theorems: `FileStream.exists_fetch_eq`, `FileStream.gather_fst`,
`FileStream.bytes_pullFrom`, `FileStream.unread_pullFrom`.
-/
import ContainerRegistry.Storage.Driver

namespace ContainerRegistry

/-- An open file, and the bytes read ahead of its position. -/
structure FileStream where
  /-- The open file, or none for a directory. -/
  file : Option Nat
  /-- The offset in the file of the next byte to read ahead. -/
  position : Nat
  ahead : Bytes
  deriving DecidableEq, Repr

namespace FileStream

/-- The number of bytes that are read ahead at a time. -/
def piece : Nat := 8192

/-- The most bytes that the system is asked for at a time. -/
def longestRead : Nat := 2097152

/-- The least room that a reader makes for more bytes. -/
def leastRoom : Nat := 32

/-- One read from a file with these bytes, with room for so many: what was read
ahead comes first, and less than a piece is taken from a piece read ahead. -/
def fetch (stream : FileStream) (file : Bytes) (room : Nat) : Bytes × FileStream :=
  if stream.ahead ≠ [] then
    (stream.ahead.take room, { stream with ahead := stream.ahead.drop room })
  else
    let unread := file.drop stream.position
    let bytes := unread.take (if room < piece then piece else min room longestRead)
    (bytes.take room, ⟨stream.file, stream.position + bytes.length, bytes.drop room⟩)

/-- The bytes of a file that a stream has yet to give. -/
def unread (stream : FileStream) (file : Bytes) : Bytes :=
  stream.ahead ++ file.drop stream.position

/-- A read loses nothing and invents nothing. -/
theorem fetch_append_unread (stream : FileStream) (file : Bytes) (room : Nat) :
    (stream.fetch file room).1 ++ (stream.fetch file room).2.unread file = stream.unread file := by
  unfold fetch unread
  split
  · rw [← List.append_assoc, List.take_append_drop]
  · rename_i h
    have drop_take (m : Nat) (bytes : Bytes) :
        bytes.drop (bytes.take m).length = bytes.drop m := by
      rw [List.length_take]
      rcases Nat.le_total m bytes.length with hm | hm
      · rw [Nat.min_eq_left hm]
      · rw [Nat.min_eq_right hm, List.drop_length, List.drop_eq_nil_of_le hm]
    simp only [ne_eq, Decidable.not_not] at h
    rw [← List.append_assoc, List.take_append_drop, ← List.drop_drop, drop_take,
      List.take_append_drop, h, List.nil_append]

theorem length_fetch_le (stream : FileStream) (file : Bytes) (room : Nat) :
    (stream.fetch file room).1.length ≤ room := by
  unfold fetch
  split <;> exact List.length_take_le _ _

/-- A read with any room gives nothing only at the end. -/
theorem unread_of_fetch_eq_nil {stream : FileStream} {file : Bytes} {room : Nat} (hr : 0 < room)
    (h : (stream.fetch file room).1 = []) : stream.unread file = [] := by
  unfold fetch at h
  split at h
  · rename_i ha
    rcases List.take_eq_nil_iff.mp h with h | h
    · omega
    · exact absurd h ha
  · rename_i ha
    simp only [ne_eq, Decidable.not_not] at ha
    rcases List.take_eq_nil_iff.mp h with h | h
    · omega
    · rcases List.take_eq_nil_iff.mp h with h | h
      · split at h
        · exact absurd h (by decide)
        · rw [longestRead] at h
          omega
      · rw [unread, ha, h, List.append_nil]

/-- **A read takes the next bytes**, how many it may be: some if there is room, so that
it gives nothing only at the end. -/
theorem exists_fetch_eq (stream : FileStream) (file : Bytes) (room : Nat) :
    ∃ got, got ≤ room ∧ (0 < room → 0 < got) ∧
      (stream.fetch file room).1 = (stream.unread file).take got ∧
      (stream.fetch file room).2.unread file = (stream.unread file).drop got := by
  have hcut := stream.fetch_append_unread file room
  by_cases hnone : (stream.fetch file room).1 = []
  · -- with room nothing is left, and without it nothing is taken
    refine ⟨room, Nat.le_refl _, id, ?_⟩
    rw [hnone, List.nil_append] at hcut
    rcases Nat.eq_zero_or_pos room with hroom | hroom
    · rw [hnone, hcut, hroom]
      exact ⟨rfl, rfl⟩
    · rw [hnone, hcut, unread_of_fetch_eq_nil hroom hnone]
      exact ⟨List.take_nil.symm, List.drop_nil.symm⟩
  · refine ⟨(stream.fetch file room).1.length, stream.length_fetch_le file room,
      fun _ => List.length_pos_iff.2 hnone, ?_, ?_⟩
    · rw [← hcut, List.take_left]
    · rw [← hcut, List.drop_left]

/-- The room of a reader that holds so many bytes: it doubles when little is left. -/
def roomFor (held room : Nat) : Nat :=
  if held + leastRoom ≤ room then room else max (2 * room) (held + leastRoom)

/-- Reads as often as it takes to get the wanted bytes or to find none left, for
a reader that holds some bytes already. -/
def gather (stream : FileStream) (file : Bytes) (held room wanted : Nat) : Bytes × FileStream :=
  if wanted = 0 then ([], stream)
  else
    let room := roomFor held room
    let fetched := stream.fetch file (min (room - held) wanted)
    if fetched.1 = [] then fetched
    else
      let more := fetched.2.gather file (held + fetched.1.length) room (wanted - fetched.1.length)
      (fetched.1 ++ more.1, more.2)
termination_by wanted
decreasing_by
  exact Nat.sub_lt (Nat.pos_of_ne_zero ‹_›) (List.length_pos_iff.mpr ‹_›)

theorem lt_roomFor (held room : Nat) : held < roomFor held room := by
  unfold roomFor leastRoom
  split <;> omega

/-- However often it takes, what is gathered is what comes next in the file. -/
theorem gather_fst (stream : FileStream) (file : Bytes) (held room wanted : Nat) :
    (stream.gather file held room wanted).1 = (stream.unread file).take wanted := by
  fun_induction gather with
  | case1 => simp
  | case2 stream held room wanted hw room' fetched h =>
    have hr : 0 < min (room' - held) wanted := by
      have := lt_roomFor held room
      omega
    rw [h, unread_of_fetch_eq_nil hr h, List.take_nil]
  | case3 stream held room wanted hw room' fetched h more ih =>
    have hl : fetched.1.length ≤ wanted :=
      Nat.le_trans (stream.length_fetch_le file _) (Nat.min_le_right _ _)
    have hu : fetched.1 ++ fetched.2.unread file = stream.unread file :=
      stream.fetch_append_unread file _
    rw [ih, ← hu, List.take_append, List.take_of_length_le hl]

/-- What is not gathered is left. -/
theorem unread_gather_snd (stream : FileStream) (file : Bytes) (held room wanted : Nat) :
    (stream.gather file held room wanted).2.unread file = (stream.unread file).drop wanted := by
  fun_induction gather with
  | case1 => simp
  | case2 stream held room wanted hw room' fetched h =>
    have hr : 0 < min (room' - held) wanted := by
      have := lt_roomFor held room
      omega
    have hu : fetched.1 ++ fetched.2.unread file = stream.unread file :=
      stream.fetch_append_unread file _
    rw [h, List.nil_append, unread_of_fetch_eq_nil hr h] at hu
    rw [hu, unread_of_fetch_eq_nil hr h, List.drop_nil]
  | case3 stream held room wanted hw room' fetched h more ih =>
    have hl : fetched.1.length ≤ wanted :=
      Nat.le_trans (stream.length_fetch_le file _) (Nat.min_le_right _ _)
    have hu : fetched.1 ++ fetched.2.unread file = stream.unread file :=
      stream.fetch_append_unread file _
    rw [ih, ← hu, List.drop_append, List.drop_of_length_le hl, List.nil_append]

theorem file_fetch (stream : FileStream) (file : Bytes) (room : Nat) :
    (stream.fetch file room).2.file = stream.file := by
  unfold fetch
  split <;> rfl

theorem file_gather_snd (stream : FileStream) (file : Bytes) (held room wanted : Nat) :
    (stream.gather file held room wanted).2.file = stream.file := by
  fun_induction gather with
  | case1 => rfl
  | case2 stream => exact stream.file_fetch file _
  | case3 stream held room wanted hw room' fetched h more ih =>
    exact ih.trans (stream.file_fetch file _)

/-- Pulls from a file with these bytes. -/
def pullFrom (stream : FileStream) (file : Bytes) (limit : Option Nat) : Pulled FileStream :=
  match limit with
  | none => ⟨stream.unread file, none, ⟨stream.file, max stream.position file.length, []⟩⟩
  | some wanted =>
    let gathered := stream.gather file 0 0 wanted
    ⟨gathered.1, none, gathered.2⟩

/-- A pull gives the next bytes of the file, up to its limit. -/
theorem bytes_pullFrom (stream : FileStream) (file : Bytes) : ∀ limit : Option Nat,
    (stream.pullFrom file limit).bytes = upTo limit (stream.unread file)
  | none => rfl
  | some wanted => stream.gather_fst file 0 0 wanted

/-- A pull leaves the stream the bytes beyond its limit. -/
theorem unread_pullFrom (stream : FileStream) (file : Bytes) : ∀ limit : Option Nat,
    (stream.pullFrom file limit).rest.unread file = beyond limit (stream.unread file)
  | none => by
    have hend : file.drop (max stream.position file.length) = [] :=
      List.drop_of_length_le (Nat.le_max_right _ _)
    simp only [pullFrom, unread, List.nil_append]
    exact hend
  | some wanted => stream.unread_gather_snd file 0 0 wanted

theorem file_pullFrom (stream : FileStream) (file : Bytes) : ∀ limit : Option Nat,
    (stream.pullFrom file limit).rest.file = stream.file
  | none => rfl
  | some wanted => stream.file_gather_snd file 0 0 wanted

theorem failure_pullFrom (stream : FileStream) (file : Bytes) : ∀ limit : Option Nat,
    (stream.pullFrom file limit).failure = none
  | none => rfl
  | some _ => rfl

end FileStream

end ContainerRegistry
