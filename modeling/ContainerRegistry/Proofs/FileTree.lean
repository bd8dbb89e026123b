/-
# A file tree as a map from names to bytes

The local driver keeps each file beneath its directory, at the names of its path. Files
none of which lies beneath another never stand in each other's way: what else is in the
tree are directories above them, which stay behind when the files have gone, and never a
scratch file. What a client that only asks for files sees is therefore a map as in
memory, except that a reader that fails may have had some of its bytes written: as many
as the system let land.

Both storages, asked the same from the start, answer as one map from names to bytes
does, however the system deals with readers that fail (`FileMap.explains_drivers`).

Key definitions: `LocalStore.Place.Takes`, `LocalStore.fileMap`, `LocalStore.IsWithin`.
Key theorems: `LocalStore.IsWithin.arrive`, `LocalStore.IsWithin.putContent`,
`LocalStore.IsWithin.writeStream`, `LocalStore.IsWithin.rename`, `LocalStore.serves`,
`FileMap.explains_drivers`.
-/
import ContainerRegistry.Proofs.Backends
import ContainerRegistry.Proofs.FileMap

namespace ContainerRegistry

open ContainerRegistry.Action
open Backend (names)

namespace LocalStore

variable {place : Place} {s : LocalStore} {p : Path} {offset id : Nat}

/-! ### Trees of files -/

/-- The system takes the route of a path, and that of every scratch file beside it. -/
structure Place.Takes (place : Place) (p : Path) : Prop where
  taken : (route place p).IsTaken
  scratch : ∀ count,
    ((route place p).withFileName (scratchName place (route place p) count)).IsTaken

/-- The files beneath the directory of the driver. -/
def fileMap (place : Place) (s : LocalStore) : FileMap :=
  fun names => s.disk.content? (place.root ++ names)

/-- The files of a tree are at some of these paths, and its directories above the driver's
directory or above one of them. -/
structure IsWithin (place : Place) (paths : Set Path) (s : LocalStore) : Prop where
  sound : s.disk.Sound
  file : ∀ q id, s.disk.entryAt? q = some (.file id) → ∃ p ∈ paths, q = place.root ++ names p
  directory : ∀ q, s.disk.entryAt? q = some .directory → q <+: place.root ∨
    ∃ p ∈ paths, q <+: place.root ++ names p ∧ q ≠ place.root ++ names p

namespace IsWithin

variable {paths : Set Path} {bytes : Bytes}

/-- Where a file belongs there is no directory. -/
theorem not_directory (h : IsWithin place paths s) (hpaths : Path.AreFiles paths)
    (hp : p ∈ paths) : s.disk.entryAt? (place.root ++ names p) ≠ some .directory := by
  intro he
  rcases h.directory _ he with hroot | ⟨q, hq, hpre, hne⟩
  · have hlength := hroot.length_le
    rw [List.length_append] at hlength
    exact hpaths.named p hp (List.length_eq_zero_iff.1 (by omega))
  · rw [List.prefix_append_right_inj] at hpre
    exact hne (by rw [hpaths.names_eq hp hq hpre])

/-- No file stands above another. -/
theorem isClear (h : IsWithin place paths s) (hpaths : Path.AreFiles paths) (hp : p ∈ paths) :
    s.disk.IsClear (place.root ++ names p) := by
  intro q hq hne id he
  obtain ⟨p', hp', rfl⟩ := h.file q id he
  rw [List.prefix_append_right_inj] at hq
  exact hne (by rw [hpaths.names_eq hp' hp hq])

/-- No name that starts with a dot is taken. -/
theorem entryAt?_hidden (h : IsWithin place paths s) (hpaths : Path.AreFiles paths)
    (dir : List String) {x : String} (hx : x.toList.head? = some '.') :
    s.disk.entryAt? (place.root ++ dir ++ [x]) = none := by
  have hfree : ∀ q ∈ paths, ¬ place.root ++ dir ++ [x] <+: place.root ++ names q := by
    intro q hq hpre
    rw [List.append_assoc, List.prefix_append_right_inj] at hpre
    exact hpaths.plain q hq x (hpre.subset (by simp)) hx
  refine Option.eq_none_iff_forall_ne_some.2 fun e he => ?_
  cases e with
  | file id =>
    obtain ⟨q, hq, hplace⟩ := h.file _ id he
    exact hfree q hq (hplace ▸ List.prefix_rfl)
  | directory =>
    rcases h.directory _ he with hroot | ⟨q, hq, hpre, -⟩
    · have hlength := hroot.length_le
      simp only [List.length_append, List.length_singleton] at hlength
      omega
    · exact hfree q hq hpre

theorem finds (h : IsWithin place paths s) (hpaths : Path.AreFiles paths) (hp : p ∈ paths)
    (htakes : place.Takes p) : Finds place s p (place.root ++ names p) where
  sound := h.sound
  spells := spells_route place (hpaths.spells p hp) (hpaths.named p hp) htakes.taken
  isClear := h.isClear hpaths hp
  not_directory := h.not_directory hpaths hp

/-! ### Changes of a tree -/

/-- **A file that arrives at a path** is there in the map, and gone from where it was. -/
theorem arrive (h : IsWithin place paths s) (hpaths : Path.AreFiles paths) (hp : p ∈ paths)
    {old : Option (List String)} {s' : LocalStore} (m : FileMap)
    (harrives : s.disk.Arrives s'.disk (place.root ++ names p) old id)
    (hold : ∀ n, m n = if old = some (place.root ++ n) then none else s.fileMap place n) :
    s'.IsWithin place paths ∧
      s'.fileMap place = m.set (names p) (some (s'.disk.bytes id)) := by
  constructor
  · constructor
    case sound => exact harrives.sound
    case file =>
      intro q id' he
      rcases Disk.file_of_arrived harrives.entryAt? he with ⟨hq, -⟩ | ⟨-, he⟩
      · exact ⟨p, hp, hq⟩
      · exact h.file q id' he
    case directory =>
      intro q he
      rcases Disk.directory_of_arrived harrives.entryAt? he with hq | he
      · exact Or.inr ⟨p, hp, hq⟩
      · exact h.directory q he
  · funext n
    rw [fileMap, Disk.content?_arrived harrives.entryAt? (h.isClear hpaths hp)
      fun hne hgone he => harrives.bytes_of_entry h.sound hne hgone he, FileMap.set, hold]
    simp only [List.append_cancel_left_eq, fileMap]

/-- A file has been taken away. -/
theorem prune (h : IsWithin place paths s) (hpaths : Path.AreFiles paths) (hp : p ∈ paths)
    (hold : s.disk.entryAt? (place.root ++ names p) = some (.file id)) :
    IsWithin place paths { s with disk := s.disk.prune (place.root ++ names p) } ∧
      fileMap place { s with disk := s.disk.prune (place.root ++ names p) } =
        (s.fileMap place).set (names p) none := by
  have hfull : place.root ++ names p ≠ [] := by
    simpa using fun _ => hpaths.named p hp
  have hentry : ∀ q, (s.disk.prune (place.root ++ names p)).entryAt? q =
      if q = place.root ++ names p then none else s.disk.entryAt? q := by
    intro q
    rw [Disk.entryAt?_prune hfull]
    by_cases hq : q = place.root ++ names p
    · rw [if_pos hq, if_pos (hq ▸ List.prefix_rfl)]
    rw [if_neg hq]
    split
    · rename_i hpre
      exact (h.sound.beneath_file hold hpre hq).symm
    · rfl
  constructor
  · constructor
    case sound => exact h.sound.prune hfull
    case file =>
      intro q id' he
      rw [hentry] at he
      split at he
      · cases he
      · exact h.file q id' he
    case directory =>
      intro q he
      rw [hentry] at he
      split at he
      · cases he
      · exact h.directory q he
  · funext n
    rw [FileMap.set, fileMap, Disk.content?, hentry]
    by_cases hn : n = names p
    · rw [if_pos hn, if_pos (by rw [hn])]
    · rw [if_neg hn, if_neg fun he => hn (List.append_cancel_left he)]
      rfl

/-! ### Calls -/

/-- **Putting a file.** -/
theorem putContent (h : IsWithin place paths s) (hpaths : Path.AreFiles paths) (hp : p ∈ paths)
    (htakes : place.Takes p) (bytes : Bytes) :
    ∃ s', (LocalStore.putContent place p bytes).outcome s = (.ok (), s') ∧
      s'.IsWithin place paths ∧
      s'.fileMap place = (s.fileMap place).set (names p) (some bytes) := by
  obtain ⟨dir, last, hplace⟩ :=
    (List.eq_nil_or_concat' (names p)).resolve_left (hpaths.named p hp)
  have hfull : place.root ++ names p = place.root ++ dir ++ [last] := by
    rw [hplace, List.append_assoc]
  have hlast : last.toList.head? ≠ some '.' := hpaths.plain p hp last (by simp [hplace])
  have hfree := h.entryAt?_hidden hpaths dir (place.head_scratchName (route place p) s.scratch)
  obtain ⟨s', houtcome, harrives, rfl⟩ := (h.finds hpaths hp htakes).putContent hfull hlast
    (htakes.scratch s.scratch) hfree bytes
  exact ⟨s', houtcome, h.arrive hpaths hp _ harrives fun n => by simp⟩

/-- **Writing into a file**, from an offset that lies within it or at its end. -/
theorem writeStream (h : IsWithin place paths s) (hpaths : Path.AreFiles paths) (hp : p ∈ paths)
    (htakes : place.Takes p) (source : Source)
    (hoffset : offset ≤ ((s.fileMap place).old (names p)).length) :
    ∃ s', (LocalStore.writeStream place p offset source).outcome s =
        (match source.failure with
          | some e => .error (failure p "copy" e)
          | none => .ok ⟨source.bytes.length, source.bytes.length⟩, s') ∧
      s'.IsWithin place paths ∧
      s'.fileMap place = (s.fileMap place).write (names p) offset (s.landing source).1 := by
  obtain ⟨s', id, houtcome, harrives, hbytes, -⟩ :=
    (h.finds hpaths hp htakes).writeStream source hoffset
  have hmap : (s.fileMap place).write (names p) offset (s.landing source).1 =
      (s.fileMap place).set (names p) (some (s'.disk.bytes id)) := by
    rw [hbytes]
    rfl
  rw [hmap]
  exact ⟨s', houtcome, h.arrive hpaths hp _ harrives fun n => by simp⟩

/-- **Renaming a file.** -/
theorem rename (h : IsWithin place paths s) (hpaths : Path.AreFiles paths) {q : Path}
    (hp : p ∈ paths) (hq : q ∈ paths) (htakes : place.Takes p) (htakes' : place.Takes q)
    (hne : p.components ≠ q.components) (hfile : s.fileMap place (names p) = some bytes) :
    ∃ s', (LocalStore.rename place p q).outcome s = (.ok (), s') ∧
      s'.IsWithin place paths ∧ s'.fileMap place =
        ((s.fileMap place).set (names p) none).set (names q) (some bytes) := by
  obtain ⟨id, hold, rfl⟩ := Disk.exists_of_content? hfile
  have hapart : ¬ place.root ++ names p <+: place.root ++ names q := by
    rw [List.prefix_append_right_inj]
    intro hpre
    refine hne ?_
    rw [hpaths.components hp, hpaths.components hq, hpaths.names_eq hp hq hpre]
  obtain ⟨s', houtcome, harrives, hbytes⟩ :=
    (h.finds hpaths hp htakes).rename (h.finds hpaths hq htakes') hapart hold
  refine ⟨s', houtcome, hbytes id ▸ h.arrive hpaths hq _ harrives fun n => ?_⟩
  rw [FileMap.set]
  simp only [Option.some.injEq, List.append_cancel_left_eq, eq_comm]

/-- **Deleting a file.** -/
theorem delete (h : IsWithin place paths s) (hpaths : Path.AreFiles paths) (hp : p ∈ paths)
    (htakes : place.Takes p) (hfile : s.fileMap place (names p) = some bytes) :
    ∃ s', (LocalStore.delete place p).outcome s = (.ok (), s') ∧
      s'.IsWithin place paths ∧ s'.fileMap place = (s.fileMap place).set (names p) none := by
  obtain ⟨id, hold, -⟩ := Disk.exists_of_content? hfile
  exact ⟨_, (h.finds hpaths hp htakes).outcome_delete hold, h.prune hpaths hp hold⟩

end IsWithin

/-! ### The driver as a map -/

section Serving

variable {paths : Set Path}

/-- In pieces or at once, a stream gives the bytes that it has yet to give. -/
theorem drain_driver : ∀ (pieces : List Nat) {stream : FileStream} {rest : Bytes},
    s.Yields stream rest → (driver place).drain s pieces stream = .ok rest
  | [], stream, rest, h => by
    obtain ⟨hbytes, hfailure, -, -⟩ := h.pull none
    rw [Driver.drain, Pulled.answer]
    simp only [driver, hfailure, hbytes, upTo]
  | size :: pieces, stream, rest, h => by
    obtain ⟨hbytes, hfailure, -, hyields⟩ := h.pull (some size)
    have hrest : (driver place).drain s pieces ((driver place).pull stream (some size) s).rest =
        .ok (rest.drop size) := drain_driver pieces hyields
    have hpulled : ((driver place).pull stream (some size) s).answer = .ok (rest.take size) := by
      rw [Pulled.answer]
      simp only [driver, hfailure, hbytes, upTo]
    rw [Driver.drain, hpulled]
    simp only [bind, Except.bind, hrest, pure, Except.pure, List.take_append_drop]

section Request

variable (hpaths : Path.AreFiles paths) (h : IsWithin place paths s) (hp : p ∈ paths)
  (htakes : place.Takes p)

include hpaths h hp htakes

theorem serves_put (bytes : Bytes) :
    (driver place).Serves (fileMap place) true (IsWithin place paths) s (.put p bytes) := by
  obtain ⟨s', houtcome, hkept, hmap⟩ := h.putContent hpaths hp htakes bytes
  refine .of_map rfl houtcome ?_ hkept
  rw [hmap]
  exact .served trivial

theorem serves_get :
    (driver place).Serves (fileMap place) true (IsWithin place paths) s (.get p) := by
  have houtcome := (h.finds hpaths hp htakes).outcome_getContent
  cases hfile : s.disk.content? (place.root ++ names p) with
  | some bytes =>
    rw [hfile] at houtcome
    exact .of_map rfl houtcome (FileMap.allows_get hfile) h
  | none =>
    rw [hfile] at houtcome
    exact .of_map rfl houtcome (FileMap.allows_get_none hfile) h

/-- Of a source that fails the part that the system lets land is written. -/
theorem serves_write (offset : Nat) (source : Source) :
    (driver place).Serves (fileMap place) true (IsWithin place paths) s
      (.write p offset source) := by
  by_cases hoffset : ((s.fileMap place).old (names p)).length < offset
  · obtain ⟨size, houtcome⟩ := (h.finds hpaths hp htakes).writeStream_beyond source hoffset
    exact .of_map rfl houtcome (FileMap.allows_write_beyond hoffset) h
  · have hoffset := Nat.not_lt.1 hoffset
    obtain ⟨s', houtcome, hkept, hmap⟩ := h.writeStream hpaths hp htakes source hoffset
    refine .of_map rfl houtcome ?_ hkept
    rw [hmap]
    cases hsource : source.failure with
    | none =>
      rw [landing_of_whole hsource]
      exact FileMap.allows_write hsource hoffset
    | some e => exact .torn _ rfl (by simp [hsource]) hoffset (s.landing_isPrefix source)

theorem serves_read (offset : Nat) (pieces : List Nat) :
    (driver place).Serves (fileMap place) true (IsWithin place paths) s
      (.read p offset pieces) := by
  have hfinds := h.finds hpaths hp htakes
  cases hfile : s.disk.content? (place.root ++ names p) with
  | none =>
    have hgone := Disk.entryAt?_of_content? hfinds.not_directory hfile
    have houtcome := hfinds.outcome_readStream_none hgone offset
    exact .of_outcome (Driver.outcome_serve_read_error pieces houtcome)
      (FileMap.allows_read_none hfile pieces) h
  | some bytes =>
    obtain ⟨id, he, rfl⟩ := Disk.exists_of_content? hfile
    have houtcome := hfinds.outcome_readStream he offset
    by_cases hoffset : (s.disk.bytes id).length < offset
    · rw [if_pos hoffset] at houtcome
      exact .of_outcome (Driver.outcome_serve_read_error pieces houtcome)
        (FileMap.allows_read_beyond hfile hoffset pieces) h
    · rw [if_neg hoffset] at houtcome
      exact .of_outcome
        (Driver.outcome_serve_read pieces houtcome (drain_driver pieces ⟨id, rfl, rfl⟩))
        (FileMap.allows_read hfile (Nat.not_lt.1 hoffset) pieces) h

theorem serves_stat :
    (driver place).Serves (fileMap place) true (IsWithin place paths) s (.stat p) := by
  have houtcome := (h.finds hpaths hp htakes).outcome_stat
  cases hfile : s.disk.content? (place.root ++ names p) with
  | some bytes =>
    rw [hfile] at houtcome
    exact .of_map rfl houtcome (FileMap.allows_stat hfile) h
  | none =>
    rw [hfile] at houtcome
    exact .of_map rfl houtcome (FileMap.allows_stat_none hfile) h

theorem serves_delete :
    (driver place).Serves (fileMap place) true (IsWithin place paths) s (.delete p) := by
  cases hfile : s.fileMap place (names p) with
  | some bytes =>
    obtain ⟨s', houtcome, hkept, hmap⟩ := h.delete hpaths hp htakes hfile
    refine .of_map rfl houtcome ?_ hkept
    rw [hmap]
    exact FileMap.allows_delete hfile
  | none =>
    have hfinds := h.finds hpaths hp htakes
    have hgone := Disk.entryAt?_of_content? hfinds.not_directory hfile
    exact .of_map rfl (hfinds.outcome_delete_none hgone) (FileMap.allows_delete_none hfile) h

theorem serves_rename {q : Path} (hq : q ∈ paths) (htakes' : place.Takes q)
    (hne : p.components ≠ q.components) :
    (driver place).Serves (fileMap place) true (IsWithin place paths) s (.rename p q) := by
  cases hfile : s.fileMap place (names p) with
  | some bytes =>
    obtain ⟨s', houtcome, hkept, hmap⟩ := h.rename hpaths hp hq htakes htakes' hne hfile
    refine .of_map rfl houtcome ?_ hkept
    rw [hmap]
    exact FileMap.allows_rename hfile
  | none =>
    have hfinds := h.finds hpaths hp htakes
    have hgone := Disk.entryAt?_of_content? hfinds.not_directory hfile
    exact .of_map rfl (hfinds.outcome_rename_none hgone q) (FileMap.allows_rename_none hfile) h

end Request

/-- **The local driver serves each request as the map does.** -/
theorem serves (hpaths : Path.AreFiles paths) (htakes : ∀ p ∈ paths, place.Takes p)
    {q : FileRequest} (hq : q.IsWithin paths) (s : LocalStore) (h : IsWithin place paths s) :
    (driver place).Serves (fileMap place) true (IsWithin place paths) s q := by
  cases q with
  | put p bytes => exact serves_put hpaths h hq (htakes p hq) bytes
  | get p => exact serves_get hpaths h hq (htakes p hq)
  | write p offset source => exact serves_write hpaths h hq (htakes p hq) offset source
  | read p offset pieces => exact serves_read hpaths h hq (htakes p hq) offset pieces
  | stat p => exact serves_stat hpaths h hq (htakes p hq)
  | delete p => exact serves_delete hpaths h hq (htakes p hq)
  | rename source destination =>
    obtain ⟨hs, hd, hne⟩ := hq
    exact serves_rename hpaths h hs (htakes source hs) hd (htakes destination hd) hne

/-- A fresh tree holds no file, whether its directory is there yet or not. -/
theorem isWithin_fresh (place : Place) (withRoot : Bool) (tears : List Nat) (paths : Set Path) :
    IsWithin place paths { fresh place withRoot with tears := tears } ∧
      fileMap place { fresh place withRoot with tears := tears } = FileMap.empty := by
  obtain ⟨above, habove, hentry⟩ := entryAt?_fresh place withRoot
  have hfile : ∀ q id, (fresh place withRoot).disk.entryAt? q ≠ some (.file id) := by
    intro q id he
    rw [hentry] at he
    split at he <;> cases he
  constructor
  · constructor
    case sound => exact (reflects_fresh place withRoot).sound
    case file => exact fun q id he => absurd he (hfile q id)
    case directory =>
      intro q he
      rw [hentry] at he
      split at he
      · rename_i hpre
        exact Or.inl (hpre.trans habove)
      · cases he
  · funext n
    exact Disk.content?_eq_none (hfile _)

/-- A route with room for one more name, in which the last name is not long, belongs to a
path that the system takes. -/
theorem Place.takes_of_short (hprocess : place.process < 4294967296) {last : String}
    (htaken : (route place p).IsTaken) (hlast : (route place p).fileName? = some last)
    (hshort : last.utf8ByteSize ≤ 222) (hsize : (route place p).size ≤ 3839) :
    place.Takes p := by
  refine ⟨htaken, fun count => ?_⟩
  have hlast' : ∀ c ∈ last.toList, c.toNat ≠ 0 := htaken.nulFree
    (List.mem_of_getLast? (Route.getLast?_steps hlast))
  obtain ⟨hle, hnul⟩ := place.size_scratchName_le hprocess hlast hlast' count
  have hparent := htaken.of_isPrefix (route place p).parent_isPrefix
  have hroom := Route.size_le_of_isPrefix (route place p).parent_isPrefix
  have hscratch : (route place p).withFileName (scratchName place (route place p) count) =
      ⟨(route place p).parent.parts ++
        [.step (.name (scratchName place (route place p) count))]⟩ :=
    congrArg Route.mk (Route.parts_withFileName hlast _)
  rw [hscratch]
  refine hparent.concat ⟨hle.trans ?_, hnul⟩ ?_
  · rw [Route.longestName]
    omega
  · rw [Route.longestRoute]
    omega

/-- However the system deals with sources that fail, the requests are served as the map does. -/
theorem explains (hpaths : Path.AreFiles paths) (htakes : ∀ p ∈ paths, place.Takes p)
    (withRoot : Bool) (tears : List Nat) {requests : List FileRequest}
    (hrequests : ∀ q ∈ requests, q.IsWithin paths) :
    FileMap.Explains true .empty requests ((driver place).trace (fileMap place)
      { fresh place withRoot with tears := tears } requests) := by
  obtain ⟨hfresh, hempty⟩ := isWithin_fresh place withRoot tears paths
  rw [← hempty]
  exact Driver.explains_trace hfresh fun q hq s hs =>
    serves hpaths htakes (hrequests q hq) s hs

end Serving

end LocalStore

/-! ### Both drivers -/

namespace FileMap

variable {paths : Set Path}

/-- **Both drivers are one store of files.** Over absolute paths none of which lies beneath
another, what comes of any requests to an empty store is what may come of them for one map
from names to bytes, in which only the driver on a tree may leave the torn write of a reader
that failed, however the system tears it. If no reader fails both do what the map does. -/
theorem explains_drivers (hpaths : Path.AreFiles paths) {place : LocalStore.Place}
    (htakes : ∀ p ∈ paths, place.Takes p) (withRoot : Bool) (tears : List Nat)
    {requests : List FileRequest} (hrequests : ∀ q ∈ requests, q.IsWithin paths) :
    let memory := MemoryStore.driver.trace MemoryStore.fileMap .empty requests
    let tree := (LocalStore.driver place).trace (LocalStore.fileMap place)
      { LocalStore.fresh place withRoot with tears := tears } requests
    Explains false empty requests memory ∧ Explains true empty requests tree ∧
      ((∀ q ∈ requests, q.IsSound) →
        memory = trace empty requests ∧ tree = trace empty requests) := by
  intro memory tree
  have hmemory : Explains false empty requests memory := MemoryStore.explains hpaths hrequests
  have htree : Explains true empty requests tree :=
    LocalStore.explains hpaths htakes withRoot tears hrequests
  exact ⟨hmemory, htree, fun hsound => ⟨hmemory.eq_trace hsound, htree.eq_trace hsound⟩⟩

/-- Two paths, one of them with a slash too many. -/
def onePath : Path := ⟨"/box//one"⟩

def otherPath : Path := ⟨"/two"⟩

/-- A write whose reader fails after two bytes. -/
def broken : FileRequest :=
  .write otherPath 0 ⟨[7, 8], some (.custom .other "lost")⟩

/-- A file that is written, appended to and overwritten, a write with a gap, a write whose
reader fails, and a rename onto what that may have left. -/
def filed : List FileRequest :=
  [.write onePath 0 (.ofBytes [1, 2, 3]), .write onePath 3 (.ofBytes [4]),
    .write onePath 1 (.ofBytes [9, 9]), .write onePath 5 (.ofBytes [7]), broken,
    .stat otherPath, .rename onePath otherPath, .read otherPath 1 [1], .stat otherPath,
    .delete onePath, .delete otherPath]

theorem explains_drivers_filed :
    Path.AreFiles {onePath, otherPath} ∧
      (∀ p ∈ ({onePath, otherPath} : Set Path), (LocalStore.Place.mk ["srv"] 4711).Takes p) ∧
      (∀ q ∈ filed, q.IsWithin {onePath, otherPath}) ∧
      Explains false empty filed (MemoryStore.driver.trace MemoryStore.fileMap .empty filed) ∧
      Explains true empty filed
        ((LocalStore.driver ⟨["srv"], 4711⟩).trace (LocalStore.fileMap ⟨["srv"], 4711⟩)
          { LocalStore.fresh ⟨["srv"], 4711⟩ false with tears := [1] } filed) := by
  have hpaths : Path.AreFiles {onePath, otherPath} := by
    constructor
    case spells => rintro p (rfl | rfl) <;> decide
    case named => rintro p (rfl | rfl) <;> decide
    case plain => rintro p (rfl | rfl) <;> decide
    case apart => rintro p (rfl | rfl) q (rfl | rfl) <;> decide
  have htakes : ∀ p ∈ ({onePath, otherPath} : Set Path),
      (LocalStore.Place.mk ["srv"] 4711).Takes p := by
    rintro p (rfl | rfl)
    · exact LocalStore.Place.takes_of_short (by decide)
        (.of_steps (by decide) (by decide : _ = ["srv", "box", "one"].map _) (by decide))
        (by decide : _ = some "one") (by decide) (by decide)
    · exact LocalStore.Place.takes_of_short (by decide)
        (.of_steps (by decide) (by decide : _ = ["srv", "two"].map _) (by decide))
        (by decide : _ = some "two") (by decide) (by decide)
  have hwithin : ∀ q ∈ filed, q.IsWithin {onePath, otherPath} := by
    have hne : onePath.components ≠ otherPath.components := by decide
    simp [filed, broken, FileRequest.IsWithin, hne]
  obtain ⟨hmemory, htree, -⟩ := explains_drivers hpaths htakes false [1] hwithin
  exact ⟨hpaths, htakes, hwithin, hmemory, htree⟩

/-- One byte of the two has landed, if that is what the system lets land. -/
example : LocalStore.fileMap ⟨["srv"], 4711⟩
    (((LocalStore.driver ⟨["srv"], 4711⟩).serve broken).outcome
      { LocalStore.fresh ⟨["srv"], 4711⟩ false with tears := [1] }).2 ["two"] = some [7] := by
  decide +kernel

end FileMap
end ContainerRegistry
