/-
# What the calls of the local driver do at a place

A path leads to a place of a tree. If the place holds a file or nothing, and no file
stands above it, what a call on the path does is known from the place alone: reading and
asking see its bytes, and putting, writing and renaming make a file arrive there, with the
directories above it, and leave everything else in the tree as it is.

Key definitions: `Disk.content?`, `Disk.Arrives`, `LocalStore.Finds`, `LocalStore.Opens`.
Key theorems: `Disk.content?_arrived`, `LocalStore.Finds.outcome_getContent`,
`LocalStore.Finds.putContent`, `LocalStore.Finds.writeStream`, `LocalStore.Finds.rename`.
-/
import ContainerRegistry.Proofs.Spelling

namespace ContainerRegistry

open ContainerRegistry.Action

/-! ### Places of a tree -/

namespace Disk

variable {d d' : Disk} {q new : List String} {old : Option (List String)} {id : Nat}

/-- The bytes of the file at a place. -/
def content? (d : Disk) (q : List String) : Option Bytes :=
  match d.entryAt? q with
  | some (.file id) => some (d.bytes id)
  | _ => none

theorem content?_of_file (h : d.entryAt? q = some (.file id)) :
    d.content? q = some (d.bytes id) := by
  rw [content?, h]

theorem content?_eq_none (h : ∀ id, d.entryAt? q ≠ some (.file id)) : d.content? q = none := by
  rw [content?]
  split
  · rename_i id he
    exact absurd he (h id)
  · rfl

theorem exists_of_content? {bytes : Bytes} (h : d.content? q = some bytes) :
    ∃ id, d.entryAt? q = some (.file id) ∧ d.bytes id = bytes := by
  rw [content?] at h
  split at h
  · rename_i id he
    exact ⟨id, he, Option.some.inj h⟩
  · cases h

/-- Where there is neither a directory nor a file there is nothing. -/
theorem entryAt?_of_content? (hdir : d.entryAt? q ≠ some .directory) (h : d.content? q = none) :
    d.entryAt? q = none := by
  refine Option.eq_none_iff_forall_ne_some.2 fun e he => ?_
  cases e with
  | directory => exact hdir he
  | file id => cases h.symm.trans (content?_of_file he)

/-- A place is as it was, if it has the entry that it had, and a file there the same bytes. -/
theorem content?_congr (hentry : d'.entryAt? q = d.entryAt? q)
    (hbytes : ∀ id, d.entryAt? q = some (.file id) → d'.bytes id = d.bytes id) :
    d'.content? q = d.content? q := by
  rw [content?, content?, hentry]
  cases he : d.entryAt? q with
  | none => rfl
  | some e =>
    cases e with
    | directory => rfl
    | file id => exact congrArg some (hbytes id he)

section Arrived

-- a file stands at the new place, beneath directories only, and nothing at the old one
variable (hentry : ∀ r, d'.entryAt? r =
  if r = new then some (.file id)
  else if r <+: new then some .directory
  else if old = some r then none
  else d.entryAt? r)

include hentry

theorem file_of_arrived {id' : Nat} (he : d'.entryAt? q = some (.file id')) :
    q = new ∧ id' = id ∨ q ≠ new ∧ d.entryAt? q = some (.file id') := by
  rw [hentry] at he
  split at he
  · rename_i hq
    cases he
    exact Or.inl ⟨hq, rfl⟩
  rename_i hq
  split at he
  · cases he
  split at he
  · cases he
  · exact Or.inr ⟨hq, he⟩

theorem directory_of_arrived (he : d'.entryAt? q = some .directory) :
    q <+: new ∧ q ≠ new ∨ d.entryAt? q = some .directory := by
  rw [hentry] at he
  split at he
  · cases he
  rename_i hq
  split at he
  · rename_i hpre
    exact Or.inl ⟨hpre, hq⟩
  split at he
  · cases he
  · exact Or.inr he

/-- Other files are as they were, if no file stood above the new place. -/
theorem content?_arrived (hclear : d.IsClear new)
    (hkept : ∀ {id'}, q ≠ new → old ≠ some q → d.entryAt? q = some (.file id') →
      d'.bytes id' = d.bytes id') :
    d'.content? q =
      if q = new then some (d'.bytes id) else if old = some q then none else d.content? q := by
  by_cases hq : q = new
  · rw [if_pos hq, content?_of_file (by rw [hentry, if_pos hq])]
  rw [if_neg hq]
  by_cases hpre : q <+: new
  · have hdir : d'.entryAt? q = some .directory := by
      rw [hentry, if_neg hq, if_pos hpre]
    rw [content?_eq_none (by simp [hdir]), content?_eq_none (hclear q hpre hq), ite_self]
  by_cases hold : old = some q
  · have hgone : d'.entryAt? q = none := by
      rw [hentry, if_neg hq, if_neg hpre, if_pos hold]
    rw [if_pos hold, content?_eq_none (by simp [hgone])]
  · have hsame : d'.entryAt? q = d.entryAt? q := by
      rw [hentry, if_neg hq, if_neg hpre, if_neg hold]
    rw [if_neg hold, content?_congr hsame fun id' he => hkept hq hold he]

end Arrived

/-- A file has arrived at a place, with the directories above it. It is new, or was there, or
comes from another place, where it is gone then; the other files are as before. -/
structure Arrives (d d' : Disk) (new : List String) (old : Option (List String)) (id : Nat) :
    Prop where
  sound : d'.Sound
  nextId : d.nextId ≤ d'.nextId
  entryAt? : ∀ q, d'.entryAt? q =
    if q = new then some (.file id)
    else if q <+: new then some .directory
    else if old = some q then none
    else d.entryAt? q
  /-- No other place had the file. -/
  lone : ∀ q, q ≠ new → old ≠ some q → d.entryAt? q ≠ some (.file id)
  bytes : ∀ id', id' < d.nextId → id' ≠ id → d'.bytes id' = d.bytes id'

/-- What other places have keeps its bytes. -/
theorem Arrives.bytes_of_entry (h : d.Arrives d' new old id) (hsound : d.Sound) (hnew : q ≠ new)
    (hold : old ≠ some q) {id' : Nat} (he : d.entryAt? q = some (.file id')) :
    d'.bytes id' = d.bytes id' :=
  h.bytes id' (hsound.fresh he) fun hid => h.lone q hnew hold (hid ▸ he)

/-- Bytes may be written into a file that has arrived. -/
theorem Arrives.setBytes (h : d.Arrives d' new old id) (bytes : Bytes) :
    d.Arrives (d'.setBytes id bytes) new old id where
  sound := h.sound.setBytes id bytes
  nextId := h.nextId
  entryAt? := h.entryAt?
  lone := h.lone
  bytes id' hlt hne := by rw [bytes_setBytes, if_neg hne, h.bytes id' hlt hne]

end Disk

namespace LocalStore

/-- The failure of a step on a path where nothing is. -/
def missing (p : Path) (context : String) : StorageError :=
  failure p context (.system .noEntry)

variable {place : Place} {s : LocalStore} {p p' : Path} {q q' : List String} {offset id : Nat}
  {d d' : Disk}

theorem outcome_call {α : Type} (p : Path) (context : String) (c : Disk.Call α)
    (s : LocalStore) : (call p context c).outcome s =
      ((c.outcome s.disk).1.mapError (failure p context),
        { s with disk := (c.outcome s.disk).2 }) := by
  rw [call, outcome_mapError]
  rfl

/-- A path leads to a place of a sound tree where there is a file or nothing, and above
which no file stands. -/
structure Finds (place : Place) (s : LocalStore) (p : Path) (q : List String) : Prop where
  sound : s.disk.Sound
  spells : (route place p).Spells q
  isClear : s.disk.IsClear q
  not_directory : s.disk.entryAt? q ≠ some .directory

namespace Finds

/-- The names of the place, the last one apart. -/
theorem exists_concat (h : Finds place s p q) : ∃ dir last, q = dir ++ [last] :=
  (List.eq_nil_or_concat' q).resolve_left fun h0 => h.not_directory (h0 ▸ s.disk.entryAt?_nil)

/-! ### Calls that ask -/

theorem outcome_look (h : Finds place s p q) : (Disk.look (route place p)).outcome s.disk =
    match s.disk.entryAt? q with
    | some e => (.ok (q, e), s.disk)
    | none => (.error (.system .noEntry), s.disk) := by
  rw [Disk.look_spelled h.spells]
  exact Disk.outcome_look h.sound h.spells.fits h.isClear

theorem outcome_getContent (h : Finds place s p q) : (getContent place p).outcome s =
    match s.disk.content? q with
    | some bytes => (.ok bytes, s)
    | none => (.error (missing p "read"), s) := by
  rw [getContent, outcome_call, outcome_bind, h.outcome_look]
  cases hfile : s.disk.content? q with
  | none =>
    rw [Disk.entryAt?_of_content? h.not_directory hfile]
    rfl
  | some bytes =>
    obtain ⟨id, he, rfl⟩ := Disk.exists_of_content? hfile
    rw [he]
    rfl

theorem outcome_stat (h : Finds place s p q) : (stat place p).outcome s =
    match s.disk.content? q with
    | some bytes => (.ok ⟨bytes.length, false⟩, s)
    | none => (.error (missing p "metadata"), s) := by
  rw [stat, outcome_call, outcome_bind, h.outcome_look]
  cases hfile : s.disk.content? q with
  | none =>
    rw [Disk.entryAt?_of_content? h.not_directory hfile]
    rfl
  | some bytes =>
    obtain ⟨id, he, rfl⟩ := Disk.exists_of_content? hfile
    rw [he]
    rfl

/-- A file is opened by its identity, unless the offset is beyond its end. -/
theorem outcome_readStream (h : Finds place s p q) (he : s.disk.entryAt? q = some (.file id))
    (offset : Nat) : (readStream place p offset).outcome s =
      if (s.disk.bytes id).length < offset then
        (.error (.invalidOffset engine p offset (s.disk.bytes id).length), s)
      else (.ok ⟨some id, offset, []⟩, s) := by
  rw [readStream, outcome_bind, outcome_call, h.outcome_look, he]
  simp only [Except.mapError, outcome_bind, outcome_get]
  by_cases hoffset : (s.disk.bytes id).length < offset
  · rw [if_pos hoffset]
    exact congrArg (fun a => Action.outcome a s) (if_pos hoffset)
  · rw [if_neg hoffset]
    exact congrArg (fun a => Action.outcome a s) (if_neg hoffset)

theorem outcome_readStream_none (h : Finds place s p q) (hgone : s.disk.entryAt? q = none)
    (offset : Nat) :
    (readStream place p offset).outcome s = (.error (missing p "open for reading"), s) := by
  rw [readStream, outcome_bind, outcome_call, h.outcome_look, hgone]
  rfl

/-! ### Files that are put -/

/-- The directories above the place can be made. -/
theorem outcome_createParent (h : Finds place s p q) {dir : List String} {last : String}
    (hq : q = dir ++ [last]) :
    ∃ d, (createParent p (route place p)).outcome s = (.ok (), { s with disk := d }) ∧
      s.disk.Grown d dir := by
  subst hq
  obtain ⟨d, hmade, hgrown⟩ := Disk.outcome_createAbove h.sound h.spells.fits h.isClear
  refine ⟨d, ?_, hgrown⟩
  rw [createParent, outcome_call, Disk.createDirectories_spelled h.spells, List.dropLast_concat,
    hmade]
  rfl

/-- **Putting a file**, under a scratch name first that is free. -/
theorem putContent (h : Finds place s p q) {dir : List String} {last : String}
    (hq : q = dir ++ [last]) (hlast : last.toList.head? ≠ some '.')
    (htaken :
      ((route place p).withFileName (scratchName place (route place p) s.scratch)).IsTaken)
    (hfree : s.disk.entryAt? (dir ++ [scratchName place (route place p) s.scratch]) = none)
    (bytes : Bytes) :
    ∃ s', (LocalStore.putContent place p bytes).outcome s = (.ok (), s') ∧
      s.disk.Arrives s'.disk q none s.disk.nextId ∧ s'.disk.bytes s.disk.nextId = bytes := by
  obtain ⟨d, hmade, hgrown⟩ := h.outcome_createParent hq
  subst hq
  obtain ⟨scratch, hscratch⟩ : ∃ x, x = scratchName place (route place p) s.scratch := ⟨_, rfl⟩
  rw [← hscratch] at htaken hfree
  have hspells := h.spells.withFileName htaken
  have hne : scratch ≠ last := by
    rintro rfl
    exact hlast (hscratch ▸ place.head_scratchName _ _)
  obtain ⟨written, d', hwrite, hrename, hsound, hnext, hentry, hbytes⟩ :=
    Disk.outcome_replace (hgrown.sound h.sound) hspells.fits h.spells.fits
      (by rw [hgrown.entryAt?, if_pos List.prefix_rfl])
      (by rw [hgrown.entryAt?_concat, hfree])
      (by rw [hgrown.entryAt?_concat]; exact h.not_directory) hne bytes
  rw [hgrown.nextId] at hnext hentry hbytes
  have hentry' : ∀ r, d'.entryAt? r = if r = dir ++ [last] then some (.file s.disk.nextId)
      else if none = some r then none else d.entryAt? r := by
    simpa using hentry
  have harrives : s.disk.Arrives d' (dir ++ [last]) none s.disk.nextId := {
    sound := hsound
    nextId := hnext ▸ Nat.le_succ _
    entryAt? := hgrown.entryAt?_arrived hentry' (by simp)
    lone := fun r _ _ he => Nat.lt_irrefl _ (h.sound.fresh he)
    bytes := fun id' _ hid => by rw [hbytes, if_neg hid, hgrown.bytes] }
  refine ⟨{ s with disk := d', scratch := s.scratch + 1 }, ?_, harrives,
    by rw [hbytes, if_pos rfl]⟩
  rw [LocalStore.putContent, outcome_bind, hmade]
  simp only [outcome_bind, outcome_get, outcome_modify, ← hscratch, outcome_call]
  rw [Disk.writeFile_spelled hspells, Disk.rename_spelled hspells h.spells]
  simp only [hwrite, Except.mapError, hrename]

end Finds

/-! ### Files that are written into -/

/-- A file is open for writing in a tree in which the directories above it were made, and
the file itself if it was not there. -/
structure Opens (place : Place) (s : LocalStore) (p : Path) (q : List String) (offset : Nat)
    (d d' : Disk) (id : Nat) : Prop where
  made : (if offset = 0 then createParent p (route place p) else pure PUnit.unit).outcome s =
    (.ok (), { s with disk := d })
  opened : (Disk.openFile (route place p) (offset == 0)).outcome d = (.ok id, d')
  arrives : s.disk.Arrives d' q none id
  bytes : d'.bytes id = (s.disk.content? q).getD []

/-- A write once its file is open. -/
theorem Opens.outcome_writeStream (h : Opens place s p q offset d d' id) (source : Source)
    (hoffset : offset ≤ (d'.bytes id).length) :
    (writeStream place p offset source).outcome s =
      (match source.failure with
        | some e => .error (failure p "copy" e)
        | none => .ok ⟨source.bytes.length, source.bytes.length⟩,
      { s with
        disk := d'.setBytes id (splice (d'.bytes id) offset (s.landing source).1)
        tears := (s.landing source).2 }) := by
  have hmade := h.made
  have hopened : (system (Disk.openFile (route place p) (offset == 0))).outcome
      { s with disk := d } = (.ok id, { s with disk := d' }) := by
    rw [system, outcome_zoom, h.opened]
  rw [writeStream]
  -- what comes after the directories is the same for any offset
  by_cases hzero : offset = 0
  · rw [if_pos hzero] at hmade ⊢
    rw [outcome_bind, hmade]
    simp only [outcome_bind, outcome_attempt, hopened, outcome_get]
    rw [if_neg (Nat.not_lt.2 hoffset)]
    simp only [outcome_bind, outcome_modify]
    cases source.failure <;> rfl
  · rw [if_neg hzero] at hmade ⊢
    obtain rfl : s.disk = d := congrArg (fun x => x.2.disk) hmade
    simp only [outcome_bind, outcome_attempt, hopened, outcome_get]
    rw [if_neg (Nat.not_lt.2 hoffset)]
    simp only [outcome_bind, outcome_modify]
    cases source.failure <;> rfl

/-- A write beyond the end of a file. -/
theorem outcome_writeStream_beyond (source : Source)
    (hopened : (Disk.openFile (route place p) false).outcome s.disk = (.ok id, s.disk))
    (hoffset : (s.disk.bytes id).length < offset) :
    (writeStream place p offset source).outcome s =
      (.error (.invalidOffset engine p offset (s.disk.bytes id).length), s) := by
  have hzero : offset ≠ 0 := Nat.ne_of_gt (Nat.zero_lt_of_lt hoffset)
  have hcreate : (offset == 0) = false := by simpa using hzero
  have hopened' : (system (Disk.openFile (route place p) false)).outcome s = (.ok id, s) := by
    rw [system, outcome_zoom, hopened]
  rw [writeStream, if_neg hzero]
  simp only [outcome_bind, outcome_attempt, hcreate, hopened', outcome_get]
  rw [if_pos hoffset]
  rfl

/-- A write beyond the start of a file that is not there. -/
theorem outcome_writeStream_missing (source : Source)
    (hopened : (Disk.openFile (route place p) false).outcome s.disk =
      (.error (.system .noEntry), s.disk)) (hoffset : 0 < offset) :
    (writeStream place p offset source).outcome s =
      (.error (.invalidOffset engine p offset 0), s) := by
  have hzero : offset ≠ 0 := Nat.ne_of_gt hoffset
  have hcreate : (offset == 0) = false := by simpa using hzero
  have hopened' : (system (Disk.openFile (route place p) false)).outcome s =
      (.error (.system .noEntry), s) := by
    rw [system, outcome_zoom, hopened]
  rw [writeStream, if_neg hzero]
  simp only [outcome_bind, outcome_attempt, hcreate, hopened']
  rfl

namespace Finds

/-- A file that is there is opened as it is. -/
theorem opens_old (h : Finds place s p q) (hold : s.disk.entryAt? q = some (.file id))
    (offset : Nat) : ∃ d, Opens place s p q offset d d id := by
  obtain ⟨dir, last, rfl⟩ := h.exists_concat
  -- the directories above the file are there, made again or not
  obtain ⟨d, hmade, hgrown⟩ :
      ∃ d, (if offset = 0 then createParent p (route place p) else pure PUnit.unit).outcome s =
        (.ok (), { s with disk := d }) ∧ s.disk.Grown d dir := by
    by_cases hzero : offset = 0
    · rw [if_pos hzero]
      exact h.outcome_createParent rfl
    · rw [if_neg hzero]
      exact ⟨s.disk, rfl, .refl (h.sound.directories (h.sound.parent hold))⟩
  have hsound := hgrown.sound h.sound
  have hold' : d.entryAt? (dir ++ [last]) = some (.file id) := by
    rw [hgrown.entryAt?_concat, hold]
  have hentry : ∀ r, d.entryAt? r = if r = dir ++ [last] then some (.file id)
      else if none = some r then none else d.entryAt? r := by
    intro r
    by_cases hr : r = dir ++ [last]
    · rw [if_pos hr, hr, hold']
    · rw [if_neg hr, if_neg (by simp)]
  have harrives : s.disk.Arrives d (dir ++ [last]) none id := {
    sound := hsound
    nextId := hgrown.nextId.ge
    entryAt? := hgrown.entryAt?_arrived hentry (by simp)
    lone := fun r hr _ he => hr (h.sound.lone he hold)
    bytes := fun id' _ _ => hgrown.bytes id' }
  refine ⟨d, hmade, ?_, harrives, ?_⟩
  · rw [Disk.openFile_spelled h.spells]
    exact Disk.outcome_openFile_old hsound h.spells.fits hold' _
  · rw [Disk.content?_of_file hold, hgrown.bytes]
    rfl

/-- A file that is not there is created for a write from the start. -/
theorem opens_new (h : Finds place s p q) (hgone : s.disk.entryAt? q = none) :
    ∃ d d', Opens place s p q 0 d d' s.disk.nextId := by
  obtain ⟨dir, last, rfl⟩ := h.exists_concat
  obtain ⟨d, hmade, hgrown⟩ := h.outcome_createParent rfl
  have hsound := hgrown.sound h.sound
  have hdir : d.entryAt? dir = some .directory := by
    rw [hgrown.entryAt?, if_pos List.prefix_rfl]
  have hgone' : d.entryAt? (dir ++ [last]) = none := by
    rw [hgrown.entryAt?_concat, hgone]
  have hentry : ∀ r, (d.addFile (dir ++ [last]) []).entryAt? r =
      if r = dir ++ [last] then some (.file d.nextId)
      else if none = some r then none else d.entryAt? r := by
    intro r
    rw [Disk.entryAt?_addFile (by simp)]
    simp
  have harrives : s.disk.Arrives (d.addFile (dir ++ [last]) []) (dir ++ [last]) none d.nextId := {
    sound := hsound.addFile hdir hgone' []
    nextId := hgrown.nextId.ge.trans (Nat.le_succ _)
    entryAt? := hgrown.entryAt?_arrived hentry (by simp)
    lone := fun r _ _ he => Nat.lt_irrefl _ (hgrown.nextId ▸ h.sound.fresh he)
    bytes := fun id' _ hne => by rw [Disk.bytes_addFile, if_neg hne, hgrown.bytes] }
  rw [← hgrown.nextId]
  refine ⟨d, _, hmade, ?_, harrives, ?_⟩
  · rw [Disk.openFile_spelled h.spells]
    exact Disk.outcome_openFile_new h.spells.fits (hsound.directories hdir) hgone'
  · rw [Disk.bytes_addFile, if_pos rfl, Disk.content?_eq_none (by simp [hgone])]
    rfl

/-- A file is opened where it is, or where it is to be. -/
theorem opens (h : Finds place s p q) (hoffset : offset ≤ ((s.disk.content? q).getD []).length) :
    ∃ d d' id, Opens place s p q offset d d' id ∧
      (s.disk.entryAt? q = some (.file id) ∨ s.disk.entryAt? q = none) := by
  cases hfile : s.disk.content? q with
  | some bytes =>
    obtain ⟨id, hold, -⟩ := Disk.exists_of_content? hfile
    obtain ⟨d, hopens⟩ := h.opens_old hold offset
    exact ⟨d, d, id, hopens, Or.inl hold⟩
  | none =>
    have hgone := Disk.entryAt?_of_content? h.not_directory hfile
    obtain rfl : offset = 0 := by
      rw [hfile] at hoffset
      exact Nat.le_zero.1 hoffset
    obtain ⟨d, d', hopens⟩ := h.opens_new hgone
    exact ⟨d, d', _, hopens, Or.inr hgone⟩

/-- **Writing into a file**, from an offset that lies within it or at its end: what lands of the
source is written, even if the source fails then. -/
theorem writeStream (h : Finds place s p q) (source : Source)
    (hoffset : offset ≤ ((s.disk.content? q).getD []).length) :
    ∃ s' id, (LocalStore.writeStream place p offset source).outcome s =
        (match source.failure with
          | some e => .error (failure p "copy" e)
          | none => .ok ⟨source.bytes.length, source.bytes.length⟩, s') ∧
      s.disk.Arrives s'.disk q none id ∧
      s'.disk.bytes id = splice ((s.disk.content? q).getD []) offset (s.landing source).1 ∧
      (s.disk.entryAt? q = some (.file id) ∨ s.disk.entryAt? q = none) := by
  obtain ⟨d, d', id, hopens, hbefore⟩ := h.opens hoffset
  rw [← hopens.bytes] at hoffset
  refine ⟨_, id, hopens.outcome_writeStream source hoffset, hopens.arrives.setBytes _, ?_, hbefore⟩
  rw [Disk.bytes_setBytes, if_pos rfl, hopens.bytes]

/-- A write beyond the end changes nothing. -/
theorem writeStream_beyond (h : Finds place s p q) (source : Source)
    (hoffset : ((s.disk.content? q).getD []).length < offset) :
    ∃ size, (LocalStore.writeStream place p offset source).outcome s =
      (.error (.invalidOffset engine p offset size), s) := by
  obtain ⟨dir, last, rfl⟩ := h.exists_concat
  cases hfile : s.disk.content? (dir ++ [last]) with
  | some bytes =>
    obtain ⟨id, hold, rfl⟩ := Disk.exists_of_content? hfile
    rw [hfile] at hoffset
    have hopened := Disk.outcome_openFile_old h.sound h.spells.fits hold false
    rw [← Disk.openFile_spelled h.spells] at hopened
    exact ⟨_, outcome_writeStream_beyond source hopened hoffset⟩
  | none =>
    have hgone := Disk.entryAt?_of_content? h.not_directory hfile
    have hopened := Disk.outcome_openFile_missing h.sound h.spells.fits h.isClear hgone
    rw [← Disk.openFile_spelled h.spells] at hopened
    exact ⟨0, outcome_writeStream_missing source hopened (Nat.zero_lt_of_lt hoffset)⟩

/-! ### Files that are renamed or deleted -/

/-- **Renaming a file** to a place that it does not stand above. -/
theorem rename (h : Finds place s p q) (h' : Finds place s p' q') (hapart : ¬ q <+: q')
    (hold : s.disk.entryAt? q = some (.file id)) :
    ∃ s', (LocalStore.rename place p p').outcome s = (.ok (), s') ∧
      s.disk.Arrives s'.disk q' (some q) id ∧ ∀ id', s'.disk.bytes id' = s.disk.bytes id' := by
  obtain ⟨dir, last, rfl⟩ := h.exists_concat
  obtain ⟨dir', last', rfl⟩ := h'.exists_concat
  obtain ⟨d, hmade, hgrown⟩ := h'.outcome_createParent rfl
  have hsound := hgrown.sound h.sound
  -- the file is where it was, and there is still no directory where it goes
  have habove : ¬ dir ++ [last] <+: dir' := fun hpre => hapart (hpre.trans (List.prefix_append _ _))
  have hold' : d.entryAt? (dir ++ [last]) = some (.file id) := by
    rw [hgrown.entryAt?, if_neg habove, hold]
  have hdir : d.entryAt? dir' = some .directory := by
    rw [hgrown.entryAt?, if_pos List.prefix_rfl]
  have hnew : d.entryAt? (dir' ++ [last']) ≠ some .directory := by
    rw [hgrown.entryAt?_concat]
    exact h'.not_directory
  have hne : dir ++ [last] ≠ dir' ++ [last'] := fun he => hapart (he ▸ List.prefix_rfl)
  have hrenamed := Disk.outcome_rename hsound h.spells.fits h'.spells.fits hold' hdir hnew hne
  rw [← Disk.rename_spelled h.spells h'.spells] at hrenamed
  have hfree : d.isDirectory (route place p') = false := by
    rw [Bool.eq_false_iff, ne_eq, Disk.isDirectory_spelled h'.spells,
      Disk.isDirectory_ofNames hsound h'.spells.fits (hgrown.isClear h'.isClear)]
    exact hnew
  have hentry : ∀ r, (d.relabel (dir ++ [last]) (dir' ++ [last'])).entryAt? r =
      if r = dir' ++ [last'] then some (.file id)
      else if some (dir ++ [last]) = some r then none else d.entryAt? r := by
    intro r
    rw [Disk.entryAt?_relabel_file hsound hold' (by simp) (hsound.free hnew) r]
    simp only [Option.some.injEq, eq_comm]
  have harrives : s.disk.Arrives (d.relabel (dir ++ [last]) (dir' ++ [last'])) (dir' ++ [last'])
      (some (dir ++ [last])) id := {
    sound := hsound.relabel (by simp) hdir habove
    nextId := hgrown.nextId.ge
    entryAt? := hgrown.entryAt?_arrived hentry (by simpa using habove)
    lone := fun r _ hr he => hr (congrArg some (h.sound.lone hold he))
    bytes := fun id' _ _ => hgrown.bytes id' }
  refine ⟨{ s with disk := d.relabel (dir ++ [last]) (dir' ++ [last']) }, ?_, harrives,
    hgrown.bytes⟩
  rw [LocalStore.rename, outcome_bind, outcome_call, h.outcome_look, hold]
  simp only [Except.mapError, outcome_bind, hmade, outcome_get, hfree, Bool.false_eq_true,
    if_false, outcome_call, hrenamed]

theorem outcome_rename_none (h : Finds place s p q) (hgone : s.disk.entryAt? q = none)
    (p' : Path) :
    (LocalStore.rename place p p').outcome s = (.error (missing p "rename source"), s) := by
  rw [LocalStore.rename, outcome_bind, outcome_call, h.outcome_look, hgone]
  rfl

/-- **Deleting a file.** -/
theorem outcome_delete (h : Finds place s p q) (hold : s.disk.entryAt? q = some (.file id)) :
    (delete place p).outcome s = (.ok (), { s with disk := s.disk.prune q }) := by
  have hremoved := Disk.outcome_removeFile h.sound h.spells.fits h.isClear hold
  rw [← Disk.removeFile_spelled h.spells] at hremoved
  rw [delete, outcome_bind, outcome_call, h.outcome_look, hold]
  simp only [Except.mapError, outcome_call, hremoved]

theorem outcome_delete_none (h : Finds place s p q) (hgone : s.disk.entryAt? q = none) :
    (delete place p).outcome s = (.error (missing p "delete"), s) := by
  rw [delete, outcome_bind, outcome_call, h.outcome_look, hgone]
  rfl

end Finds
end LocalStore
end ContainerRegistry
