/-
# What the operations of the store do to its files

A store is known by what it holds at each path. Storing changes one path,
removing clears all paths at and beneath one, and moving takes each file beneath the
source to the same place beneath the destination, as long as none of them lies beneath
the destination already. In a store that is laid out
every file is a resource's, so that these laws speak of resources: no file has
another beneath it, and a directory is never in the place of a file.

Key definitions: `MemoryStore.IsCarried`, `MemoryStore.IsLone`, `MemoryStore.LaidOut`.
Key theorems: `MemoryStore.getElem?_move_beneath`, `MemoryStore.getElem?_move_outside`,
`MemoryStore.IsLone.getElem?_move`, `MemoryStore.LaidOut.occupied_file_iff`,
`MemoryStore.file?_put_path`, `MemoryStore.file?_remove_upload`,
`MemoryStore.LaidOut.file?_move`.
-/
import ContainerRegistry.Proofs.Layout
import ContainerRegistry.Storage.Memory
import Std.Data.TreeMap.Lemmas

namespace ContainerRegistry
namespace MemoryStore

variable (s : MemoryStore)

theorem file?_put (p q : Path) (bytes : Bytes) :
    (s.put p bytes).file? q = if p.components = q.components then some bytes else s.file? q := by
  simp [file?, put, Std.TreeMap.getElem?_insert]

theorem mem_keys_iff {place : List Component} :
    place ∈ s.files.keys ↔ ∃ bytes, s.files[place]? = some bytes := by
  rw [Std.TreeMap.mem_keys, Std.TreeMap.mem_iff_isSome_getElem?, Option.isSome_iff_exists]

theorem occupied_iff {p : Path} : s.occupied p = true ↔
    ∃ place bytes, s.files[place]? = some bytes ∧
      Components.isWithin p.components place = true := by
  simp only [occupied, List.any_eq_true, mem_keys_iff]
  constructor
  · rintro ⟨place, ⟨bytes, h⟩, hw⟩
    exact ⟨place, bytes, h, hw⟩
  · rintro ⟨place, bytes, h, hw⟩
    exact ⟨place, ⟨bytes, h⟩, hw⟩

theorem getElem?_remove (p : Path) (place : List Component) :
    (s.remove p).files[place]? =
      if Components.isWithin p.components place = true then none else s.files[place]? := by
  rw [remove, Std.TreeMap.getElem?_filter']
  split <;> cases s.files[place]? <;> simp_all [Option.filter]

theorem file?_remove (p q : Path) :
    (s.remove p).file? q =
      if Components.isWithin p.components q.components = true then none else s.file? q :=
  s.getElem?_remove p q.components

/-- A file of a store after a put is the one that was put, or was there before. -/
theorem of_getElem?_put {s : MemoryStore} {p : Path} {bytes content : Bytes}
    {place : List Component} (h : (s.put p bytes).files[place]? = some content) :
    p.components = place ∨ s.files[place]? = some content := by
  rw [put, Std.TreeMap.getElem?_insert] at h
  split at h
  · rename_i he
    exact Or.inl (Std.LawfulEqCmp.eq_of_compare he)
  · exact Or.inr h

/-- A file that is left after a removal was there before. -/
theorem of_getElem?_remove {s : MemoryStore} {p : Path} {content : Bytes} {place : List Component}
    (h : (s.remove p).files[place]? = some content) : s.files[place]? = some content := by
  rw [getElem?_remove] at h
  split at h
  · cases h
  · exact h

/-! ### Moving file by file -/

/-- A place at or beneath `source` whose file can be moved beneath `destination`: what
the place adds to the source can follow the destination, and it is not there already. -/
def IsCarried (source destination place : List Component) : Prop :=
  ∃ rest, place = source ++ rest ∧ Components.append destination rest = destination ++ rest ∧
    Components.isWithin destination place = false

section Move

variable {s} {source destination : List Component}

theorem ne_append_of_not_isWithin {place : List Component}
    (h : Components.isWithin destination place = false) (rest : List Component) :
    place ≠ destination ++ rest := by
  rintro rfl
  rw [Components.isWithin_iff.2 ⟨rest, rfl⟩] at h
  cases h

/-- Moving one file fills the new place, clears the old one and does nothing else. -/
theorem getElem?_moveFile {rest : List Component}
    (happend : Components.append destination rest = destination ++ rest)
    (hne : source ++ rest ≠ destination ++ rest) (place : List Component) :
    (moveFile source destination s (source ++ rest)).files[place]? =
      if place = destination ++ rest then (s.files[source ++ rest]?).or s.files[place]?
      else if place = source ++ rest then none
      else s.files[place]? := by
  have hstrip : Components.strip? source (source ++ rest) = some rest :=
    Components.strip?_eq_some_iff.2 rfl
  rw [moveFile]
  cases hfile : s.files[source ++ rest]? with
  | none =>
    simp only [Option.none_or]
    by_cases hp : place = source ++ rest
    · simp [hp, hfile]
    · simp [hp]
  | some bytes =>
    simp only [hstrip, Option.getD_some, happend, Std.TreeMap.getElem?_insert,
      Std.TreeMap.getElem?_erase, Std.LawfulEqCmp.compare_eq_iff_eq, Option.some_or]
    by_cases hd : place = destination ++ rest
    · simp [hd]
    · by_cases hp : place = source ++ rest
      · simp [hp, hne, hne.symm]
      · simp [hd, hp, Ne.symm hd, Ne.symm hp]

/-- Away from the destination, places that were moved are empty and others unchanged. -/
theorem getElem?_foldl_moveFile_outside {moving : List (List Component)}
    (h : ∀ place ∈ moving, IsCarried source destination place) {place : List Component}
    (hout : Components.isWithin destination place = false) :
    (moving.foldl (moveFile source destination) s).files[place]? =
      if place ∈ moving then none else s.files[place]? := by
  induction moving generalizing s with
  | nil => simp
  | cons first moving ih =>
    obtain ⟨rest, rfl, happend, hfirst⟩ := h first List.mem_cons_self
    rw [List.foldl_cons, ih fun other hother => h other (List.mem_cons_of_mem _ hother),
      getElem?_moveFile happend (ne_append_of_not_isWithin hfirst rest),
      if_neg (ne_append_of_not_isWithin hout rest)]
    by_cases hp : place = source ++ rest
    · simp [hp]
    · simp [hp]

/-- Beneath the destination, what was moved has replaced what was there. -/
theorem getElem?_foldl_moveFile_beneath {moving : List (List Component)}
    (h : ∀ place ∈ moving, IsCarried source destination place) (rest : List Component) :
    (moving.foldl (moveFile source destination) s).files[destination ++ rest]? =
      if source ++ rest ∈ moving then (s.files[source ++ rest]?).or s.files[destination ++ rest]?
      else s.files[destination ++ rest]? := by
  induction moving generalizing s with
  | nil => simp
  | cons first moving ih =>
    obtain ⟨moved, rfl, happend, hfirst⟩ := h first List.mem_cons_self
    have hne := ne_append_of_not_isWithin hfirst
    have hafter := fun place => getElem?_moveFile (s := s) happend (hne moved) place
    rw [List.foldl_cons, ih fun other hother => h other (List.mem_cons_of_mem _ hother),
      hafter (destination ++ rest), hafter (source ++ rest)]
    by_cases he : rest = moved
    · -- the file has left its place, so that moving this place again does nothing
      subst he
      simp [hne rest]
    · have hlater : source ++ rest ∈ moving → source ++ rest ≠ destination ++ moved := by
        intro hmem
        obtain ⟨-, -, -, hout⟩ := h _ (List.mem_cons_of_mem _ hmem)
        exact ne_append_of_not_isWithin hout moved
      by_cases hmem : source ++ rest ∈ moving
      · simp [he, hmem, hlater hmem, (hne rest).symm]
      · simp [he, hmem, (hne rest).symm]

end Move

/-- Each file at or beneath the source of a move is carried to the destination. -/
def IsCarriedAway (source destination : Path) : Prop :=
  ∀ place bytes, s.files[place]? = some bytes →
    Components.isWithin source.components place = true →
    IsCarried source.components destination.components place

section Moved

variable {s} {source destination : Path}

theorem IsCarriedAway.isCarried (h : s.IsCarriedAway source destination) :
    ∀ place ∈ s.files.keys.filter (Components.isWithin source.components),
      IsCarried source.components destination.components place := by
  intro place hplace
  obtain ⟨hkey, hwithin⟩ := List.mem_filter.1 hplace
  obtain ⟨bytes, hfile⟩ := s.mem_keys_iff.1 hkey
  exact h place bytes hfile hwithin

/-- **Beneath the destination there is what was beneath the source.** -/
theorem getElem?_move_beneath (h : s.IsCarriedAway source destination) (rest : List Component) :
    (s.move source destination).files[destination.components ++ rest]? =
      s.files[source.components ++ rest]? := by
  have hcleared : (s.remove destination).files[destination.components ++ rest]? = none := by
    rw [getElem?_remove, if_pos (Components.isWithin_iff.2 ⟨rest, rfl⟩)]
  have hbeneath : Components.isWithin source.components (source.components ++ rest) = true :=
    Components.isWithin_iff.2 ⟨rest, rfl⟩
  rw [move, getElem?_foldl_moveFile_beneath h.isCarried, hcleared, Option.or_none]
  cases hfile : s.files[source.components ++ rest]? with
  | none =>
    rw [if_neg]
    intro hmem
    obtain ⟨bytes, hbytes⟩ := s.mem_keys_iff.1 (List.mem_filter.1 hmem).1
    rw [hfile] at hbytes
    cases hbytes
  | some bytes =>
    obtain ⟨-, -, -, hout⟩ := h _ bytes hfile hbeneath
    rw [if_pos (List.mem_filter.2 ⟨s.mem_keys_iff.2 ⟨bytes, hfile⟩, hbeneath⟩), getElem?_remove,
      hout]
    exact hfile

/-- **Elsewhere what was beneath the source is gone, and all else is as it was.** -/
theorem getElem?_move_outside (h : s.IsCarriedAway source destination) {place : List Component}
    (hout : Components.isWithin destination.components place = false) :
    (s.move source destination).files[place]? =
      if Components.isWithin source.components place = true then none else s.files[place]? := by
  rw [move, getElem?_foldl_moveFile_outside h.isCarried hout, getElem?_remove, hout]
  simp only [Bool.false_eq_true, if_false]
  by_cases hwithin : Components.isWithin source.components place = true
  · rw [if_pos hwithin]
    split
    · rfl
    · rename_i hmem
      refine Option.eq_none_iff_forall_ne_some.2 fun bytes hfile => hmem ?_
      exact List.mem_filter.2 ⟨s.mem_keys_iff.2 ⟨bytes, hfile⟩, hwithin⟩
  · rw [if_neg hwithin, if_neg fun hmem => hwithin (List.mem_filter.1 hmem).2]

end Moved

/-! ### Lone files -/

/-- Nothing lies beneath a path: only the file of the path itself may be there. -/
def IsLone (p : Path) : Prop :=
  ∀ place bytes, s.files[place]? = some bytes →
    Components.isWithin p.components place = true → place = p.components

section Lone

variable {s} {p source destination : Path} {bytes : Bytes}

theorem IsLone.occupied_iff (h : s.IsLone p) :
    s.occupied p = true ↔ ∃ bytes, s.file? p = some bytes := by
  rw [s.occupied_iff]
  constructor
  · rintro ⟨place, bytes, hplace, hwithin⟩
    rw [h place bytes hplace hwithin] at hplace
    exact ⟨bytes, hplace⟩
  · rintro ⟨bytes, hfile⟩
    exact ⟨p.components, bytes, hfile, Components.isWithin_iff.2 ⟨[], by simp⟩⟩

/-- Moving a lone file to a lone place carries the bytes there and does nothing else. -/
theorem IsLone.getElem?_move (h : s.IsLone source) (h' : s.IsLone destination)
    (hfile : s.file? source = some bytes) (hne : source.components ≠ destination.components)
    (place : List Component) : (s.move source destination).files[place]? =
      if destination.components = place then some bytes
      else if source.components = place then none
      else s.files[place]? := by
  have hapart : Components.isWithin destination.components source.components = false :=
    Bool.eq_false_iff.2 fun hwithin => hne (h' _ _ hfile hwithin)
  have hcarried : s.IsCarriedAway source destination := by
    intro other content hcontent hwithin
    rw [h other content hcontent hwithin]
    exact ⟨[], (List.append_nil _).symm, (List.append_nil _).symm, hapart⟩
  have halone : ∀ {p : Path}, s.IsLone p → p.components ≠ place →
      Components.isWithin p.components place = true → s.files[place]? = none := by
    intro p hp hplace hwithin
    exact Option.eq_none_iff_forall_ne_some.2 fun content hcontent =>
      hplace (hp place content hcontent hwithin).symm
  by_cases hd : destination.components = place
  · have hmoved := getElem?_move_beneath hcarried []
    rw [List.append_nil, List.append_nil] at hmoved
    rw [if_pos hd, ← hd, hmoved]
    exact hfile
  rw [if_neg hd]
  cases hwithin : Components.isWithin destination.components place with
  | true =>
    obtain ⟨rest, rfl⟩ := Components.isWithin_iff.1 hwithin
    have hrest : rest ≠ [] := by
      rintro rfl
      exact hd (List.append_nil _).symm
    have hsource : s.files[source.components ++ rest]? = none :=
      Option.eq_none_iff_forall_ne_some.2 fun content hcontent => hrest (by
        simpa using h _ content hcontent (Components.isWithin_iff.2 ⟨rest, rfl⟩))
    rw [getElem?_move_beneath hcarried, hsource, halone h' hd hwithin]
    split <;> rfl
  | false =>
    rw [getElem?_move_outside hcarried hwithin]
    by_cases hs : source.components = place
    · rw [if_pos hs, if_pos (Components.isWithin_iff.2 ⟨[], by rw [hs, List.append_nil]⟩)]
    · rw [if_neg hs]
      split
      · rename_i hbeneath
        exact (halone h hs hbeneath).symm
      · rfl

end Lone

/-! ### What the calls answer -/

theorem outcome_getContent (p : Path) : (getContent p).outcome s =
    match s.file? p with
    | some bytes => (.ok bytes, s)
    | none => (.error (.notFound engine p), s) := by
  rw [getContent, Action.outcome_bind, Action.outcome_get]
  cases h : s.file? p <;> simp only [h] <;> rfl

theorem outcome_putContent (p : Path) (bytes : Bytes) :
    (putContent p bytes).outcome s = (.ok (), s.put p bytes) :=
  rfl

theorem outcome_readStream (p : Path) (offset : Nat) : (readStream p offset).outcome s =
    match s.file? p with
    | some bytes =>
      if bytes.length < offset then (.error (.invalidOffset engine p offset bytes.length), s)
      else (.ok (bytes.drop offset), s)
    | none => (.error (.notFound engine p), s) := by
  rw [readStream, Action.outcome_bind, Action.outcome_get]
  cases h : s.file? p with
  | none =>
    simp only [h]
    rfl
  | some bytes =>
    simp only [h]
    split <;> rfl

theorem outcome_stat (p : Path) : (stat p).outcome s =
    match s.file? p with
    | some bytes => (.ok ⟨bytes.length, false⟩, s)
    | none =>
      if s.occupied p then (.ok ⟨0, true⟩, s) else (.error (.notFound engine p), s) := by
  rw [stat, Action.outcome_bind, Action.outcome_get]
  cases h : s.file? p with
  | some bytes =>
    simp only [h]
    rfl
  | none =>
    simp only [h]
    split <;> rfl

/-- Listing changes nothing. -/
theorem outcome_list_snd (p : Path) : ((list p).outcome s).2 = s := by
  rw [list, Action.outcome_bind, Action.outcome_get]
  simp only
  split
  · rfl
  · split <;> rfl

theorem outcome_rename (source destination : Path) : (rename source destination).outcome s =
    if s.occupied source then (.ok (), s.move source destination)
    else (.error (.notFound engine source), s) := by
  rw [rename, Action.outcome_bind, Action.outcome_get]
  simp only
  split <;> rfl

theorem outcome_delete (p : Path) : (delete p).outcome s =
    if s.occupied p then (.ok (), s.remove p) else (.error (.notFound engine p), s) := by
  rw [delete, Action.outcome_bind, Action.outcome_get]
  simp only
  split <;> rfl

theorem outcome_writeStream (p : Path) (offset : Nat) (source : Source) :
    (writeStream p offset source).outcome s =
      match source.failure with
      | some e => (.error (.ofIo engine p e), s)
      | none =>
        if ((s.file? p).getD []).length < offset then
          (.error (.invalidOffset engine p offset ((s.file? p).getD []).length), s)
        else (.ok ⟨source.bytes.length, source.bytes.length⟩,
          s.put p (splice ((s.file? p).getD []) offset source.bytes)) := by
  rw [writeStream]
  cases source.failure with
  | some e => rfl
  | none =>
    simp only
    rw [Action.outcome_bind, Action.outcome_get]
    simp only
    split <;> rfl

/-! ### Stores whose files are resources -/

/-- Every file of the store is a resource's. -/
def LaidOut (l : Layout) : Prop :=
  ∀ place bytes, s.files[place]? = some bytes →
    ∃ r : Resource, r.isFile = true ∧ place = (l.path r).components

variable {s} {l : Layout}

theorem laidOut_empty : LaidOut empty l := by
  intro place bytes h
  simp [empty] at h

theorem file?_empty_ne (p : Path) (bytes : Bytes) : empty.file? p ≠ some bytes := by
  simp [file?, empty]

/-- In a store that is laid out, a place is occupied by the files of resources. -/
theorem LaidOut.occupied_iff (h : s.LaidOut l) (r : Resource) : s.occupied (l.path r) = true ↔
    ∃ f bytes, f.isFile = true ∧ r.place <+: f.place ∧ s.file? (l.path f) = some bytes := by
  rw [s.occupied_iff]
  constructor
  · rintro ⟨place, bytes, hplace, hw⟩
    obtain ⟨f, hf, rfl⟩ := h place bytes hplace
    exact ⟨f, bytes, hf, (l.isWithin_path_iff r f).1 hw, hplace⟩
  · rintro ⟨f, bytes, -, hp, hfile⟩
    exact ⟨_, bytes, hfile, (l.isWithin_path_iff r f).2 hp⟩

/-- Nothing lies beneath the path of a file. -/
theorem LaidOut.isLone (h : s.LaidOut l) {r : Resource} (hr : r.isFile = true) :
    s.IsLone (l.path r) := by
  intro place bytes hplace hwithin
  obtain ⟨f, -, rfl⟩ := h place bytes hplace
  rw [Resource.eq_of_place_isPrefix hr ((l.isWithin_path_iff r f).1 hwithin)]

/-- Where a file belongs there is a file or nothing. -/
theorem LaidOut.occupied_file_iff (h : s.LaidOut l) {r : Resource} (hr : r.isFile = true) :
    s.occupied (l.path r) = true ↔ ∃ bytes, s.file? (l.path r) = some bytes :=
  (h.isLone hr).occupied_iff

/-- Where a file belongs, storage describes the file or finds nothing. -/
theorem LaidOut.outcome_stat (h : s.LaidOut l) {r : Resource} (hr : r.isFile = true) :
    (stat (l.path r)).outcome s =
      match s.file? (l.path r) with
      | some bytes => (.ok ⟨bytes.length, false⟩, s)
      | none => (.error (.notFound engine (l.path r)), s) := by
  rw [MemoryStore.outcome_stat]
  cases hfile : s.file? (l.path r) with
  | some bytes => rfl
  | none =>
    have hfree : ¬ s.occupied (l.path r) = true := by
      rw [h.occupied_file_iff hr, hfile]
      simp
    simp only [if_neg hfree]

/-- Storing a file leaves the other files alone. -/
theorem file?_put_path {a : Resource} (ha : a.isFile = true) (b : Resource) (bytes : Bytes) :
    (s.put (l.path a) bytes).file? (l.path b) =
      if b = a then some bytes else s.file? (l.path b) := by
  rw [file?_put]
  by_cases hab : b = a
  · rw [if_pos hab, if_pos (by rw [hab])]
  · rw [if_neg hab, if_neg fun he => hab (l.file_ext ha he).symm]

theorem LaidOut.put (h : s.LaidOut l) {a : Resource} (ha : a.isFile = true) (bytes : Bytes) :
    (s.put (l.path a) bytes).LaidOut l := by
  intro place content hplace
  rcases of_getElem?_put hplace with hput | hkept
  · exact ⟨a, ha, hput.symm⟩
  · exact h place content hkept

/-- Removing an upload removes its two files and no other. -/
theorem file?_remove_upload (n : RepositoryName) (id : UploadId) {b : Resource}
    (hb : b.isFile = true) : (s.remove (l.path (.upload n id))).file? (l.path b) =
      if b = .uploadData n id ∨ b = .uploadStartedAt n id then none else s.file? (l.path b) := by
  rw [file?_remove]
  by_cases hu : b = .uploadData n id ∨ b = .uploadStartedAt n id
  · rw [if_pos hu, if_pos]
    rw [Layout.isWithin_path_iff]
    rcases hu with rfl | rfl
    · exact Resource.upload_isPrefix_data n id
    · exact Resource.upload_isPrefix_startedAt n id
  · rw [if_neg hu, if_neg]
    rw [Layout.isWithin_path_iff]
    exact fun hp => hu (Resource.file_beneath_upload hb hp)

theorem LaidOut.remove (h : s.LaidOut l) (p : Path) : (s.remove p).LaidOut l :=
  fun place bytes hplace => h place bytes (of_getElem?_remove hplace)

theorem LaidOut.getElem?_move (h : s.LaidOut l) {a b : Resource} (ha : a.isFile = true)
    (hb : b.isFile = true) (hab : a ≠ b) {bytes : Bytes} (hfile : s.file? (l.path a) = some bytes)
    (place : List Component) :
    (s.move (l.path a) (l.path b)).files[place]? =
      if (l.path b).components = place then some bytes
      else if (l.path a).components = place then none
      else s.files[place]? :=
  (h.isLone ha).getElem?_move (h.isLone hb) hfile (fun he => hab (l.file_ext ha he)) place

/-- Moving a file carries its bytes and leaves the other files alone. -/
theorem LaidOut.file?_move (h : s.LaidOut l) {a b : Resource} (ha : a.isFile = true)
    (hb : b.isFile = true) (hab : a ≠ b) {bytes : Bytes} (hfile : s.file? (l.path a) = some bytes)
    (f : Resource) : (s.move (l.path a) (l.path b)).file? (l.path f) =
      if f = b then some bytes else if f = a then none else s.file? (l.path f) := by
  rw [file?, h.getElem?_move ha hb hab hfile]
  by_cases hfb : f = b
  · rw [if_pos hfb, if_pos (by rw [hfb])]
  · rw [if_neg hfb, if_neg fun he => hfb (l.file_ext hb he).symm]
    by_cases hfa : f = a
    · rw [if_pos hfa, if_pos (by rw [hfa])]
    · rw [if_neg hfa, if_neg fun he => hfa (l.file_ext ha he).symm]
      rfl

theorem LaidOut.move (h : s.LaidOut l) {a b : Resource} (ha : a.isFile = true)
    (hb : b.isFile = true) (hab : a ≠ b) {bytes : Bytes}
    (hfile : s.file? (l.path a) = some bytes) :
    (s.move (l.path a) (l.path b)).LaidOut l := by
  intro place content hplace
  rw [h.getElem?_move ha hb hab hfile] at hplace
  split at hplace
  · rename_i he
    exact ⟨b, hb, he.symm⟩
  · split at hplace
    · cases hplace
    · exact h place content hplace

end MemoryStore
end ContainerRegistry
