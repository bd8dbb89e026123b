/-
# Renaming between paths that overlap

Two paths overlap when one lies at or beneath the other. Both drivers remove what is at the
destination before they move anything, without asking whether that is what they are about to
move. So a source that is the destination or lies beneath it goes, and so does the part of a
source that lies beneath the destination.

In memory the call still succeeds. It loses nothing only if there is nothing at the source, or
if the destination is a vacant place beneath it, and then it is an exact move
(`MemoryStore.IsSpelled.renameKeeps_iff`). That nothing else will do is a matter of counting:
each file that is moved adds one to those beneath the destination at most, and those that were
there from the start, and had to be moved, add none. In a file tree the call fails but for a
file that is renamed to itself, after the directory at the destination has been removed
(`LocalStore.renameKeeps_iff`).

Key definitions: `Path.Overlaps`, `Driver.RenameKeeps`, `MemoryStore.beneath`,
`MemoryStore.HasRoom`.
Key theorems: `MemoryStore.not_isPrefix_of_arrived`, `MemoryStore.IsSpelled.renameKeeps_iff`,
`LocalStore.renameKeeps_iff`, `rename_overlapping`.
-/
import Mathlib.Data.Finset.Card
import ContainerRegistry.Proofs.Clearing
import ContainerRegistry.Proofs.Subtree

namespace ContainerRegistry

/-- One path lies at or beneath the other. -/
def Path.Overlaps (p q : Path) : Prop :=
  p.components <+: q.components ∨ q.components <+: p.components

/-- A rename loses no file. If it succeeds, what was beneath the source is in the same place
beneath the destination, and if it fails, every file is where it was. -/
def Driver.RenameKeeps {σ ρ α : Type} (d : Driver σ ρ) (files : σ → List α → Option Bytes)
    (locate : Path → List α) (s : σ) (source destination : Path) : Prop :=
  let t := ((d.rename source destination).outcome s).2
  match ((d.rename source destination).outcome s).1 with
  | .ok () => ∀ rest bytes, files s (locate source ++ rest) = some bytes →
      files t (locate destination ++ rest) = some bytes
  | .error _ => ∀ place bytes, files s place = some bytes → files t place = some bytes

section RenameKeeps

variable {σ ρ α : Type} {d : Driver σ ρ} {files : σ → List α → Option Bytes}
  {locate : Path → List α} {s t : σ} {source destination : Path}

theorem renameKeeps_ok_iff (h : (d.rename source destination).outcome s = (.ok (), t)) :
    d.RenameKeeps files locate s source destination ↔
      ∀ rest bytes, files s (locate source ++ rest) = some bytes →
        files t (locate destination ++ rest) = some bytes := by
  rw [Driver.RenameKeeps, h]

theorem renameKeeps_error_iff {e : StorageError}
    (h : (d.rename source destination).outcome s = (.error e, t)) :
    d.RenameKeeps files locate s source destination ↔
      ∀ place bytes, files s place = some bytes → files t place = some bytes := by
  rw [Driver.RenameKeeps, h]

end RenameKeeps

namespace MemoryStore

variable {s : MemoryStore}

/-! ### Counting the files beneath a path -/

/-- The places at and beneath a path that have a file. -/
def beneath (s : MemoryStore) (base : List Component) : Finset (List Component) :=
  (s.files.keys.filter (Components.isWithin base)).toFinset

variable {base source destination place : List Component}

theorem mem_beneath_iff :
    place ∈ s.beneath base ↔ (∃ bytes, s.files[place]? = some bytes) ∧ base <+: place := by
  rw [beneath, List.mem_toFinset, List.mem_filter, mem_keys_iff, Components.isWithin_iff_isPrefix]

theorem card_beneath (s : MemoryStore) (base : List Component) :
    (s.beneath base).card = (s.files.keys.filter (Components.isWithin base)).length :=
  List.toFinset_card_of_nodup (s.files.nodup_keys.filter _)

/-- Moving a file adds one to what is beneath the destination, unless it was there already. -/
theorem card_beneath_moveFile_le (s : MemoryStore) (source destination place : List Component) :
    ((moveFile source destination s place).beneath destination).card ≤
      (s.beneath destination).card + if Components.isWithin destination place then 0 else 1 := by
  rw [moveFile]
  cases hfile : s.files[place]? with
  | none => exact Nat.le_add_right _ _
  | some bytes =>
    simp only
    generalize Components.append destination ((Components.strip? source place).getD []) = new
    have hsubset : (MemoryStore.mk ((s.files.erase place).insert new bytes)).beneath destination ⊆
        insert new ((s.beneath destination).erase place) := by
      intro other hother
      obtain ⟨⟨content, hcontent⟩, hbeneath⟩ := mem_beneath_iff.1 hother
      simp only [Std.TreeMap.getElem?_insert, Std.TreeMap.getElem?_erase,
        Std.LawfulEqCmp.compare_eq_iff_eq] at hcontent
      by_cases hnew : new = other
      · exact hnew ▸ Finset.mem_insert_self _ _
      by_cases hplace : place = other
      · simp [hnew, hplace] at hcontent
      · rw [if_neg hnew, if_neg hplace] at hcontent
        exact Finset.mem_insert_of_mem (Finset.mem_erase.2
          ⟨Ne.symm hplace, mem_beneath_iff.2 ⟨⟨content, hcontent⟩, hbeneath⟩⟩)
    have hcard := (Finset.card_le_card hsubset).trans (Finset.card_insert_le _ _)
    by_cases hwithin : Components.isWithin destination place = true
    · have hmem : place ∈ s.beneath destination :=
        mem_beneath_iff.2 ⟨⟨bytes, hfile⟩, Components.isWithin_iff_isPrefix.1 hwithin⟩
      rw [Finset.card_erase_add_one hmem] at hcard
      rwa [if_pos hwithin]
    · rw [if_neg hwithin]
      exact hcard.trans (Nat.succ_le_succ (Finset.card_erase_le))

/-- No more arrives than was moved from elsewhere. -/
theorem card_beneath_foldl_le (source destination : List Component)
    (moving : List (List Component)) (s : MemoryStore) :
    ((moving.foldl (moveFile source destination) s).beneath destination).card ≤
      (s.beneath destination).card +
        moving.countP fun place => !Components.isWithin destination place := by
  induction moving generalizing s with
  | nil => exact Nat.le_refl _
  | cons place moving ih =>
    have hfirst := card_beneath_moveFile_le s source destination place
    have hrest := ih (moveFile source destination s place)
    rw [List.foldl_cons, List.countP_cons]
    cases hwithin : Components.isWithin destination place <;> simp [hwithin] at hfirst ⊢ <;> omega

/-! ### What a rename keeps -/

variable {source destination : Path}

/-- **What is in the way of its own move is lost.** If everything beneath the source has arrived,
none of it lay beneath the destination. -/
theorem not_isPrefix_of_arrived {place : List Component} {bytes : Bytes}
    (h : ∀ rest bytes, s.files[source.components ++ rest]? = some bytes →
      (s.move source destination).files[destination.components ++ rest]? = some bytes)
    (hfile : s.files[place]? = some bytes) (hsource : source.components <+: place) :
    ¬ destination.components <+: place := by
  intro hdestination
  -- the files beneath the source are as many as the places to move
  have harrived : (s.beneath source.components).card ≤
      ((s.move source destination).beneath destination.components).card := by
    refine Finset.card_le_card_of_injOn
      (fun place => destination.components ++ place.drop source.components.length) ?_ ?_
    · intro place hplace
      obtain ⟨⟨bytes, hbytes⟩, rest, rfl⟩ := mem_beneath_iff.1 hplace
      simp only [List.drop_left]
      exact mem_beneath_iff.2 ⟨⟨bytes, h rest bytes hbytes⟩, List.prefix_append _ _⟩
    · intro place hplace place' hplace' he
      obtain ⟨-, rest, rfl⟩ := mem_beneath_iff.1 hplace
      obtain ⟨-, rest', rfl⟩ := mem_beneath_iff.1 hplace'
      simpa using he
  -- and one of them is no longer there to be moved
  have hcleared : ((s.remove destination).beneath destination.components).card = 0 := by
    rw [Finset.card_eq_zero, Finset.eq_empty_iff_forall_notMem]
    intro place hplace
    obtain ⟨⟨bytes, hbytes⟩, hbeneath⟩ := mem_beneath_iff.1 hplace
    rw [getElem?_remove, if_pos (Components.isWithin_iff_isPrefix.2 hbeneath)] at hbytes
    cases hbytes
  have hmoved := card_beneath_foldl_le source.components destination.components
    (s.files.keys.filter (Components.isWithin source.components)) (s.remove destination)
  have hlost : (s.files.keys.filter (Components.isWithin source.components)).countP
        (fun place => !Components.isWithin destination.components place) <
      (s.files.keys.filter (Components.isWithin source.components)).length := by
    refine lt_of_le_of_ne List.countP_le_length fun hall => ?_
    have hmem : place ∈ s.files.keys.filter (Components.isWithin source.components) :=
      List.mem_filter.2
        ⟨s.mem_keys_iff.2 ⟨bytes, hfile⟩, Components.isWithin_iff_isPrefix.2 hsource⟩
    have hnot := List.countP_eq_length.1 hall place hmem
    rw [Components.isWithin_iff_isPrefix.2 hdestination] at hnot
    cases hnot
  rw [card_beneath] at harrived
  rw [hcleared, ← MemoryStore.move] at hmoved
  omega

/-- The destination lies beneath the source, where there is nothing yet; and what is beneath the
source can follow the destination as it is. -/
structure HasRoom (s : MemoryStore) (source destination : Path) : Prop where
  isPrefix : source.components <+: destination.components
  vacant : s.occupied destination = false
  inner : ∀ rest bytes, s.files[source.components ++ rest]? = some bytes → ∀ c ∈ rest, c.IsInner

theorem HasRoom.isMove (h : s.HasRoom source destination) :
    IsMove s (s.move source destination) source destination := by
  refine isMove_of_carried fun place bytes hfile hwithin => ?_
  obtain ⟨rest, rfl⟩ := Components.isWithin_iff.1 hwithin
  refine ⟨rest, rfl, Components.append_of_isInner (h.inner rest bytes hfile),
    Bool.eq_false_iff.2 fun hbeneath => ?_⟩
  have hoccupied : s.occupied destination = true := s.occupied_iff.2 ⟨_, bytes, hfile, hbeneath⟩
  rw [h.vacant] at hoccupied
  cases hoccupied

/-- Of two paths that overlap, all that is beneath the one arrives beneath the other only if
there is room for it. -/
theorem IsSpelled.hasRoom (hs : s.IsSpelled) (hoverlaps : source.Overlaps destination)
    (hoccupied : s.occupied source = true)
    (h : ∀ rest bytes, s.files[source.components ++ rest]? = some bytes →
      (s.move source destination).files[destination.components ++ rest]? = some bytes) :
    s.HasRoom source destination := by
  obtain ⟨place, bytes, hfile, hwithin⟩ := s.occupied_iff.1 hoccupied
  have hsource := Components.isWithin_iff_isPrefix.1 hwithin
  have hout := not_isPrefix_of_arrived h hfile hsource
  have hbeneath : source.components <+: destination.components :=
    hoverlaps.resolve_right fun hle => hout (hle.trans hsource)
  have hdestination : destination.components ≠ [] :=
    fun he => hout (by rw [he]; exact List.nil_prefix)
  constructor
  case isPrefix => exact hbeneath
  case vacant =>
    refine Bool.eq_false_iff.2 fun htaken => ?_
    obtain ⟨other, content, hcontent, hother⟩ := s.occupied_iff.1 htaken
    have hother := Components.isWithin_iff_isPrefix.1 hother
    exact not_isPrefix_of_arrived h hcontent (hbeneath.trans hother) hother
  case inner =>
    intro rest content hcontent
    obtain ⟨p, hp⟩ := hs.move source destination _ content (h rest content hcontent)
    exact p.isInner_of_components hp hdestination

/-- **In memory, a rename between paths that overlap loses nothing exactly if there is nothing
to move or there is room for it.** -/
theorem IsSpelled.renameKeeps_iff (hs : s.IsSpelled) (h : source.Overlaps destination) :
    driver.RenameKeeps (fun s place => s.files[place]?) Path.components s source destination ↔
      (s.occupied source = true → s.HasRoom source destination) := by
  have houtcome : (driver.rename source destination).outcome s = _ :=
    s.outcome_rename source destination
  by_cases hoccupied : s.occupied source = true
  · rw [if_pos hoccupied] at houtcome
    rw [renameKeeps_ok_iff houtcome]
    constructor
    · exact fun hkeeps _ => hs.hasRoom h hoccupied hkeeps
    · intro hroom rest bytes hfile
      exact ((hroom hoccupied).isMove.arrived rest).trans hfile
  · rw [if_neg hoccupied] at houtcome
    rw [renameKeeps_error_iff houtcome]
    exact ⟨fun _ hyes => absurd hyes hoccupied, fun _ _ _ hfile => hfile⟩

/-- Onto itself or a path that it lies beneath, a source is removed. -/
theorem outcome_rename_above (hoccupied : s.occupied source = true)
    (h : destination.components <+: source.components) :
    (driver.rename source destination).outcome s = (.ok (), s.remove destination) := by
  have houtcome : (driver.rename source destination).outcome s = _ :=
    s.outcome_rename source destination
  have hmove : ∀ moving : List (List Component),
      (∀ place ∈ moving, Components.isWithin source.components place = true) →
      moving.foldl (moveFile source.components destination.components) (s.remove destination) =
        s.remove destination := by
    intro moving hmoving
    induction moving with
    | nil => rfl
    | cons place moving ih =>
      have hsource := Components.isWithin_iff_isPrefix.1 (hmoving place List.mem_cons_self)
      have hgone : (s.remove destination).files[place]? = none := by
        rw [getElem?_remove, if_pos (Components.isWithin_iff_isPrefix.2 (h.trans hsource))]
      rw [List.foldl_cons, moveFile, hgone]
      exact ih fun other hother => hmoving other (List.mem_cons_of_mem _ hother)
  rw [houtcome, if_pos hoccupied, move, hmove _ fun place hplace => (List.mem_filter.1 hplace).2]

end MemoryStore

/-! ### In a file tree -/

namespace LocalStore

variable {place : Place} {s : LocalStore} {source destination : Path}

theorem locate_isPrefix (place : Place) {p q : Path} (h : p.components <+: q.components) :
    place.locate p <+: place.locate q :=
  (List.prefix_append_right_inj _).2 (h.filterMap Component.name?)

/-- **In a file tree, a rename between paths that overlap loses nothing exactly if it clears no
file.** -/
theorem renameKeeps_iff (h : s.disk.Sound) (hup : .up ∉ source.components)
    (hup' : .up ∉ destination.components) (hoverlaps : source.Overlaps destination) :
    (driver place).RenameKeeps (fun s => s.disk.content?) place.locate s source destination ↔
      (Clears place s source destination →
        ∀ rest, s.disk.content? (place.locate destination ++ rest) = none) := by
  obtain ⟨x, t, houtcome, hok, hcleared, hkept⟩ := outcome_rename_overlapping h hup hup'
    (hoverlaps.imp (locate_isPrefix place) (locate_isPrefix place))
  have hrename : ((driver place).rename source destination).outcome s = (x, t) := houtcome
  cases x with
  | ok u =>
    obtain ⟨he, id, hfile⟩ := hok rfl
    have hclears : ¬ Clears place s source destination := not_clears_of_file hup' (he ▸ hfile)
    rw [renameKeeps_ok_iff hrename]
    refine ⟨fun _ hyes => absurd hyes hclears, fun _ rest bytes hbytes => ?_⟩
    rwa [hkept hclears, ← he]
  | error e =>
    rw [renameKeeps_error_iff hrename]
    by_cases hclears : Clears place s source destination
    · have hentry := hcleared hclears
      constructor
      · intro hkeeps _ rest
        refine Option.eq_none_iff_forall_ne_some.2 fun bytes hbytes => ?_
        have hlost := hkeeps _ bytes hbytes
        rw [hentry, if_pos (List.prefix_append _ _)] at hlost
        cases hlost
      · intro hempty q bytes hbytes
        rw [hentry, if_neg, hbytes]
        rintro ⟨rest, rfl⟩
        rw [hempty hclears rest] at hbytes
        cases hbytes
    · exact ⟨fun _ hyes => absurd hyes hclears,
        fun _ q bytes hbytes => (hkept hclears q).trans hbytes⟩

end LocalStore

/-- **What a rename between paths that overlap does.** In memory it loses nothing exactly if
there is nothing to move or there is room for it, and then it moves the source as it is; onto
the source itself, or a path above it, it removes the destination. In a file tree it loses
nothing exactly if there is no file in the directory that it removes, and succeeds only for a
file that is renamed to itself, which changes no file. -/
theorem rename_overlapping {source destination : Path} (h : source.Overlaps destination) :
    (∀ s : MemoryStore, s.IsSpelled →
      (MemoryStore.driver.RenameKeeps (fun s place => s.files[place]?) Path.components s
          source destination ↔ (s.occupied source = true → s.HasRoom source destination)) ∧
        (s.occupied source = true → s.HasRoom source destination →
          ∃ t, (MemoryStore.driver.rename source destination).outcome s = (.ok (), t) ∧
            s.IsMove t source destination) ∧
        (s.occupied source = true → destination.components <+: source.components →
          (MemoryStore.driver.rename source destination).outcome s =
            (.ok (), s.remove destination))) ∧
    ∀ (place : LocalStore.Place) (s : LocalStore), s.disk.Sound →
      .up ∉ source.components → .up ∉ destination.components →
      ((LocalStore.driver place).RenameKeeps (fun s => s.disk.content?) place.locate s
          source destination ↔ (LocalStore.Clears place s source destination →
            ∀ rest, s.disk.content? (place.locate destination ++ rest) = none)) ∧
        ∃ x t, ((LocalStore.driver place).rename source destination).outcome s = (x, t) ∧
          (x = .ok () → place.locate source = place.locate destination ∧
            ∃ bytes, s.disk.content? (place.locate source) = some bytes) ∧
          (LocalStore.Clears place s source destination → ∀ q, t.disk.content? q =
            if place.locate destination <+: q then none else s.disk.content? q) ∧
          (¬ LocalStore.Clears place s source destination →
            ∀ q, t.disk.content? q = s.disk.content? q) := by
  refine ⟨fun s hs => ⟨hs.renameKeeps_iff h, fun hoccupied hroom => ?_,
    fun hoccupied hle => MemoryStore.outcome_rename_above hoccupied hle⟩,
    fun place s hs hup hup' => ⟨LocalStore.renameKeeps_iff hs hup hup' h, ?_⟩⟩
  · refine ⟨s.move source destination, ?_, hroom.isMove⟩
    exact (s.outcome_rename source destination).trans (if_pos hoccupied)
  · obtain ⟨x, t, houtcome, hok, hcleared, hkept⟩ := LocalStore.outcome_rename_overlapping hs hup
      hup' (h.imp (LocalStore.locate_isPrefix place) (LocalStore.locate_isPrefix place))
    refine ⟨x, t, houtcome, fun hx => ?_, hcleared, hkept⟩
    obtain ⟨he, id, hfile⟩ := hok hx
    exact ⟨he, _, Disk.content?_of_file hfile⟩

/-- A tree with one file, in a directory. -/
def Disk.withFile : Disk :=
  (Disk.empty.addDirectory ["a"]).addFile ["a", "x"] [120]

theorem Disk.sound_withFile : withFile.Sound := by
  have hempty : empty.Sound := by
    have hentry : ∀ {p e}, empty.entryAt? p = some e → p = [] ∧ e = .directory := by
      intro p e he
      by_cases hp : p = []
      · exact ⟨hp, by rw [hp, entryAt?_nil] at he; exact (Option.some.inj he).symm⟩
      · simp [entryAt?_of_ne_nil hp, empty] at he
    constructor
    case parent => exact fun he => absurd (hentry he).1 (by simp)
    case fresh => exact fun he => by cases (hentry he).2
    case lone => exact fun he => by cases (hentry he).2
  have hdirectory : (empty.addDirectory ["a"]).Sound :=
    (grown_addDirectory (p := []) fun q hq => by rw [List.prefix_nil.1 hq]; rfl).sound hempty
  exact hdirectory.addFile (p := ["a"]) rfl rfl [120]

/-- The file at a path is lost when it is renamed to itself in memory, and the one in a directory
when it is renamed to the directory in a file tree. -/
theorem not_forall_renameKeeps :
    (¬ ∀ (s : MemoryStore) (source destination : Path), s.IsSpelled → source.Overlaps destination →
      MemoryStore.driver.RenameKeeps (fun s place => s.files[place]?) Path.components s
        source destination) ∧
    ¬ ∀ (place : LocalStore.Place) (s : LocalStore) (source destination : Path), s.disk.Sound →
      .up ∉ source.components → .up ∉ destination.components → source.Overlaps destination →
      (LocalStore.driver place).RenameKeeps (fun s => s.disk.content?) place.locate s
        source destination := by
  constructor
  · intro h
    have hs := MemoryStore.isSpelled_empty.put ⟨"/a"⟩ [120]
    have hfile : (MemoryStore.empty.put ⟨"/a"⟩ [120]).file? ⟨"/a"⟩ = some [120] :=
      (MemoryStore.empty.file?_put _ _ _).trans (if_pos rfl)
    have hoccupied : (MemoryStore.empty.put ⟨"/a"⟩ [120]).occupied ⟨"/a"⟩ = true :=
      (MemoryStore.occupied_iff _).2 ⟨_, _, hfile, Components.isWithin_iff.2 ⟨[], by simp⟩⟩
    have hroom := (hs.renameKeeps_iff (Or.inl List.prefix_rfl)).1
      (h _ ⟨"/a"⟩ ⟨"/a"⟩ hs (Or.inl List.prefix_rfl)) hoccupied
    cases hroom.vacant.symm.trans hoccupied
  · intro h
    have hkeeps := h ⟨[], 0⟩ ⟨.withFile, 0, []⟩ ⟨"/a/x"⟩ ⟨"/a"⟩ Disk.sound_withFile (by decide)
      (by decide) (Or.inr (by decide))
    have hgone := (LocalStore.renameKeeps_iff Disk.sound_withFile (by decide) (by decide)
      (Or.inr (by decide))).1 hkeeps ⟨⟨_, rfl⟩, rfl⟩ ["x"]
    cases hgone.symm.trans (rfl : Disk.withFile.content? ["a", "x"] = some [120])

/-- A file moves from a directory to a vacant place beneath it; and a file in a directory is lost
to the directory, but not to itself. -/
theorem rename_overlapping_beneath :
    (∃ t, (MemoryStore.driver.rename ⟨"/a"⟩ ⟨"/a/b"⟩).outcome
        (MemoryStore.empty.put ⟨"/a/x"⟩ [120]) = (.ok (), t) ∧
      t.file? ⟨"/a/b/x"⟩ = some [120] ∧ t.file? ⟨"/a/x"⟩ = none) ∧
    ∃ (place : LocalStore.Place) (s : LocalStore), s.disk.Sound ∧
      (LocalStore.driver place).RenameKeeps (fun s => s.disk.content?) place.locate s
        ⟨"/a/x"⟩ ⟨"/a/x"⟩ ∧
      ¬ (LocalStore.driver place).RenameKeeps (fun s => s.disk.content?) place.locate s
        ⟨"/a/x"⟩ ⟨"/a"⟩ := by
  constructor
  · have hs := MemoryStore.isSpelled_empty.put ⟨"/a/x"⟩ [120]
    have hplace : ∀ place, (MemoryStore.empty.put ⟨"/a/x"⟩ [120]).files[place]? =
        if (Path.mk "/a/x").components = place then some [120] else none := by
      intro place
      rw [MemoryStore.put, Std.TreeMap.getElem?_insert]
      simp [MemoryStore.empty]
    have hoccupied : (MemoryStore.empty.put ⟨"/a/x"⟩ [120]).occupied ⟨"/a"⟩ = true :=
      (MemoryStore.occupied_iff _).2 ⟨_, [120], (hplace _).trans (if_pos rfl), by decide⟩
    have hroom : (MemoryStore.empty.put ⟨"/a/x"⟩ [120]).HasRoom ⟨"/a"⟩ ⟨"/a/b"⟩ := by
      constructor
      case isPrefix => decide
      case vacant =>
        rw [Bool.eq_false_iff, ne_eq, MemoryStore.occupied_iff]
        rintro ⟨place, bytes, hbytes, hwithin⟩
        rw [hplace, Option.ite_none_right_eq_some] at hbytes
        rw [← hbytes.1] at hwithin
        revert hwithin
        decide
      case inner =>
        intro rest bytes hbytes
        rw [hplace, Option.ite_none_right_eq_some] at hbytes
        have hrest : (Path.mk "/a").components ++ [.name "x"] = (Path.mk "/a").components ++ rest :=
          Eq.trans (by decide) hbytes.1
        rw [← List.append_cancel_left hrest, List.forall_mem_singleton]
        exact (by decide : Path.IsName "x")
    have hoverlaps : Path.Overlaps ⟨"/a"⟩ ⟨"/a/b"⟩ := Or.inl (by decide)
    obtain ⟨t, houtcome, hmove⟩ := ((rename_overlapping hoverlaps).1 _ hs).2.1 hoccupied hroom
    have hfrom : (Path.mk "/a/x").components = (Path.mk "/a").components ++ [.name "x"] := by decide
    have hto : (Path.mk "/a/b/x").components = (Path.mk "/a/b").components ++ [.name "x"] := by
      decide
    refine ⟨t, houtcome, ?_, hmove.left _ (by decide) (by decide)⟩
    exact (hmove.file? hfrom hto).trans ((hplace _).trans (if_pos rfl))
  · have hself : Path.Overlaps ⟨"/a/x"⟩ ⟨"/a/x"⟩ := Or.inl List.prefix_rfl
    have habove : Path.Overlaps ⟨"/a/x"⟩ ⟨"/a"⟩ := Or.inr (by decide)
    refine ⟨⟨[], 0⟩, ⟨.withFile, 0, []⟩, Disk.sound_withFile, ?_, fun hkeeps => ?_⟩
    · refine ((rename_overlapping hself).2 _ _ Disk.sound_withFile (by decide) (by decide)).1.2
        fun hclears => ?_
      cases hclears.2
    · have hgone := ((rename_overlapping habove).2 _ _ Disk.sound_withFile (by decide)
        (by decide)).1.1 hkeeps ⟨⟨_, rfl⟩, rfl⟩ ["x"]
      cases hgone.symm.trans (rfl : Disk.withFile.content? ["a", "x"] = some [120])

end ContainerRegistry
