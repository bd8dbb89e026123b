/-
# Renaming moves a subtree

The driver in memory renames by taking out the files at and beneath the source one at
a time, and storing each again beneath the destination. When neither of the two paths
lies at or beneath the other, this moves the subtree as it is: no file is lost, none
meets another and none is moved twice, however the paths of the files and the two
paths of the call are spelled.

A file is stored by the components of its path, and beneath another component no path
has a root or a dot. What is left of a place beneath the source can therefore follow
the destination as it stands, which would not hold of arbitrary components.

Key definitions: `MemoryStore.IsSpelled`, `MemoryStore.IsMove`, `Path.IsApart`.
Key theorems: `MemoryStore.IsSpelled.move`, `MemoryStore.IsMove.file?`,
`MemoryStore.isMove_of_carried`, `MemoryStore.rename_moves_subtree`.
-/
import ContainerRegistry.Proofs.Memory

namespace ContainerRegistry

/-! ### Components that follow a path -/

/-- Inner components follow whatever they are appended to. -/
theorem Components.append_of_isInner {base rest : List Component}
    (h : ∀ c ∈ rest, c.IsInner) : append base rest = base ++ rest := by
  cases rest with
  | nil => exact (List.append_nil base).symm
  | cons c rest =>
    have hc := h c List.mem_cons_self
    cases c with
    | up => rfl
    | name text => rfl
    | root => exact hc.elim
    | here => exact hc.elim

/-- What a path adds to another, appended to a third, are again the components of a path. -/
theorem Path.exists_components_append_rest (destination : Path) {p : Path}
    {base rest : List Component} (h : p.components = base ++ rest) :
    ∃ q : Path, q.components = Components.append destination.components rest := by
  by_cases hbase : base = []
  · subst hbase
    obtain ⟨first, inner, he, hinner, hfirst⟩ := p.components_eq
    have hrest : rest = first.toList ++ inner := h.symm.trans he
    cases first with
    | none =>
      rw [hrest, Option.toList_none, List.nil_append, Components.append_of_isInner hinner]
      exact destination.exists_components_append hinner
    | some c =>
      rw [Option.toList_some, List.singleton_append] at hrest
      rcases hfirst c rfl with rfl | rfl | hc
      · exact ⟨p, by rw [he, hrest]; rfl⟩
      · by_cases hd : destination.components = []
        · exact ⟨p, by rw [he, hrest, Components.append, if_pos hd]; rfl⟩
        · rw [hrest, Components.append, if_neg hd]
          exact destination.exists_components_append hinner
      · have hall : ∀ d ∈ rest, d.IsInner := by
          rw [hrest]
          simpa using ⟨hc, hinner⟩
        rw [Components.append_of_isInner hall]
        exact destination.exists_components_append hall
  · have hinner := p.isInner_of_components h hbase
    rw [Components.append_of_isInner hinner]
    exact destination.exists_components_append hinner

/-- Neither path lies at or beneath the other. -/
def Path.IsApart (p q : Path) : Prop :=
  ¬ p.components <+: q.components ∧ ¬ q.components <+: p.components

namespace MemoryStore

variable {s t : MemoryStore}

/-! ### Stores whose files are stored by path -/

/-- Every file lies at the place of a path. No call stores a file anywhere else. -/
def IsSpelled (s : MemoryStore) : Prop :=
  ∀ place bytes, s.files[place]? = some bytes → ∃ p : Path, p.components = place

theorem isSpelled_empty : empty.IsSpelled := by
  intro place bytes h
  simp [empty] at h

theorem IsSpelled.put (h : s.IsSpelled) (p : Path) (bytes : Bytes) : (s.put p bytes).IsSpelled := by
  intro place content hplace
  rcases of_getElem?_put hplace with hput | hkept
  · exact ⟨p, hput⟩
  · exact h place content hkept

theorem IsSpelled.remove (h : s.IsSpelled) (p : Path) : (s.remove p).IsSpelled :=
  fun place bytes hplace => h place bytes (of_getElem?_remove hplace)

theorem IsSpelled.moveFile (h : s.IsSpelled) {source place : List Component} (destination : Path)
    (hwithin : Components.isWithin source place = true) :
    (moveFile source destination.components s place).IsSpelled := by
  obtain ⟨rest, rfl⟩ := Components.isWithin_iff.1 hwithin
  have hstrip : Components.strip? source (source ++ rest) = some rest :=
    Components.strip?_eq_some_iff.2 rfl
  rw [MemoryStore.moveFile]
  cases hfile : s.files[source ++ rest]? with
  | none => exact h
  | some bytes =>
    obtain ⟨p, hp⟩ := h _ bytes hfile
    intro other content hother
    simp only [hstrip, Option.getD_some, Std.TreeMap.getElem?_insert,
      Std.TreeMap.getElem?_erase] at hother
    split at hother
    · rename_i he
      obtain ⟨q, hq⟩ := destination.exists_components_append_rest hp
      exact ⟨q, hq.trans (Std.LawfulEqCmp.eq_of_compare he)⟩
    · split at hother
      · cases hother
      · exact h other content hother

/-- Renaming stores files at the places of paths only, also when the paths overlap. -/
theorem IsSpelled.move (h : s.IsSpelled) (source destination : Path) :
    (s.move source destination).IsSpelled := by
  have hrun : ∀ (moving : List (List Component)) (u : MemoryStore), u.IsSpelled →
      (∀ place ∈ moving, Components.isWithin source.components place = true) →
      (moving.foldl (MemoryStore.moveFile source.components destination.components)
        u).IsSpelled := by
    intro moving
    induction moving with
    | nil => exact fun u hu _ => hu
    | cons place moving ih =>
      intro u hu hmoving
      exact ih _ (hu.moveFile destination (hmoving place List.mem_cons_self))
        fun other hother => hmoving other (List.mem_cons_of_mem _ hother)
  exact hrun _ _ (h.remove destination) fun place hplace => (List.mem_filter.1 hplace).2

/-! ### Moves -/

/-- `t` is `s` with all there is at and beneath `source` moved to `destination`: what was
there before is gone, the source is empty but for what lies beneath the destination, and
other places are as they were. -/
structure IsMove (s t : MemoryStore) (source destination : Path) : Prop where
  arrived : ∀ rest, t.files[destination.components ++ rest]? = s.files[source.components ++ rest]?
  left : ∀ place, source.components <+: place → ¬ destination.components <+: place →
    t.files[place]? = none
  kept : ∀ place, ¬ source.components <+: place → ¬ destination.components <+: place →
    t.files[place]? = s.files[place]?

variable {source destination : Path}

/-- Any two paths that add the same to the destination and to the source will do. -/
theorem IsMove.file? (h : IsMove s t source destination) {p q : Path} {rest : List Component}
    (hp : p.components = source.components ++ rest)
    (hq : q.components = destination.components ++ rest) : t.file? q = s.file? p := by
  rw [MemoryStore.file?, MemoryStore.file?, hp, hq]
  exact h.arrived rest

theorem isMove_of_carried (h : s.IsCarriedAway source destination) :
    IsMove s (s.move source destination) source destination where
  arrived := getElem?_move_beneath h
  left place hsource hdestination := by
    rw [← Components.isWithin_iff_isPrefix] at hsource hdestination
    rw [getElem?_move_outside h (by simpa using hdestination), if_pos hsource]
  kept place hsource hdestination := by
    rw [← Components.isWithin_iff_isPrefix] at hsource hdestination
    rw [getElem?_move_outside h (by simpa using hdestination), if_neg hsource]

/-- Nothing is at or beneath a path. -/
theorem not_occupied_iff {p : Path} :
    ¬ s.occupied p = true ↔ ∀ rest, s.files[p.components ++ rest]? = none := by
  rw [s.occupied_iff]
  constructor
  · intro h rest
    exact Option.eq_none_iff_forall_ne_some.2 fun bytes hfile =>
      h ⟨_, bytes, hfile, Components.isWithin_iff.2 ⟨rest, rfl⟩⟩
  · rintro h ⟨place, bytes, hfile, hwithin⟩
    obtain ⟨rest, rfl⟩ := Components.isWithin_iff.1 hwithin
    rw [h rest] at hfile
    cases hfile

/-- A file beneath the source can be moved if it is not already beneath the destination. -/
theorem IsSpelled.isCarriedAway (hs : s.IsSpelled) (hsource : source.components ≠ [])
    (h : ∀ rest bytes, s.files[source.components ++ rest]? = some bytes →
      ¬ destination.components <+: source.components ++ rest) :
    s.IsCarriedAway source destination := by
  intro place bytes hfile hwithin
  obtain ⟨rest, rfl⟩ := Components.isWithin_iff.1 hwithin
  obtain ⟨p, hp⟩ := hs _ bytes hfile
  have hout := h rest bytes hfile
  rw [← Components.isWithin_iff_isPrefix] at hout
  exact ⟨rest, rfl, Components.append_of_isInner (p.isInner_of_components hp hsource),
    by simpa using hout⟩

/-- Files beneath one of two paths that are apart are not beneath the other. -/
theorem IsSpelled.isCarriedAway_of_isApart (hs : s.IsSpelled) (h : source.IsApart destination) :
    s.IsCarriedAway source destination := by
  have hsource : source.components ≠ [] := fun he => h.1 (by rw [he]; exact List.nil_prefix)
  refine hs.isCarriedAway hsource fun rest _ _ hbeneath => ?_
  rcases List.prefix_or_prefix_of_prefix hbeneath (List.prefix_append _ _) with hp | hp
  · exact h.2 hp
  · exact h.1 hp

/-- **Renaming moves a subtree, exactly.** Of two paths that are apart, a source without
files is not found and nothing is done; otherwise each place beneath the destination holds
what the same place beneath the source held, nothing is left at or beneath the source,
and no other place has changed. -/
theorem rename_moves_subtree (hs : s.IsSpelled) (h : source.IsApart destination) :
    ((∀ rest, s.files[source.components ++ rest]? = none) →
      (driver.rename source destination).outcome s = (.error (.notFound engine source), s)) ∧
    ((∃ rest bytes, s.files[source.components ++ rest]? = some bytes) →
      ∃ t, (driver.rename source destination).outcome s = (.ok (), t) ∧
        (∀ rest, t.files[destination.components ++ rest]? =
          s.files[source.components ++ rest]?) ∧
        (∀ rest, t.files[source.components ++ rest]? = none) ∧
        ∀ place, ¬ source.components <+: place → ¬ destination.components <+: place →
          t.files[place]? = s.files[place]?) := by
  have houtcome : (driver.rename source destination).outcome s = _ :=
    s.outcome_rename source destination
  constructor
  · intro hvacant
    rw [houtcome, if_neg (not_occupied_iff.2 hvacant)]
  · rintro ⟨rest, bytes, hfile⟩
    have hoccupied : s.occupied source = true :=
      s.occupied_iff.2 ⟨_, bytes, hfile, Components.isWithin_iff.2 ⟨rest, rfl⟩⟩
    have hmove := isMove_of_carried (hs.isCarriedAway_of_isApart h)
    refine ⟨s.move source destination, by rw [houtcome, if_pos hoccupied], hmove.arrived,
      fun rest => hmove.left _ (List.prefix_append _ _) fun hbeneath => ?_, hmove.kept⟩
    rcases List.prefix_or_prefix_of_prefix hbeneath (List.prefix_append _ _) with hp | hp
    · exact h.2 hp
    · exact h.1 hp

/-- Two files, one with a file beneath it, move to where there was another, all of them
spelled in different ways. -/
theorem rename_moves_subtree_respelled :
    let s := ((empty.put ⟨"/src/x/data"⟩ [1]).put ⟨"/src/./x//data/more"⟩ [2]).put ⟨"/dst/y/old"⟩ [3]
    ∃ t, (driver.rename ⟨"/src//x/"⟩ ⟨"/dst/./y"⟩).outcome s = (.ok (), t) ∧
      t.file? ⟨"/dst/y/data"⟩ = some [1] ∧ t.file? ⟨"//dst/y/data/more/."⟩ = some [2] ∧
      t.file? ⟨"/dst/y/old"⟩ = none ∧ t.file? ⟨"/src/x/data"⟩ = none := by
  intro s
  have hs : s.IsSpelled := ((isSpelled_empty.put _ _).put _ _).put _ _
  have h : Path.IsApart ⟨"/src//x/"⟩ ⟨"/dst/./y"⟩ := ⟨by decide, by decide⟩
  have hfile : ∀ p : Path, s.file? p = if (Path.mk "/dst/y/old").components = p.components then
      some [3] else if (Path.mk "/src/./x//data/more").components = p.components then some [2]
      else if (Path.mk "/src/x/data").components = p.components then some [1] else none := by
    intro p
    rw [file?_put, file?_put, file?_put]
    simp [file?, empty]
  have hdata : s.file? ⟨"/src/x/data"⟩ = some [1] := by rw [hfile]; decide
  have hmore : s.file? ⟨"/src/./x//data/more"⟩ = some [2] := by rw [hfile]; decide
  have hold : s.file? ⟨"/src/x/old"⟩ = none := by rw [hfile]; decide
  obtain ⟨t, houtcome, harrived, hleft, -⟩ :=
    (rename_moves_subtree hs (h : Path.IsApart ⟨"/src//x/"⟩ ⟨"/dst/./y"⟩)).2
      ⟨[.name "data"], [1], hdata⟩
  exact ⟨t, houtcome, (harrived [.name "data"]).trans hdata,
    (harrived [.name "data", .name "more"]).trans hmore, (harrived [.name "old"]).trans hold,
    hleft [.name "data"]⟩

end MemoryStore
end ContainerRegistry
