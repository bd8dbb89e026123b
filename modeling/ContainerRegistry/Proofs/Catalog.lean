/-
# What a walk over the repositories finds

A driver lists a directory by the names of what is in it, in an order of its own. A
walk from the directory of all repositories visits those in it that may hold
repositories, and what it finds are the repositories that have an entry in one of the
three directories that only repositories have, each once; sorted by name they are the
same for all drivers with the same entries there.

Key definitions: `Listed`, `Browses`, `IsFilled`.
Key theorems: `Repository.outcome_tags_of_listed`, `Browses.outcome_visit`,
`Browses.finds`, `Browses.outcome_catalog`.
-/
import ContainerRegistry.Proofs.Listing
import ContainerRegistry.Proofs.Place
import ContainerRegistry.Proofs.Walk

namespace ContainerRegistry

open ContainerRegistry.Action

section Drivers

variable {σ ρ : Type} {d : Driver σ ρ} {s : σ} {has : List String → Prop}

/-- The directory at a place beneath the default root is listed by the names of what
is in it. -/
def Listed (d : Driver σ ρ) (s : σ) (has : List String → Prop) (place : List String) : Prop :=
  ∃ (entries : Option (List Path)) (names : List String),
    (found (d.list (Path.ofNames (Layout.rootNames ++ place)))).outcome s = (.ok entries, s) ∧
      entries.getD [] = names.map (fun x => Path.ofNames (Layout.rootNames ++ (place ++ [x]))) ∧
      names.Nodup ∧ ∀ x, x ∈ names ↔ has (place ++ [x])

/-- **The tags of a repository are the names in the directory of its tags**, in
increasing order. -/
theorem Repository.outcome_tags_of_listed {n : RepositoryName}
    (h : Listed d s has (Resource.tags n).place)
    (hnames : ∀ x, has ((Resource.tags n).place ++ [x]) → Path.IsName x) :
    ∃ texts, (Repository.tags ⟨⟨d, Layout.standard⟩, n⟩).outcome s = (.ok texts, s) ∧
      texts.Pairwise (· < ·) ∧ ∀ x, x ∈ texts ↔ has ((Resource.tags n).place ++ [x]) := by
  obtain ⟨entries, names, hlist, hentries, hnodup, hmem⟩ := h
  have htexts : (entries.getD []).filterMap Path.fileName? = names := by
    rw [hentries, List.filterMap_map]
    refine (List.filterMap_congr fun x hx => ?_).trans List.filterMap_some
    rw [Function.comp, ← List.append_assoc, Path.fileName?_ofNames]
    intro y hy
    rcases List.mem_append.1 hy with hy | hy
    · exact Layout.isName_of_mem_names y hy
    · rw [List.mem_singleton.1 hy]
      exact hnames x ((hmem x).1 hx)
  refine ⟨names.mergeSort fun a b => a ≤ b, ?_, increasing_mergeSort hnodup, fun x => ?_⟩
  · rw [← Layout.path_eq_ofNames] at hlist
    have hfound : (found (d.list (Registry.path ⟨d, Layout.standard⟩ (.tags n)))).outcome s =
        (.ok entries, s) := hlist
    rw [tags, outcome_bind, hfound]
    simp only [outcome_pure, htexts]
  · rw [(List.mergeSort_perm _ _).mem_iff, hmem]

/-! ### Directories that may hold repositories -/

/-- A directory beneath that of all repositories. -/
def Catalog.path (dir : List String) : Path :=
  Path.ofNames (Layout.rootNames ++ "repositories" :: dir)

/-- A directory that a walk comes to. -/
def IsBranch (has : List String → Prop) (dir : List String) : Prop :=
  (∀ x ∈ dir, ¬ Path.IsMarked x) ∧ (dir = [] ∨ has ("repositories" :: dir))

/-- A directory in which one of those that only repositories have is not empty. -/
def IsFilled (has : List String → Prop) (dir : List String) : Prop :=
  ∃ m ∈ Catalog.markers, ∃ x, has ("repositories" :: (dir ++ [m, x]))

/-- What is known of a driver that can be walked: it lists what there is, and states how
many directories there can be. -/
structure Browses (d : Driver σ ρ) (s : σ) (has : List String → Prop) : Prop where
  above : ∀ {place x}, has (place ++ [x]) → has place
  isName : ∀ {place}, has place → ∀ x ∈ place, Path.IsName x
  branch : ∀ {dir}, IsBranch has dir → Listed d s has ("repositories" :: dir)
  marker : ∀ {dir m}, (∀ x ∈ dir, ¬ Path.IsMarked x) → m ∈ Catalog.markers →
    has ("repositories" :: (dir ++ [m])) → Listed d s has ("repositories" :: (dir ++ [m]))
  extent : ∃ dirs : Finset (List String), dirs.card ≤ d.extent s ∧
    ∀ dir, IsBranch has dir → dir ∈ dirs

namespace Catalog

variable {dir : List String} {x : String}

theorem isName_of_mem (h : ∀ x ∈ dir, Path.IsName x) :
    ∀ x ∈ Layout.rootNames ++ "repositories" :: dir, Path.IsName x := by
  intro x hx
  rcases List.mem_append.1 hx with hx | hx
  · exact (by decide : ∀ n ∈ Layout.rootNames, Path.IsName n) x hx
  · rcases List.mem_cons.1 hx with rfl | hx
    · decide
    · exact h x hx

theorem fileName?_path (h : ∀ y ∈ dir ++ [x], Path.IsName y) :
    (path (dir ++ [x])).fileName? = some x := by
  have hpath : path (dir ++ [x]) =
      Path.ofNames ((Layout.rootNames ++ "repositories" :: dir) ++ [x]) := by
    simp [path]
  rw [hpath, Path.fileName?_ofNames]
  simpa using isName_of_mem h

/-- A directory beneath the root is the repository of its name, if it has one. -/
theorem nameAt?_of_components {root p : Path} (hp : p.components = root.components ++ dir.map .name)
    (h : ∀ x ∈ dir, Path.IsName x) {n : RepositoryName} :
    nameAt? root p = some n ↔ n.components = dir := by
  have hstrip : Components.strip? root.components p.components = some (dir.map .name) :=
    Components.strip?_eq_some_iff.2 hp
  have htext : Components.relativeText (dir.map .name) = "/".intercalate dir := by
    rw [Components.relativeText, List.map_map]
    exact congrArg _ (List.map_id dir)
  have hname : nameAt? root p =
      (RepositoryName.parse ("/".intercalate dir)).toOption := by
    rw [nameAt?, hstrip, ← htext]
    rfl
  rw [hname]
  constructor
  · intro hparse
    have hne : dir ≠ [] := by
      rintro rfl
      cases hparse
    have hok : RepositoryName.parse ("/".intercalate dir) = .ok n := by
      cases hp : RepositoryName.parse ("/".intercalate dir) with
      | error e => rw [hp] at hparse; cases hparse
      | ok m => rw [hp] at hparse; cases hparse; rfl
    rw [RepositoryName.components, RepositoryName.parts, RepositoryName.text_of_parse hok,
      String.toList_intercalate]
    have hsplit := Path.splitOn_names hne h
    rw [show ("/" : String).toList = ['/'] from rfl, hsplit, List.map_map]
    simp
  · rintro rfl
    have : "/".intercalate n.components = n.text := by
      rw [← String.toList_inj, String.toList_intercalate, n.toList_text]
      rfl
    rw [this, n.parse_text]
    rfl

theorem nameAt?_eq_some_iff (h : ∀ x ∈ dir, Path.IsName x) {n : RepositoryName} :
    nameAt? (path []) (path dir) = some n ↔ n.components = dir := by
  refine nameAt?_of_components ?_ h
  rw [path, path, Path.components_ofNames (by simp) (isName_of_mem h),
    Path.components_ofNames (by simp) (isName_of_mem (by simp))]
  simp

end Catalog

/-! ### The walk -/

namespace Browses

variable {dir : List String}

theorem isName_branch (h : Browses d s has) (hdir : IsBranch has dir) :
    ∀ x ∈ dir, Path.IsName x := by
  rcases hdir.2 with rfl | hhas
  · simp
  · exact fun x hx => h.isName hhas x (List.mem_cons_of_mem _ hx)

/-- What is in a directory that is filled is in the directory. -/
theorem has_marker (h : Browses d s has) {m x : String}
    (hhas : has ("repositories" :: (dir ++ [m, x]))) : has ("repositories" :: (dir ++ [m])) := by
  have hentry : has (("repositories" :: (dir ++ [m])) ++ [x]) := by simpa using hhas
  exact h.above hentry

theorem outcome_anyFilled (h : Browses d s has) (hdir : ∀ x ∈ dir, ¬ Path.IsMarked x) :
    ∀ ms : List String, (∀ m ∈ ms, m ∈ Catalog.markers ∧ has ("repositories" :: (dir ++ [m]))) →
      ∃ b, (Registry.anyFilled ⟨d, Layout.standard⟩
          (ms.map fun m => Catalog.path (dir ++ [m]))).outcome s = (.ok b, s) ∧
        (b = true ↔ ∃ m ∈ ms, ∃ x, has ("repositories" :: (dir ++ [m, x])))
  | [], _ => ⟨false, rfl, by simp⟩
  | m :: ms, hms => by
    obtain ⟨hm, hhas⟩ := hms m List.mem_cons_self
    obtain ⟨entries, names, hlist, hentries, -, hmem⟩ := h.marker hdir hm hhas
    obtain ⟨b, hrest, hb⟩ :=
      outcome_anyFilled h hdir ms fun m hm => hms m (List.mem_cons_of_mem _ hm)
    have hmem' : ∀ x, x ∈ names ↔ has ("repositories" :: (dir ++ [m, x])) := fun x => by
      rw [hmem]
      simp
    have hlist' : (found (d.list (Catalog.path (dir ++ [m])))).outcome s = (.ok entries, s) := hlist
    rw [List.map_cons, Registry.anyFilled, outcome_bind, hlist']
    cases names with
    | nil =>
      refine ⟨b, ?_, ?_⟩
      · rcases entries with _ | _ | ⟨e, entries⟩
        · exact hrest
        · exact hrest
        · simp at hentries
      · rw [hb]
        simp [← hmem']
    | cons x names =>
      refine ⟨true, ?_, ?_⟩
      · rcases entries with _ | _ | ⟨e, entries⟩
        · simp at hentries
        · simp at hentries
        · rfl
      · simpa using Or.inl ⟨x, (hmem' x).1 List.mem_cons_self⟩

/-- A visit of a directory leads to those in it, and finds the repository that it is. -/
theorem outcome_visit (h : Browses d s has) (hdir : IsBranch has dir) :
    ∃ (below : List String) (own : Option RepositoryName),
      (Registry.visit ⟨d, Layout.standard⟩ (Catalog.path dir)).outcome s =
        (.ok (below.map fun x => Catalog.path (dir ++ [x]), own), s) ∧
      below.Nodup ∧
      (∀ x, x ∈ below ↔ ¬ Path.IsMarked x ∧ has ("repositories" :: (dir ++ [x]))) ∧
      ∀ n, n ∈ own ↔ n.components = dir ∧ IsFilled has dir := by
  obtain ⟨entries, names, hlist, hentries, hnodup, hmem⟩ := h.branch hdir
  have hfound : (found (d.list (Catalog.path dir))).outcome s = (.ok entries, s) := hlist
  have hmem' : ∀ x, x ∈ names ↔ has ("repositories" :: (dir ++ [x])) := hmem
  cases entries with
  | none =>
    obtain rfl : names = [] := by simpa using hentries
    refine ⟨[], none, ?_, .nil, by simpa using fun x _ => (hmem' x).2, ?_⟩
    · rw [Registry.visit, outcome_bind, hfound]
      rfl
    · rintro n
      simp only [Option.not_mem_none, false_iff, not_and]
      rintro - ⟨m, -, x, hx⟩
      exact absurd ((hmem' m).2 (h.has_marker hx)) (by simp)
  | some children =>
    have hchildren : children = names.map fun x => Catalog.path (dir ++ [x]) := hentries
    have hname : ∀ x ∈ names, (Catalog.path (dir ++ [x])).fileName? = some x := fun x hx =>
      Catalog.fileName?_path fun y hy =>
        h.isName ((hmem' x).1 hx) y (List.mem_cons_of_mem _ hy)
    have hbranches : children.filter Catalog.isBranch =
        (names.filter fun x => x.toList.head? != some '_').map
          fun x => Catalog.path (dir ++ [x]) := by
      rw [hchildren, List.filter_map]
      refine congrArg _ (List.filter_congr fun x hx => ?_)
      rw [Function.comp, Catalog.isBranch, hname x hx]
    have hmarkers : children.filter Catalog.isMarker =
        (names.filter fun x => Catalog.markers.contains x).map
          fun x => Catalog.path (dir ++ [x]) := by
      rw [hchildren, List.filter_map]
      refine congrArg _ (List.filter_congr fun x hx => ?_)
      rw [Function.comp, Catalog.isMarker, hname x hx]
    obtain ⟨b, hany, hb⟩ := h.outcome_anyFilled hdir.1
      (names.filter fun x => Catalog.markers.contains x) fun m hm => by
        rw [List.mem_filter] at hm
        exact ⟨by simpa using hm.2, (hmem' m).1 hm.1⟩
    have hfilled : b = true ↔ IsFilled has dir := by
      rw [hb]
      constructor
      · rintro ⟨m, hm, x, hx⟩
        rw [List.mem_filter] at hm
        exact ⟨m, by simpa using hm.2, x, hx⟩
      · rintro ⟨m, hm, x, hx⟩
        exact ⟨m, List.mem_filter.2 ⟨(hmem' m).2 (h.has_marker hx), by simpa using hm⟩, x, hx⟩
    refine ⟨(names.filter fun x => x.toList.head? != some '_').reverse,
      if b then Catalog.nameAt? (Catalog.path []) (Catalog.path dir) else none, ?_,
      List.nodup_reverse.2 (hnodup.filter _), fun x => ?_, fun n => ?_⟩
    · rw [Registry.visit, outcome_bind, hfound]
      simp only [outcome_bind, hbranches, hmarkers, hany, List.map_reverse]
      rw [show Registry.path ⟨d, Layout.standard⟩ .repositories = Catalog.path [] from
        Layout.repositories_eq_ofNames]
      rfl
    · rw [List.mem_reverse, List.mem_filter, hmem', and_comm]
      simp [Path.IsMarked]
    · rw [Option.mem_def, ← hfilled]
      cases b with
      | true => simpa using Catalog.nameAt?_eq_some_iff (h.isName_branch hdir)
      | false => simp

/-- What is above something is there. -/
theorem has_of_isPrefix (h : Browses d s has) {place rest : List String}
    (hhas : has (place ++ rest)) : has place := by
  induction rest using List.reverseRecOn with
  | nil => simpa using hhas
  | append_singleton rest x ih => exact ih (h.above (by simpa using hhas))

/-- A filled directory beneath another is that one or lies beneath one in it. -/
theorem eq_or_isPrefix (h : Browses d s has) {n : RepositoryName}
    (hfilled : IsFilled has n.components) {dir : List String} (hpre : dir <+: n.components) :
    n.components = dir ∨
      ∃ x, (¬ Path.IsMarked x ∧ has ("repositories" :: (dir ++ [x]))) ∧
        dir ++ [x] <+: n.components := by
  obtain ⟨rest, hrest⟩ := hpre
  cases rest with
  | nil => exact Or.inl (by simpa using hrest.symm)
  | cons x rest =>
    obtain ⟨m, -, y, hhas⟩ := hfilled
    have hx : x ∈ n.components := by simp [← hrest]
    have hentry : has (("repositories" :: (dir ++ [x])) ++ (rest ++ [m, y])) := by
      simpa [← hrest] using hhas
    refine Or.inr ⟨x, ⟨RepositoryName.not_isMarked_of_mem_components hx, ?_⟩, rest, ?_⟩
    · exact h.has_of_isPrefix hentry
    · simpa using hrest

end Browses

namespace Browses

/-- A walk finds the repositories that are filled. -/
theorem finds (h : Browses d s has) : Finds ⟨d, Layout.standard⟩ s Catalog.path (IsBranch has)
    fun n => IsFilled has n.components := by
  intro dir hdir
  obtain ⟨below, own, hvisit, hbelow, hmem, hown⟩ := h.outcome_visit hdir
  refine ⟨below, own, hvisit, hbelow, fun x hx => ?_, fun n => ?_, fun n hfilled hpre => ?_⟩
  · obtain ⟨hunmarked, hhas⟩ := (hmem x).1 hx
    refine ⟨fun y hy => ?_, Or.inr hhas⟩
    rcases List.mem_append.1 hy with hy | hy
    · exact hdir.1 y hy
    · rwa [List.mem_singleton.1 hy]
  · rw [hown]
    refine and_congr_right fun he => ?_
    rw [← he]
  · rcases h.eq_or_isPrefix hfilled hpre with he | ⟨x, hx, hpre'⟩
    · exact Or.inl he
    · exact Or.inr ⟨x, (hmem x).2 hx, hpre'⟩

/-- **The catalog holds the repositories that are filled**, each once, in increasing order. -/
theorem outcome_catalog (h : Browses d s has) :
    ∃ names, (Registry.catalog ⟨d, Layout.standard⟩).outcome s = (.ok names, s) ∧
      (names.map RepositoryName.text).Pairwise (· < ·) ∧
      ∀ n, n ∈ names ↔ IsFilled has n.components := by
  obtain ⟨dirs, hcard, hdirs⟩ := h.extent
  have hroot : ∀ dir ∈ [[]], IsBranch has dir := by simp [IsBranch]
  obtain ⟨x, hwalks, hwalk⟩ := h.finds.explores.walks hdirs (d.extent s) [[]] [] hroot
    (List.pairwise_singleton _ _) ((Finset.card_le_card (Finset.filter_subset _ _)).trans hcard)
  obtain ⟨found, rfl, hnodup, hmem⟩ := hwalks.exact h.finds [[]] rfl hroot
    (List.pairwise_singleton _ _) .nil (by simp)
  have hwalk' : (Registry.walk ⟨d, Layout.standard⟩ (d.extent s)
      [Registry.path ⟨d, Layout.standard⟩ .repositories] []).outcome s = (.ok found, s) := by
    rw [show Registry.path ⟨d, Layout.standard⟩ .repositories = Catalog.path [] from
      Layout.repositories_eq_ofNames]
    exact hwalk
  refine ⟨found.mergeSort fun a b => a.text ≤ b.text, ?_, ?_, fun n => ?_⟩
  · rw [Registry.catalog, outcome_bind, outcome_get]
    simp only [outcome_bind, hwalk', outcome_pure]
  · have hsort : (found.mergeSort fun a b => a.text ≤ b.text).map RepositoryName.text =
        (found.map RepositoryName.text).mergeSort fun a b => a ≤ b :=
      List.map_mergeSort fun _ _ _ _ => rfl
    rw [hsort]
    exact increasing_mergeSort (hnodup.map fun _ _ => RepositoryName.ext)
  · rw [(List.mergeSort_perm _ _).mem_iff, hmem]
    simp

end Browses

end Drivers
end ContainerRegistry
