/-
# The same tags and the same catalog

In memory a directory is there while a file lies beneath it, and lists what comes next
on the way to each file. On a file tree it is an entry of its own, and may be left
behind empty where uploads were. Neither the tags of a repository nor the three
directories that only repositories have hold such directories, so that both drivers
list the same tags and find the same repositories.

Key definitions: `MemoryStore.HasAt`, `LocalStore.HasAt`.
Key theorems: `MemoryStore.LaidOut.browses`, `Reflects.browses`, `Reflects.hasAt_iff`,
`Repository.asks_tags`, `Registry.asks_catalog`.
-/
import ContainerRegistry.Proofs.Asking
import ContainerRegistry.Proofs.Catalog

namespace ContainerRegistry

open ContainerRegistry.Action

/-- A file lies at or beneath a place. -/
def MemoryStore.HasAt (t : MemoryStore) (q : List String) : Prop :=
  ∃ (f : Resource) (bytes : Bytes), f.isFile = true ∧
    t.file? (Layout.standard.path f) = some bytes ∧ q <+: f.place

/-- A file or a directory is at a place. -/
def LocalStore.HasAt (place : LocalStore.Place) (s : LocalStore) (q : List String) : Prop :=
  ∃ e, s.disk.entryAt? (place.beneath q) = some e

/-- In a directory that a walk comes to no file is found. -/
theorem Resource.not_isPrefix_branch {f : Resource} (hf : f.isFile = true) {dir : List String}
    (hdir : ∀ x ∈ dir, ¬ Path.IsMarked x) (rest : List String) (hrest : rest.length ≤ 1) :
    ¬ f.place <+: "repositories" :: (dir ++ rest) := by
  intro h
  cases hn : f.owner? with
  | none =>
    rw [place, hn] at h
    cases f <;> simp_all [isFile, entry, List.cons_prefix_cons]
  | some n =>
    rcases entry_isMarked hn with rfl | ⟨m, tail, he, hm⟩
    · simp [isFile] at hf
    · have hlength : 2 ≤ tail.length := by
        have hcount := congrArg List.length he
        cases f <;> simp [isFile, entry] at hf hcount <;> omega
      rw [place, hn, he] at h
      have hbelow : n.components ++ m :: tail <+: dir ++ rest := (List.cons_prefix_cons.1 h).2
      have hlong := hbelow.length_le
      simp only [List.length_append, List.length_cons] at hlong
      -- the marked name would be one of the directory's
      have hmem : n.components ++ [m] <+: dir := by
        refine List.prefix_of_prefix_length_le ?_ (List.prefix_append dir rest) ?_
        · exact (List.prefix_append _ tail).trans (by simpa using hbelow)
        · simp only [List.length_append, List.length_singleton]
          omega
      exact hdir m (hmem.subset (by simp)) hm

/-! ### The directories of a store in memory -/

namespace MemoryStore

variable {t : MemoryStore} {q : List String}

theorem HasAt.isPlain (h : t.HasAt q) : ∀ x ∈ q, Path.IsPlain x := by
  obtain ⟨f, -, -, -, hpre⟩ := h
  exact fun x hx => Resource.isPlain_of_mem_place (r := f) (hpre.subset hx)

theorem components_place (hq : ∀ x ∈ q, Path.IsName x) :
    (Path.ofNames (Layout.rootNames ++ q)).components =
      .root :: (Layout.rootNames ++ q).map .name := by
  refine Path.components_ofNames (by simp [Layout.rootNames]) fun x hx => ?_
  rcases List.mem_append.1 hx with hx | hx
  · exact (by decide : ∀ n ∈ Layout.rootNames, Path.IsName n) x hx
  · exact hq x hx

/-- The children of a directory are the next names on the way to files. -/
theorem LaidOut.mem_children_place (h : t.LaidOut Layout.standard) (hq : ∀ x ∈ q, Path.IsName x)
    {c : Component} : c ∈ t.children (Path.ofNames (Layout.rootNames ++ q)) ↔
      ∃ x, c = .name x ∧ t.HasAt (q ++ [x]) := by
  have hpath : ∀ f : Resource, (Layout.standard.path f).components =
      .root :: (Layout.rootNames ++ f.place).map .name := fun f => by
    rw [Layout.path_eq_ofNames, components_place fun x hx =>
      (Resource.isPlain_of_mem_place hx).isName]
  rw [mem_children_iff, components_place hq]
  constructor
  · rintro ⟨rest, bytes, hfile⟩
    obtain ⟨f, hf, he⟩ := h _ bytes hfile
    rw [hpath, List.cons_append, List.cons_inj_right, List.map_append, List.map_append,
      List.append_assoc, List.append_cancel_left_eq] at he
    obtain ⟨front, back, hplace, hfront, hback⟩ := List.map_eq_append_iff.1 he.symm
    obtain rfl := List.map_injective_iff.2 (fun _ _ => Component.name.inj) hfront
    obtain ⟨x, back, rfl, rfl, rfl⟩ := List.map_eq_cons_iff.1 hback
    refine ⟨x, rfl, f, bytes, hf, ?_, back, by simpa using hplace.symm⟩
    rw [← hfile, file?, hpath, hplace]
    simp
  · rintro ⟨x, rfl, f, bytes, hf, hfile, rest, hrest⟩
    refine ⟨rest.map .name, bytes, ?_⟩
    rw [← hfile, file?, hpath, ← hrest]
    simp

/-- Where no file belongs, a directory is listed in memory. -/
theorem LaidOut.listed (h : t.LaidOut Layout.standard) (hq : ∀ x ∈ q, Path.IsName x)
    (hfree : ∀ f : Resource, f.isFile = true → q ≠ f.place) : Listed driver t t.HasAt q := by
  obtain ⟨p, hp⟩ : ∃ p, p = Path.ofNames (Layout.rootNames ++ q) := ⟨_, rfl⟩
  have hmem : ∀ {c : Component}, c ∈ t.children p ↔ ∃ x, c = .name x ∧ t.HasAt (q ++ [x]) := by
    rw [hp]
    exact h.mem_children_place hq
  have hfile : t.file? p = none := by
    refine Option.eq_none_iff_forall_ne_some.2 fun bytes hbytes => ?_
    obtain ⟨f, hf, he⟩ := h _ bytes hbytes
    rw [hp, components_place hq, Layout.path_eq_ofNames, components_place fun x hx =>
      (Resource.isPlain_of_mem_place hx).isName, List.cons_inj_right] at he
    exact hfree f hf (List.append_cancel_left
      (List.map_injective_iff.2 (fun _ _ => Component.name.inj) he))
  obtain ⟨entries, hlist, hentries⟩ := t.outcome_found_list hfile
  refine ⟨entries, (t.children p).map Component.text, hp ▸ hlist, ?_, ?_, fun x => ?_⟩
  · rw [hentries, List.map_map]
    refine List.map_congr_left fun c hc => ?_
    obtain ⟨x, rfl, hx⟩ := hmem.1 hc
    rw [hp, Function.comp, ← List.append_assoc]
    refine Path.ofNames_join_name (by simp [Layout.rootNames]) (fun y hy => ?_)
      (hx.isPlain x (by simp)).isName
    rcases List.mem_append.1 hy with hy | hy
    · exact (by decide : ∀ n ∈ Layout.rootNames, Path.IsName n) y hy
    · exact hq y hy
  · refine List.Nodup.map_on (fun c hc c' hc' he => ?_) (t.nodup_children _)
    obtain ⟨x, rfl, -⟩ := hmem.1 hc
    obtain ⟨x', rfl, -⟩ := hmem.1 hc'
    exact congrArg Component.name he
  · rw [List.mem_map]
    constructor
    · rintro ⟨c, hc, rfl⟩
      obtain ⟨x, rfl, hx⟩ := hmem.1 hc
      exact hx
    · exact fun hx => ⟨.name x, hmem.2 ⟨x, rfl, hx⟩, rfl⟩

/-- The names on the way to the files of a store, from some depth on. -/
def waypoints (t : MemoryStore) (depth : Nat) : Finset (List String) :=
  ([] :: t.files.keys.flatMap fun place =>
    (List.range place.length).map fun n =>
      ((place.take (n + 1)).drop depth).map Component.text).toFinset

theorem card_waypoints_le (t : MemoryStore) (depth : Nat) :
    (t.waypoints depth).card ≤ driver.extent t := by
  refine (List.toFinset_card_le _).trans ?_
  show _ ≤ t.files.keys.foldr (fun place rest => place.length + rest) 1
  rw [List.length_cons]
  induction t.files.keys with
  | nil => simp
  | cons place keys ih =>
    simp only [List.flatMap_cons, List.length_append, List.length_map, List.length_range,
      List.foldr_cons]
    omega

theorem mem_waypoints (top : List Component) {dir : List String} (rest : List Component)
    (bytes : Bytes) (h : t.files[top ++ dir.map .name ++ rest]? = some bytes) :
    dir ∈ t.waypoints top.length := by
  rw [waypoints, List.mem_toFinset]
  rcases List.eq_nil_or_concat' dir with rfl | ⟨front, last, rfl⟩
  · exact List.mem_cons_self
  refine List.mem_cons_of_mem _ (List.mem_flatMap.2
    ⟨_, t.mem_keys_iff.2 ⟨bytes, h⟩, List.mem_map.2 ⟨top.length + front.length, ?_, ?_⟩⟩)
  · simp only [List.mem_range, List.length_append, List.length_map, List.length_singleton]
    omega
  · rw [List.take_left' (by simp; omega), List.drop_left' rfl, List.map_map]
    exact List.map_id _

/-- The names on the way to the files of a store, beneath the directory of all
repositories. -/
def branches (t : MemoryStore) : Finset (List String) :=
  ([] :: t.files.keys.flatMap fun place =>
    (List.range place.length).map fun n => ((place.take (n + 1)).drop 5).map Component.text).toFinset

theorem card_branches_le (t : MemoryStore) : t.branches.card ≤ driver.extent t :=
  t.card_waypoints_le 5

theorem mem_branches {dir : List String} (hdir : IsBranch t.HasAt dir) : dir ∈ t.branches := by
  rcases hdir.2 with rfl | ⟨f, bytes, hf, hfile, rest, hrest⟩
  · rw [branches, List.mem_toFinset]
    exact List.mem_cons_self
  refine mem_waypoints (.root :: (Layout.rootNames ++ ["repositories"]).map .name)
    (rest.map .name) bytes ?_
  rw [← hfile, file?, Layout.path_eq_ofNames, components_place fun x hx =>
    (Resource.isPlain_of_mem_place hx).isName, ← hrest]
  simp

/-- **A store that is laid out can be browsed.** -/
theorem LaidOut.browses (h : t.LaidOut Layout.standard) : Browses driver t t.HasAt where
  above := fun ⟨f, bytes, hf, hfile, hpre⟩ =>
    ⟨f, bytes, hf, hfile, (List.prefix_append _ _).trans hpre⟩
  isName := fun hhas x hx => (hhas.isPlain x hx).isName
  branch := fun {dir} hdir => by
    refine h.listed ?_ fun f hf he => Resource.not_isPrefix_branch hf hdir.1 [] (by simp)
      (by simp [← he])
    rcases hdir.2 with rfl | hhas
    · decide
    · exact fun x hx => (hhas.isPlain x hx).isName
  marker := fun hdir _ hhas => h.listed (fun x hx => (hhas.isPlain x hx).isName)
    fun f hf he => Resource.not_isPrefix_branch hf hdir [_] (by simp) (by rw [he])
  extent := ⟨t.branches, t.card_branches_le, fun _ => mem_branches⟩

end MemoryStore

/-! ### The directories of a file tree -/

/-- A place that holds no file is listed with the entries that it has, if it is there. -/
theorem LocalStore.outcome_list {place : LocalStore.Place} {s : LocalStore} {p : Path}
    {names : List String} (hroute : LocalStore.route place p = .ofNames names)
    (hsound : s.disk.Sound) (hfits : Route.Fits names) (hclear : s.disk.IsClear names)
    (hnofile : ∀ id, s.disk.entryAt? names ≠ some (.file id)) :
    (LocalStore.list place p).outcome s =
      match s.disk.entryAt? names with
      | some _ => (.ok (((s.disk.names names).filter LocalStore.isListed).map p.join), s)
      | none => (.error (LocalStore.missing p "list"), s) := by
  rw [LocalStore.list, outcome_bind, outcome_attempt, LocalStore.system, outcome_zoom, hroute,
    Disk.outcome_children hsound hfits hclear]
  cases he : s.disk.entryAt? names with
  | none => rfl
  | some e =>
    cases e with
    | file id => exact absurd he (hnofile id)
    | directory => rfl

namespace Reflects

variable {place : LocalStore.Place} {t : MemoryStore} {s : LocalStore} {q : List String}

/-- The system takes the route of what is there. -/
theorem fits_of_hasAt (h : Reflects place t s) (hu : place.IsUsable) (hhas : s.HasAt place q) :
    Route.Fits (place.beneath q) := by
  have hfits : ∀ r : Resource, q <+: r.place → Route.Fits (place.beneath q) := by
    rintro r ⟨rest, hrest⟩
    have := hu.fits r
    rw [← hrest, place.beneath_append] at this
    exact this.of_append
  obtain ⟨e, he⟩ := hhas
  cases e with
  | file id =>
    obtain ⟨f, -, hf⟩ := h.file _ id he
    exact hfits f (place.beneath_injective hf ▸ List.prefix_rfl)
  | directory =>
    rcases h.directory _ he with hroot | ⟨f, -, -, -, hpre⟩ | ⟨n, hpre⟩
    · exact absurd hroot (place.not_beneath_isPrefix_root _)
    · exact hfits f (place.beneath_isPrefix_iff.1 hpre)
    · refine hfits (.upload n default) ((place.beneath_isPrefix_iff.1 hpre).trans ?_)
      exact ⟨[(default : UploadId).text], by simp [Resource.place, Resource.owner?, Resource.entry,
        Resource.within]⟩

/-- Where no file belongs, a directory is listed on the tree. -/
theorem listed (h : Reflects place t s) (hfits : Route.Fits (place.beneath q))
    (hq : ∀ x ∈ q, Path.IsName x) (hfree : ∀ f : Resource, f.isFile = true → ¬ f.place <+: q) :
    Listed (LocalStore.driver place) s (s.HasAt place) q := by
  obtain ⟨p, hp⟩ : ∃ p, p = Path.ofNames (Layout.rootNames ++ q) := ⟨_, rfl⟩
  have hnames : ∀ x ∈ Layout.rootNames ++ q, Path.IsName x := by
    intro x hx
    rcases List.mem_append.1 hx with hx | hx
    · exact (by decide : ∀ n ∈ Layout.rootNames, Path.IsName n) x hx
    · exact hq x hx
  have hroute : LocalStore.route place p = .ofNames (place.beneath q) := by
    rw [hp, LocalStore.route_ofNames _ (by simp [Layout.rootNames]) hnames,
      LocalStore.Place.beneath]
  have hnofile : ∀ id, s.disk.entryAt? (place.beneath q) ≠ some (.file id) := by
    intro id he
    obtain ⟨f, hf, hplace⟩ := h.file _ id he
    exact hfree f hf (place.beneath_injective hplace ▸ List.prefix_rfl)
  have hclear : s.disk.IsClear (place.beneath q) := by
    intro q' hpre _ id he
    obtain ⟨f, hf, rfl⟩ := h.file _ id he
    exact hfree f hf (place.beneath_isPrefix_iff.1 hpre)
  have hlist := LocalStore.outcome_list hroute h.sound hfits hclear hnofile
  have hmem : ∀ x, x ∈ (s.disk.names (place.beneath q)).filter LocalStore.isListed ↔
      s.HasAt place (q ++ [x]) := by
    intro x
    rw [List.mem_filter, Disk.mem_names_iff, ← place.beneath_append]
    refine ⟨And.left, fun hhas => ⟨hhas, ?_⟩⟩
    obtain ⟨e, he⟩ := hhas
    simpa [LocalStore.isListed] using (h.isPlain_of_entry he x (by simp)).head_ne_dot
  have hjoin : ∀ x, s.HasAt place (q ++ [x]) →
      p.join x = Path.ofNames (Layout.rootNames ++ (q ++ [x])) := by
    rintro x ⟨e, he⟩
    rw [hp, ← List.append_assoc]
    exact Path.ofNames_join_name (by simp [Layout.rootNames]) hnames
      (h.isPlain_of_entry he x (by simp)).isName
  subst hp
  cases he : s.disk.entryAt? (place.beneath q) with
  | some e =>
    rw [he] at hlist
    exact ⟨some _, _, outcome_found_ok hlist,
      List.map_congr_left fun x hx => hjoin x ((hmem x).1 hx),
      (Disk.nodup_names _ _).filter _, hmem⟩
  | none =>
    rw [he] at hlist
    have hnone : ∀ x, ¬ s.HasAt place (q ++ [x]) := by
      rintro x ⟨e, hx⟩
      rw [place.beneath_append] at hx
      cases he.symm.trans (h.sound.parent hx)
    exact ⟨none, [], outcome_found_missing rfl hlist, rfl, .nil, fun x => by simpa using hnone x⟩

/-- **A tree that reflects a store can be browsed.** -/
theorem browses (h : Reflects place t s) (hu : place.IsUsable) :
    Browses (LocalStore.driver place) s (s.HasAt place) where
  above := fun {q x} ⟨e, he⟩ => by
    rw [place.beneath_append] at he
    exact ⟨.directory, h.sound.parent he⟩
  isName := fun ⟨e, he⟩ x hx => (h.isPlain_of_entry he x hx).isName
  branch := fun {dir} hdir => by
    have hfree : ∀ f : Resource, f.isFile = true → ¬ f.place <+: "repositories" :: dir :=
      fun f hf hpre => Resource.not_isPrefix_branch hf hdir.1 [] (by simp) (by simpa using hpre)
    rcases hdir.2 with rfl | hhas
    · exact h.listed (hu.fits .repositories) (by decide) hfree
    · obtain ⟨e, he⟩ := hhas
      exact h.listed (h.fits_of_hasAt hu ⟨e, he⟩) (fun x hx => (h.isPlain_of_entry he x hx).isName)
        hfree
  marker := fun hdir _ ⟨e, he⟩ => h.listed (h.fits_of_hasAt hu ⟨e, he⟩)
    (fun x hx => (h.isPlain_of_entry he x hx).isName)
    fun f hf hpre => Resource.not_isPrefix_branch hf hdir [_] (by simp) hpre
  extent := by
    obtain ⟨dirs, hdirs⟩ : ∃ dirs, dirs = ([] :: s.disk.entries.keys.map
      fun q => q.drop (place.beneath ["repositories"]).length) := ⟨_, rfl⟩
    refine ⟨dirs.toFinset, (List.toFinset_card_le _).trans ?_, fun dir hdir => ?_⟩
    · rw [hdirs, List.length_cons, List.length_map, Std.TreeMap.length_keys]
      exact Nat.le_refl _
    · rw [List.mem_toFinset, hdirs]
      rcases hdir.2 with rfl | ⟨e, he⟩
      · exact List.mem_cons_self
      · have hne : place.beneath ("repositories" :: dir) ≠ [] := by
          simp [LocalStore.Place.beneath, Layout.rootNames]
        rw [Disk.entryAt?, if_neg hne] at he
        refine List.mem_cons_of_mem _ (List.mem_map.2 ⟨place.beneath ("repositories" :: dir),
          Std.TreeMap.mem_keys.2 (Std.TreeMap.mem_iff_isSome_getElem?.2 (by simp [he])), ?_⟩)
        have hbeneath : place.beneath ("repositories" :: dir) =
            place.beneath ["repositories"] ++ dir := place.beneath_append ["repositories"] dir
        rw [hbeneath, List.drop_left]

/-- **The tree and the store have the same in the same places**, besides directories that
uploads leave behind. -/
theorem hasAt_iff (h : Reflects place t s)
    (hq : ∀ n, ¬ q <+: Resource.within n ["_uploads"]) : s.HasAt place q ↔ t.HasAt q := by
  constructor
  · rintro ⟨e, he⟩
    cases e with
    | file id =>
      obtain ⟨f, hf, hplace⟩ := h.file _ id he
      obtain rfl := place.beneath_injective hplace
      exact ⟨f, _, hf, h.file?_of_entry hf he, List.prefix_rfl⟩
    | directory =>
      rcases h.directory _ he with hroot | ⟨f, bytes, hf, hfile, hpre⟩ | ⟨n, hpre⟩
      · exact absurd hroot (place.not_beneath_isPrefix_root _)
      · exact ⟨f, bytes, hf, hfile, place.beneath_isPrefix_iff.1 hpre⟩
      · exact absurd (place.beneath_isPrefix_iff.1 hpre) (hq n)
  · rintro ⟨f, bytes, hf, hfile, rest, hrest⟩
    obtain ⟨id, he, -⟩ := h.entryAt?_of_some hf hfile
    rw [← hrest, place.beneath_append] at he
    cases rest with
    | nil => exact ⟨_, by simpa using he⟩
    | cons x rest => exact ⟨.directory, h.sound.directory (by simp) he⟩

/-- What lies in a directory that only repositories have is there in both. -/
theorem hasAt_within_iff (h : Reflects place t s) (n : RepositoryName) {m : String}
    (hm : Path.IsMarked m) (x : String) (rest : List String) :
    s.HasAt place (Resource.within n (m :: x :: rest)) ↔
      t.HasAt (Resource.within n (m :: x :: rest)) := by
  refine h.hasAt_iff fun n' hpre => ?_
  have := (Resource.within_isPrefix hm (by decide) hpre).2.length_le
  simp at this

end Reflects

/-! ### Tags and the catalog -/

section Registries

variable {place : LocalStore.Place} {t : MemoryStore} {s : LocalStore}

/-- **Both registries have the same tags.** -/
theorem Repository.asks_tags (h : Reflects place t s) (hu : place.IsUsable) (n : RepositoryName) :
    Asks (tags ⟨Layout.standard.inMemory, n⟩) t (tags ⟨place.registry, n⟩) s := by
  have hnames : ∀ x ∈ (Resource.tags n).place, Path.IsName x := fun x hx =>
    (Resource.isPlain_of_mem_place hx).isName
  have hfree : ∀ f : Resource, f.isFile = true → ¬ f.place <+: (Resource.tags n).place := by
    intro f hf hpre
    obtain rfl := Resource.eq_of_place_isPrefix hf hpre
    cases hf
  obtain ⟨texts, hmemory, hincreasing, hmem⟩ := outcome_tags_of_listed
    (h.tidy.laidOut.listed hnames fun f hf he => hfree f hf (he ▸ List.prefix_rfl))
    fun x hx => (hx.isPlain x (by simp)).isName
  obtain ⟨texts', hlocal, hincreasing', hmem'⟩ := outcome_tags_of_listed
    (h.listed (hu.fits (.tags n)) hnames hfree)
    fun x ⟨e, he⟩ => (h.isPlain_of_entry he x (by simp)).isName
  have htexts : texts = texts' := by
    refine eq_of_increasing hincreasing hincreasing' fun x => ?_
    rw [hmem, hmem']
    have hplace : (Resource.tags n).place ++ [x] =
        Resource.within n ["_manifests", "tags", x] := by
      simp [Resource.place, Resource.owner?, Resource.entry, Resource.within]
    rw [hplace]
    exact (h.hasAt_within_iff n (by decide) "tags" [x]).symm
  exact ⟨.ok texts, hmemory, htexts ▸ hlocal⟩

/-- **Both registries have the same catalog.** -/
theorem Registry.asks_catalog (h : Reflects place t s) (hu : place.IsUsable) :
    Asks (Registry.catalog Layout.standard.inMemory) t (Registry.catalog place.registry) s := by
  obtain ⟨names, hmemory, hincreasing, hmem⟩ := h.tidy.laidOut.browses.outcome_catalog
  obtain ⟨names', hlocal, hincreasing', hmem'⟩ := (h.browses hu).outcome_catalog
  have hfilled : ∀ n : RepositoryName,
      IsFilled t.HasAt n.components ↔ IsFilled (s.HasAt place) n.components := by
    intro n
    refine exists_congr fun m => and_congr_right fun hm => exists_congr fun x => ?_
    have hmarked : Path.IsMarked m := (by decide : ∀ m ∈ Catalog.markers, Path.IsMarked m) m hm
    exact (h.hasAt_within_iff n hmarked x []).symm
  have hnames : names = names' := by
    have htext : names.map RepositoryName.text = names'.map RepositoryName.text := by
      refine eq_of_increasing hincreasing hincreasing' fun text => ?_
      simp only [List.mem_map, hmem, hmem', hfilled]
    exact List.map_injective_iff.2 (fun _ _ => RepositoryName.ext) htext
  exact ⟨.ok names, hmemory, hnames ▸ hlocal⟩

end Registries
end ContainerRegistry
