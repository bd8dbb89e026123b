/-
# The catalog lists the repositories that there are

Over the driver in memory the walk for the catalog always ends, whatever files the
store holds: the directories that it visits are on the way to files, and of these there
are fewer than the driver says (`MemoryStore.IsSpelled.catalog_ends`). In a store that is
laid out no file is in a directory's place, so that no visit fails, and the walk finds
exactly the repositories that have a file of their own, be it a link or a part of an
upload (`MemoryStore.LaidOut.outcome_catalog`). On storage that does not fail these are
the repositories in which a layer was finished or mounted, a manifest was put in, or an
upload is open (`Chronicle.hasFiles_iff`): a repository beneath another is listed for what is its
own, and one of which all uploads were cancelled is not listed.

Key definitions: `Layout.branch`, `MemoryStore.names`, `MemoryStore.IsWalked`,
`MemoryStore.HasFiles`, `Chronicle.IsUsed`.
Key theorems: `MemoryStore.outcome_visit`, `MemoryStore.IsSpelled.explores`,
`MemoryStore.IsSpelled.catalog_ends`, `MemoryStore.LaidOut.finds`,
`MemoryStore.LaidOut.outcome_catalog`, `Chronicle.hasFiles_iff`, `Registry.catalog_exact`.
-/
import ContainerRegistry.Proofs.Browsing
import ContainerRegistry.Proofs.Lifecycle
import ContainerRegistry.Proofs.Subtree
import ContainerRegistry.Proofs.TagMap

namespace ContainerRegistry

open ContainerRegistry.Action

/-! ### Texts in the order of their bytes -/

/-- A repository name is spelled in characters of one byte. -/
theorem RepositoryName.toNat_lt_of_mem_text (n : RepositoryName) :
    ∀ c ∈ n.text.toList, c.toNat < 128 := by
  intro c hc
  rcases Path.eq_or_mem_splitOn '/' hc with rfl | ⟨part, hpart, hmem⟩
  · decide
  · have hcomponent : String.ofList part ∈ n.components := List.mem_map_of_mem hpart
    have hnext := (isPlain_of_mem_components hcomponent).isNext c (by rwa [String.toList_ofList])
    simp only [Tag.isNext, Tag.isFirst, Bool.or_eq_true, Bool.and_eq_true, decide_eq_true_eq,
      beq_iff_eq, Char.le_def, UInt32.le_iff_toNat_le] at hnext
    have hval : c.val.toNat = c.toNat := rfl
    rcases hnext with ((((⟨-, h⟩ | ⟨-, h⟩) | ⟨-, h⟩) | rfl) | rfl) | rfl
    · exact Nat.lt_of_le_of_lt h (by decide)
    · exact Nat.lt_of_le_of_lt h (by decide)
    · exact Nat.lt_of_le_of_lt h (by decide)
    · decide
    · decide
    · decide

/-- Repository names are ordered as their bytes are. -/
theorem RepositoryName.ofText_lt {m n : RepositoryName} (h : m.text < n.text) :
    Bytes.ofText m.text < Bytes.ofText n.text :=
  Bytes.ofText_lt m.toNat_lt_of_mem_text n.toNat_lt_of_mem_text h

/-! ### Directories beneath that of all repositories -/

namespace Layout

variable (l : Layout) {dir : List String}

/-- The directory that these names lead to. -/
def branch (dir : List String) : Path :=
  dir.foldl Path.join l.repositories

theorem branch_concat (dir : List String) (x : String) :
    l.branch (dir ++ [x]) = (l.branch dir).join x := by
  rw [branch, List.foldl_append]
  rfl

theorem components_branch (h : ∀ x ∈ dir, Path.IsName x) :
    (l.branch dir).components = l.root.components ++ ("repositories" :: dir).map .name := by
  induction dir using List.reverseRecOn with
  | nil => exact l.components_repositories
  | append_singleton dir x ih =>
    have hdir := ih fun y hy => h y (List.mem_append_left _ hy)
    rw [branch_concat, Path.components_join _ [x] (by simp) (by simpa using h x (by simp))
      (by simp [List.intercalate]), hdir]
    simp

theorem components_branch_ne_nil (h : ∀ x ∈ dir, Path.IsName x) :
    (l.branch dir).components ≠ [] := by
  rw [l.components_branch h]
  simp

theorem nameAt?_branch_eq_some_iff (h : ∀ x ∈ dir, Path.IsName x) {n : RepositoryName} :
    Catalog.nameAt? l.repositories (l.branch dir) = some n ↔ n.components = dir := by
  refine Catalog.nameAt?_of_components ?_ h
  rw [l.components_branch h, l.components_repositories]
  simp

end Layout

/-! ### Visiting a directory in memory -/

namespace MemoryStore

variable {t : MemoryStore} {l : Layout} {p : Path} {dir : List String}

/-- The names of the entries of a directory. -/
def names (t : MemoryStore) (p : Path) : List String :=
  (t.children p).filterMap Component.name?

theorem mem_names_iff {x : String} : x ∈ t.names p ↔
    ∃ rest bytes, t.files[p.components ++ .name x :: rest]? = some bytes := by
  rw [names, List.mem_filterMap, ← mem_children_iff]
  constructor
  · rintro ⟨c, hc, hname⟩
    cases c with
    | name text =>
      obtain rfl : text = x := Option.some.inj hname
      exact hc
    | root | here | up => cases hname
  · exact fun hx => ⟨.name x, hx, rfl⟩

theorem nodup_names (t : MemoryStore) (p : Path) : (t.names p).Nodup := by
  refine List.Nodup.filterMap (fun c c' x hc hc' => ?_) (t.nodup_children p)
  cases c with
  | name text =>
    cases c' with
    | name text' =>
      rw [Option.mem_def, Component.name?, Option.some.injEq] at hc hc'
      rw [hc, hc']
    | root | here | up => cases hc'
  | root | here | up => cases hc

theorem IsSpelled.isInner_of_mem_children (h : t.IsSpelled) (hp : p.components ≠ []) :
    ∀ c ∈ t.children p, c.IsInner := by
  intro c hc
  obtain ⟨rest, bytes, hfile⟩ := t.mem_children_iff.1 hc
  obtain ⟨q, hq⟩ := h _ bytes hfile
  exact q.isInner_of_components hq hp c List.mem_cons_self

/-- Entries are told apart by their names, and steps up go by none. -/
theorem filter_entries (p : Path) {children : List Component} (h : ∀ c ∈ children, c.IsInner)
    {g : Path → Bool} {f : String → Bool} (hg : ∀ q, g q = q.fileName?.any f) :
    (children.map fun c => p.join c.text).filter g =
      ((children.filterMap Component.name?).filter f).map p.join := by
  induction children with
  | nil => rfl
  | cons c children ih =>
    have hc := h c List.mem_cons_self
    have hentry : g (p.join c.text) = c.name?.any f := by rw [hg, p.fileName?_join_inner hc]
    rw [List.map_cons, List.filter_cons, ih fun d hd => h d (List.mem_cons_of_mem _ hd), hentry]
    cases c with
    | name text =>
      have hnames : (Component.name text :: children).filterMap Component.name? =
          text :: children.filterMap Component.name? := List.filterMap_cons_some rfl
      rw [hnames, List.filter_cons]
      show (if f text = true then _ else _) = _
      split <;> rfl
    | up => rfl
    | root | here => exact hc.elim

/-- The entries of a directory that may hold repositories, the last one first. -/
def below (t : MemoryStore) (p : Path) : List String :=
  ((t.names p).filter fun x => x.toList.head? != some '_').reverse

/-- The directories in a directory that only repositories have. -/
def markers (t : MemoryStore) (p : Path) : List Path :=
  ((t.names p).filter Catalog.markers.contains).map p.join

theorem mem_below_iff {x : String} : x ∈ t.below p ↔ x ∈ t.names p ∧ ¬ Path.IsMarked x := by
  rw [below, List.mem_reverse, List.mem_filter]
  simp [Path.IsMarked]

theorem nodup_below (t : MemoryStore) (p : Path) : (t.below p).Nodup :=
  List.nodup_reverse.2 ((t.nodup_names p).filter _)

/-- A visit of a directory, in a store of any files. -/
theorem outcome_visit (h : t.IsSpelled) (hp : p.components ≠ []) (hfile : t.file? p = none) :
    (l.inMemory.visit p).outcome t =
      (((l.inMemory.anyFilled (t.markers p)).outcome t).1.map fun filled =>
        ((t.below p).map p.join,
          if filled then Catalog.nameAt? l.repositories p else none), t) := by
  have hinner := h.isInner_of_mem_children hp
  have hbranches := filter_entries p hinner (g := Catalog.isBranch)
    (f := fun x => x.toList.head? != some '_') fun q => by
      rw [Catalog.isBranch]
      cases q.fileName? <;> rfl
  have hmarkers := filter_entries p hinner (g := Catalog.isMarker)
    (f := Catalog.markers.contains) fun q => by
      rw [Catalog.isMarker]
      cases q.fileName? <;> rfl
  rw [← names] at hbranches hmarkers
  rw [← markers] at hmarkers
  obtain ⟨entries, hlist, hentries⟩ := t.outcome_found_list hfile
  have hfound : (found (l.inMemory.storage.list p)).outcome t = (.ok entries, t) := hlist
  rw [Registry.visit, outcome_bind, hfound]
  cases entries with
  | none =>
    have hnames : t.names p = [] := by
      have hchildren : t.children p = [] := List.map_eq_nil_iff.1 hentries.symm
      rw [names, hchildren]
      rfl
    rw [markers, below, hnames]
    rfl
  | some children =>
    obtain rfl : children = _ := hentries
    have hstate := (Registry.reads_anyFilled (d := reliable) (l := l) (t.markers p)).outcome_snd t
    simp only [outcome_bind, hbranches, hmarkers]
    rcases hany : (l.inMemory.anyFilled (t.markers p)).outcome t with ⟨e | filled, t'⟩
    · obtain rfl : t' = t := (congrArg Prod.snd hany).symm.trans hstate
      rfl
    · obtain rfl : t' = t := (congrArg Prod.snd hany).symm.trans hstate
      simp only [outcome_pure, below, List.map_reverse]
      rfl

/-! ### The walk ends -/

/-- A directory that the walk comes to: its names are those of entries that may hold
repositories, and it is the first one or there is a file at or beneath it. -/
def IsWalked (l : Layout) (t : MemoryStore) (dir : List String) : Prop :=
  (∀ x ∈ dir, Path.IsName x ∧ ¬ Path.IsMarked x) ∧
    (dir = [] ∨ ∃ rest bytes, t.files[(l.branch dir).components ++ rest]? = some bytes)

theorem isWalked_nil : IsWalked l t [] :=
  ⟨by simp, Or.inl rfl⟩

theorem IsWalked.isName (h : IsWalked l t dir) : ∀ x ∈ dir, Path.IsName x :=
  fun x hx => (h.1 x hx).1

/-- The walk goes on to the entries that are not marked. -/
theorem IsSpelled.isWalked_concat (h : t.IsSpelled) (hdir : IsWalked l t dir) {x : String}
    (hx : x ∈ t.names (l.branch dir)) (hmarked : ¬ Path.IsMarked x) :
    IsWalked l t (dir ++ [x]) := by
  obtain ⟨rest, bytes, hfile⟩ := mem_names_iff.1 hx
  obtain ⟨q, hq⟩ := h _ bytes hfile
  have hname : Path.IsName x := q.isInner_of_components hq
    (l.components_branch_ne_nil hdir.isName) _ List.mem_cons_self
  have hnames : ∀ y ∈ dir ++ [x], Path.IsName y ∧ ¬ Path.IsMarked y := by
    intro y hy
    rcases List.mem_append.1 hy with hy | hy
    · exact hdir.1 y hy
    · rw [List.mem_singleton.1 hy]
      exact ⟨hname, hmarked⟩
  refine ⟨hnames, Or.inr ⟨rest, bytes, ?_⟩⟩
  rw [← hfile, l.components_branch fun y hy => (hnames y hy).1, l.components_branch hdir.isName]
  simp

/-- A file in the place of a directory cannot be listed. -/
theorem outcome_found_list_file {bytes : Bytes} (hfile : t.file? p = some bytes) :
    ∃ e, (found (list p)).outcome t = (.error e, t) := by
  refine ⟨.storage ⟨.invalidRequest, engine, some p.text, some "list",
    s!"not a directory: {p.text}"⟩, ?_⟩
  rw [outcome_found, list, outcome_bind, outcome_get]
  simp only [hfile, Option.isSome_some, if_true]
  rfl

/-- **A visit fails or leads on to entries of the directory**, whatever the store holds. -/
theorem IsSpelled.explores (h : t.IsSpelled) :
    Explores l.inMemory t l.branch (IsWalked l t) := by
  intro dir hdir
  cases hfile : t.file? (l.branch dir) with
  | some bytes =>
    obtain ⟨e, hlist⟩ := outcome_found_list_file hfile
    have hlist' : (found (l.inMemory.storage.list (l.branch dir))).outcome t = (.error e, t) :=
      hlist
    refine Or.inl ⟨e, ?_⟩
    rw [Registry.visit, outcome_bind, hlist']
  | none =>
    have hvisit := outcome_visit (l := l) h (l.components_branch_ne_nil hdir.isName) hfile
    rcases hany : ((l.inMemory.anyFilled (t.markers (l.branch dir))).outcome t).1 with e | filled
    · rw [hany] at hvisit
      exact Or.inl ⟨e, hvisit⟩
    · rw [hany] at hvisit
      refine Or.inr ⟨t.below (l.branch dir),
        if filled then Catalog.nameAt? l.repositories (l.branch dir) else none, ?_,
        t.nodup_below _, fun x hx => ?_⟩
      · simp only [l.branch_concat]
        exact hvisit
      · obtain ⟨hname, hmarked⟩ := mem_below_iff.1 hx
        exact h.isWalked_concat hdir hname hmarked

/-- The directories that the walk comes to are on the way to files. -/
theorem IsWalked.mem_waypoints (h : IsWalked l t dir) :
    dir ∈ t.waypoints (l.root.components.length + 1) := by
  rcases h.2 with rfl | ⟨rest, bytes, hfile⟩
  · rw [waypoints, List.mem_toFinset]
    exact List.mem_cons_self
  · have hplace : t.files[l.root.components ++ [.name "repositories"] ++ dir.map .name ++ rest]? =
        some bytes := by
      rw [← hfile, l.components_branch h.isName]
      simp
    have hmem := MemoryStore.mem_waypoints _ rest bytes hplace
    rwa [List.length_append, List.length_singleton] at hmem

/-- **The walk for the catalog ends**, and the catalog is what it has found, in order. -/
theorem IsSpelled.catalog_ends (h : t.IsSpelled) :
    ∃ x, l.inMemory.Walks t [l.repositories] [] x ∧
      l.inMemory.catalog.outcome t =
        (x.map fun names => names.mergeSort fun a b => a.text ≤ b.text, t) := by
  obtain ⟨x, hwalks, hwalk⟩ := (h.explores (l := l)).walks (fun _ hdir => hdir.mem_waypoints)
    (driver.extent t) [[]] [] (List.forall_mem_singleton.2 isWalked_nil)
    (List.pairwise_singleton _ _)
    ((Finset.card_le_card (Finset.filter_subset _ _)).trans (t.card_waypoints_le _))
  have hwalk' : (l.inMemory.walk (driver.extent t) [l.repositories] []).outcome t = (x, t) := hwalk
  refine ⟨x, hwalks, ?_⟩
  show (l.inMemory.walk (driver.extent t) [l.repositories] [] >>= _).outcome t = _
  rw [outcome_bind, hwalk']
  cases x <;> rfl

end MemoryStore

/-! ### What the walk finds -/

namespace Resource

variable {f : Resource} {n : RepositoryName}

/-- A file beneath a marked entry of a repository is one of the repository. -/
theorem owner?_of_within_isPrefix {m : String} (rest : List String) (hf : f.isFile = true)
    (hm : Path.IsMarked m) (h : within n (m :: rest) <+: f.place) : f.owner? = some n := by
  cases hn : f.owner? with
  | none =>
    rw [place, hn] at h
    cases f <;> simp_all [isFile, entry, within, List.cons_prefix_cons]
  | some n' =>
    rcases entry_isMarked hn with rfl | ⟨m', rest', he, hm'⟩
    · cases hf
    · rw [place, hn, he] at h
      rw [(within_isPrefix hm hm' h).1]

/-- The files of a repository are in the directories that only repositories have. -/
theorem exists_marker (hf : f.isFile = true) (hn : f.owner? = some n) :
    ∃ m rest, f.place = within n (m :: rest) ∧ m ∈ Catalog.markers := by
  cases f with
  | blobData | upload | tags | repository | repositories => cases hf <;> cases hn
  | layerLink m d | uploadData m d | uploadStartedAt m d | revisionLink m d | currentLink m d =>
    obtain rfl := Option.some.inj hn
    exact ⟨_, _, rfl, by decide⟩

end Resource

namespace MemoryStore

variable {t : MemoryStore} {l : Layout} {p : Path} {dir : List String} {n : RepositoryName}

theorem LaidOut.isSpelled (h : t.LaidOut l) : t.IsSpelled := by
  intro place bytes hfile
  obtain ⟨f, -, rfl⟩ := h place bytes hfile
  exact ⟨_, rfl⟩

/-- No file is in the place of a directory of the walk, or of an entry of one. -/
theorem LaidOut.file?_eq_none (h : t.LaidOut l) (hdir : ∀ x ∈ dir, ¬ Path.IsMarked x)
    (rest : List String) (hrest : rest.length ≤ 1)
    (hp : p.components = l.root.components ++ ("repositories" :: (dir ++ rest)).map .name) :
    t.file? p = none := by
  refine Option.eq_none_iff_forall_ne_some.2 fun bytes hbytes => ?_
  obtain ⟨f, hf, he⟩ := h _ bytes hbytes
  have hpre : l.root.components ++ f.place.map .name <+:
      l.root.components ++ ("repositories" :: (dir ++ rest)).map .name := by
    rw [← l.components_path f, ← he, hp]
  exact Resource.not_isPrefix_branch hf hdir rest hrest
    (Components.append_names_isPrefix_iff.1 hpre)

/-- A repository has a file of its own. -/
def HasFiles (l : Layout) (t : MemoryStore) (n : RepositoryName) : Prop :=
  ∃ (f : Resource) (bytes : Bytes), f.isFile = true ∧ f.owner? = some n ∧
    t.file? (l.path f) = some bytes

/-- The names that lead to a file of a repository. -/
theorem HasFiles.exists_place (h : HasFiles l t n) : ∃ m rest bytes, m ∈ Catalog.markers ∧
    t.files[l.root.components ++ (Resource.within n (m :: rest)).map .name]? = some bytes := by
  obtain ⟨f, bytes, hf, hn, hfile⟩ := h
  obtain ⟨m, rest, hplace, hm⟩ := Resource.exists_marker hf hn
  refine ⟨m, rest, bytes, hm, ?_⟩
  rw [← hfile, file?, l.components_path, hplace]

/-- A repository has files when one of the directories that only repositories have is there. -/
theorem LaidOut.markers_ne_nil_iff (h : t.LaidOut l) :
    t.markers (l.branch n.components) ≠ [] ↔ HasFiles l t n := by
  have hnames : ∀ x ∈ n.components, Path.IsName x :=
    fun _ => RepositoryName.isName_of_mem_components
  have hbranch : ∀ (m : String) (rest : List Component), (l.branch n.components).components ++
      .name m :: rest = l.root.components ++ (Resource.within n [m]).map .name ++ rest := by
    intro m rest
    rw [l.components_branch hnames]
    simp [Resource.within]
  constructor
  · intro hmarkers
    obtain ⟨q, hq⟩ := List.exists_mem_of_ne_nil _ hmarkers
    obtain ⟨m, hm, -⟩ := List.mem_map.1 hq
    obtain ⟨hname, hmarker⟩ := List.mem_filter.1 hm
    obtain ⟨rest, bytes, hfile⟩ := mem_names_iff.1 hname
    obtain ⟨f, hf, he⟩ := h _ bytes hfile
    have hmarked : Path.IsMarked m := by
      have : ∀ m ∈ Catalog.markers, Path.IsMarked m := by decide
      exact this m (by simpa using hmarker)
    refine ⟨f, bytes, hf, Resource.owner?_of_within_isPrefix [] hf hmarked ?_, ?_⟩
    · rw [← @Components.append_names_isPrefix_iff l.root.components, ← l.components_path,
        ← he, hbranch]
      exact List.prefix_append _ _
    · rw [file?, ← he]
      exact hfile
  · intro hfiles
    obtain ⟨m, rest, bytes, hm, hfile⟩ := hfiles.exists_place
    refine List.ne_nil_of_mem (List.mem_map_of_mem (List.mem_filter.2 ⟨mem_names_iff.2
      ⟨rest.map .name, bytes, ?_⟩, by simpa using hm⟩))
    rw [← hfile, hbranch]
    simp [Resource.within]

/-- Of those directories none is empty, so that the first one is asked at most. -/
theorem LaidOut.outcome_anyFilled (h : t.LaidOut l) (hdir : IsWalked l t dir) :
    (l.inMemory.anyFilled (t.markers (l.branch dir))).outcome t =
      (.ok (!(t.markers (l.branch dir)).isEmpty), t) := by
  cases hmarkers : t.markers (l.branch dir) with
  | nil => rfl
  | cons q rest =>
    have hq : q ∈ t.markers (l.branch dir) := by simp [hmarkers]
    obtain ⟨m, hm, rfl⟩ := List.mem_map.1 hq
    obtain ⟨hname, hmarker⟩ := List.mem_filter.1 hm
    have hmname : Path.IsName m := by
      have : ∀ m ∈ Catalog.markers, Path.IsName m := by decide
      exact this m (by simpa using hmarker)
    have hjoin : ((l.branch dir).join m).components = (l.branch dir).components ++ [.name m] :=
      Path.components_join _ [m] (by simp) (by simpa using hmname) (by simp [List.intercalate])
    have hnofile : t.file? ((l.branch dir).join m) = none := by
      refine h.file?_eq_none (fun x hx => (hdir.1 x hx).2) [m] (by simp) ?_
      rw [hjoin, l.components_branch hdir.isName]
      simp
    have hchildren : t.children ((l.branch dir).join m) ≠ [] := by
      obtain ⟨below, bytes, hfile⟩ := mem_names_iff.1 hname
      cases below with
      | nil =>
        rw [file?, hjoin, hfile] at hnofile
        cases hnofile
      | cons c below =>
        refine List.ne_nil_of_mem (a := c) (t.mem_children_iff.2 ⟨below, bytes, ?_⟩)
        rw [hjoin, ← hfile]
        simp
    obtain ⟨entries, hlist, hentries⟩ := t.outcome_found_list hnofile
    have hfound : (found (l.inMemory.storage.list ((l.branch dir).join m))).outcome t =
        (.ok entries, t) := hlist
    rw [Registry.anyFilled, outcome_bind, hfound]
    rcases entries with _ | _ | ⟨e, entries⟩
    · exact absurd (List.map_eq_nil_iff.1 hentries.symm) hchildren
    · exact absurd (List.map_eq_nil_iff.1 hentries.symm) hchildren
    · rfl

/-- **A visit finds the repository that a directory is, and leads to all beneath it.** -/
theorem LaidOut.finds (h : t.LaidOut l) :
    Finds l.inMemory t l.branch (IsWalked l t) (HasFiles l t) := by
  intro dir hdir
  have hnofile : t.file? (l.branch dir) = none :=
    h.file?_eq_none (fun x hx => (hdir.1 x hx).2) [] (by simp)
      (by rw [l.components_branch hdir.isName, List.append_nil])
  have hvisit := outcome_visit (l := l) h.isSpelled (l.components_branch_ne_nil hdir.isName) hnofile
  rw [h.outcome_anyFilled hdir] at hvisit
  refine ⟨t.below (l.branch dir), if !(t.markers (l.branch dir)).isEmpty then
    Catalog.nameAt? l.repositories (l.branch dir) else none, ?_, t.nodup_below _,
    fun x hx => ?_, fun n => ?_, fun n hfiles hpre => ?_⟩
  · simp only [l.branch_concat]
    exact hvisit
  · obtain ⟨hname, hmarked⟩ := mem_below_iff.1 hx
    exact h.isSpelled.isWalked_concat hdir hname hmarked
  · have hmarkers : n.components = dir → (t.markers (l.branch dir) ≠ [] ↔ HasFiles l t n) := by
      rintro rfl
      exact h.markers_ne_nil_iff
    rw [Option.mem_def]
    cases hlist : t.markers (l.branch dir) with
    | nil =>
      rw [hlist] at hmarkers
      simpa using fun he => mt (hmarkers he).2 (by simp)
    | cons q rest =>
      rw [hlist] at hmarkers
      have hname := l.nameAt?_branch_eq_some_iff hdir.isName (n := n)
      simpa [hname] using fun he => (hmarkers he).1 (by simp)
  · obtain ⟨rest, hrest⟩ := hpre
    cases rest with
    | nil => exact Or.inl (by simpa using hrest.symm)
    | cons x rest =>
      obtain ⟨m, more, bytes, -, hfile⟩ := hfiles.exists_place
      have hx : x ∈ n.components := by simp [← hrest]
      refine Or.inr ⟨x, mem_below_iff.2 ⟨mem_names_iff.2
        ⟨(rest ++ m :: more).map .name, bytes, ?_⟩,
          RepositoryName.not_isMarked_of_mem_components hx⟩, rest, by simpa using hrest⟩
      rw [← hfile, l.components_branch hdir.isName, Resource.within, ← hrest]
      simp

/-- **The catalog of a store that is laid out** is the list of the repositories that have a
file, in the order of the bytes of their names. -/
theorem LaidOut.outcome_catalog (h : t.LaidOut l) :
    ∃ names, l.inMemory.catalog.outcome t = (.ok names, t) ∧
      (names.map fun n => Bytes.ofText n.text).Pairwise (· < ·) ∧
      ∀ n, n ∈ names ↔ HasFiles l t n := by
  obtain ⟨x, hwalks, hcatalog⟩ := h.isSpelled.catalog_ends (l := l)
  obtain ⟨found, rfl, hnodup, hmem⟩ := hwalks.exact h.finds [[]] rfl
    (List.forall_mem_singleton.2 isWalked_nil) (List.pairwise_singleton _ _) .nil (by simp)
  refine ⟨found.mergeSort fun a b => a.text ≤ b.text, hcatalog, ?_, fun n => ?_⟩
  · have hsort : (found.mergeSort fun a b => a.text ≤ b.text).map RepositoryName.text =
        (found.map RepositoryName.text).mergeSort fun a b => a ≤ b :=
      List.map_mergeSort fun _ _ _ _ => rfl
    have hincreasing := increasing_mergeSort (hnodup.map fun _ _ => RepositoryName.ext)
    rw [← hsort] at hincreasing
    exact List.pairwise_map.2 ((List.pairwise_map.1 hincreasing).imp RepositoryName.ofText_lt)
  · rw [(List.mergeSort_perm _ _).mem_iff, hmem]
    simp

end MemoryStore

/-! ### What was done -/

namespace Chronicle

variable {l : Layout} {w : World} {past : List (World × Operation)} {n : RepositoryName}

/-- A repository came to have something and has not lost it again: a layer was finished in it or
mounted into it, a manifest was put in, or an upload is open. -/
def IsUsed (l : Layout) (past : List (World × Operation)) (n : RepositoryName) : Prop :=
  (∃ e ∈ past, ∃ digest, e.2.Links l e.1 n digest) ∨
    (∃ e ∈ past, ∃ p ∈ e.2.publishes l e.1, p.name = n) ∨ ∃ id, IsOpen l past n id

/-- What was put in on the way. -/
theorem history (h : Chronicle l w past) :
    History l w (past.flatMap fun e => e.2.publishes l e.1) := by
  induction h with
  | empty => exact .empty
  | step _ op fresh ih =>
    rw [List.flatMap_append, List.flatMap_singleton]
    exact ih.step op fresh

/-- **A repository has files when it is used.** -/
theorem hasFiles_iff (h : Chronicle l w past) (n : RepositoryName) :
    w.store.HasFiles l n ↔ IsUsed l past n := by
  have hrecorded := h.history.recorded
  have huploads := h.filesFollow
  constructor
  · rintro ⟨f, bytes, hf, hn, hfile⟩
    have hopen : ∀ id, f.upload? = some (n, id) → IsOpen l past n id := by
      intro id hid
      refine Classical.byContradiction fun hshut => ?_
      cases (huploads.shut n id hshut f hid).symm.trans hfile
    have hpublished : ∀ p ∈ past.flatMap (fun e => e.2.publishes l e.1), p.name = n →
        IsUsed l past n := by
      intro p hp hname
      obtain ⟨e, he, hpe⟩ := List.mem_flatMap.1 hp
      exact Or.inr (Or.inl ⟨e, he, p, hpe, hname⟩)
    cases f with
    | layerLink m digest =>
      obtain rfl := Option.some.inj hn
      obtain ⟨e, he, hlinks⟩ := (h.linked_iff m digest).1 ⟨bytes, hfile⟩
      exact Or.inl ⟨e, he, digest, hlinks⟩
    | uploadData m id | uploadStartedAt m id =>
      obtain rfl := Option.some.inj hn
      exact Or.inr (Or.inr ⟨id, hopen id rfl⟩)
    | revisionLink m digest =>
      obtain rfl := Option.some.inj hn
      obtain ⟨p, hp, hname, -⟩ := (hrecorded.revision m digest).1 ⟨bytes, hfile⟩
      exact hpublished p hp hname
    | currentLink m tag =>
      obtain rfl := Option.some.inj hn
      rw [hrecorded.current m tag] at hfile
      obtain ⟨p, hlatest, -⟩ := Option.map_eq_some_iff.1 hfile
      obtain ⟨hp, hname, -⟩ := Publication.latest?_eq_some hlatest
      exact hpublished p hp hname
    | blobData | upload | tags | repository | repositories => cases hf <;> cases hn
  · rintro (⟨e, he, digest, hlinks⟩ | ⟨e, he, p, hp, rfl⟩ | ⟨id, hopen⟩)
    · obtain ⟨link, hlink⟩ := (h.linked_iff n digest).2 ⟨e, he, hlinks⟩
      exact ⟨.layerLink n digest, link, rfl, rfl, hlink⟩
    · obtain ⟨link, hlink⟩ := (hrecorded.revision p.name p.digest).2
        ⟨p, List.mem_flatMap.2 ⟨e, he, hp⟩, rfl, rfl⟩
      exact ⟨.revisionLink p.name p.digest, link, rfl, rfl, hlink⟩
    · obtain ⟨content, hcontent⟩ := huploads.held n id hopen
      exact ⟨.uploadStartedAt n id, content, rfl, rfl, hcontent⟩

end Chronicle

/-- **The catalog is exact.** On every store whose files are stored by path its walk ends; and
on storage that does not fail it answers the repositories that are used, each once and in the
order of the bytes of their names. -/
theorem Registry.catalog_exact (l : Layout) :
    (∀ t : MemoryStore, t.IsSpelled → ∃ x, l.inMemory.Walks t [l.repositories] [] x ∧
      l.inMemory.catalog.outcome t =
        (x.map fun names => names.mergeSort fun a b => a.text ≤ b.text, t)) ∧
    ∀ (w : World) (past : List (World × Operation)), Chronicle l w past →
      ∃ names, w.answer l.inMemory.catalog = .ok names ∧
        (names.map fun n => Bytes.ofText n.text).Pairwise (· < ·) ∧
        ∀ n, n ∈ names ↔ Chronicle.IsUsed l past n := by
  refine ⟨fun t ht => ht.catalog_ends, fun w past h => ?_⟩
  obtain ⟨names, hcatalog, hincreasing, hmem⟩ := h.reachable.inv.laidOut.outcome_catalog
  exact ⟨names, congrArg Prod.fst hcatalog, hincreasing, fun n => (hmem n).trans (h.hasFiles_iff n)⟩

/-- An upload of the inner of two repositories is open, and the only one of the outer was
cancelled; and there is a store with a file where a repository belongs. -/
theorem Registry.catalog_exact_nested :
    (∃ t x, t.file? ⟨"/docker/registry/v2/repositories/aa"⟩ = some [1] ∧
      (default : Layout).inMemory.Walks t [(default : Layout).repositories] [] x) ∧
    ∃ w past names, Chronicle default w past ∧
      w.answer (default : Layout).inMemory.catalog = .ok names ∧
      (⟨"aa/bb", by decide⟩ : RepositoryName) ∉ names ∧
      (⟨"aa/bb/cc", by decide⟩ : RepositoryName) ∈ names := by
  obtain ⟨hends, hexact⟩ := Registry.catalog_exact default
  constructor
  · obtain ⟨x, hwalks, -⟩ := hends (MemoryStore.empty.put
      ⟨"/docker/registry/v2/repositories/aa"⟩ [1]) (MemoryStore.isSpelled_empty.put _ _)
    exact ⟨_, x, (MemoryStore.empty.file?_put _ _ _).trans (if_pos rfl), hwalks⟩
  obtain ⟨outer, inner, id, houter, hinner⟩ :
      ∃ (outer inner : RepositoryName) (_ : UploadId),
        outer = ⟨"aa/bb", by decide⟩ ∧ inner = ⟨"aa/bb/cc", by decide⟩ :=
    ⟨_, _, ⟨"00000000-0000-0000-0000-000000000001", by decide⟩, rfl, rfl⟩
  have hne : outer ≠ inner := by
    rw [houter, hinner]
    decide
  have hstart := Chronicle.empty.step (l := default) (.start outer id ⟨0, 0, 0⟩)
    (fun _ _ => List.not_mem_nil)
  have hcancel := hstart.step (.cancelUpload outer id) fun key hkey => absurd hkey List.not_mem_nil
  have hnested := hcancel.step (.start inner id ⟨0, 0, 0⟩) fun key hkey => by
    rw [List.mem_singleton.1 hkey]
    intro hdrawn
    have hdrawn : (inner, id) ∈ [(outer, id)] := hdrawn
    exact hne (congrArg Prod.fst (List.mem_singleton.1 hdrawn)).symm
  obtain ⟨names, hcatalog, -, hmem⟩ := hexact _ _ hnested
  rw [← houter, ← hinner]
  refine ⟨_, _, names, hnested, hcatalog, fun hlisted => ?_, (hmem inner).2 ?_⟩
  · rcases (hmem outer).1 hlisted with ⟨e, he, digest, hlinks⟩ | ⟨e, he, p, hp, -⟩ | ⟨i, hopen⟩
    · simp only [List.nil_append, List.cons_append, List.mem_cons, List.not_mem_nil,
        or_false] at he
      rcases he with rfl | rfl | rfl <;> exact hlinks
    · simp only [List.nil_append, List.cons_append, List.mem_cons, List.not_mem_nil,
        or_false] at he
      rcases he with rfl | rfl | rfl <;> cases hp
    · obtain hstarts | ⟨hopen, -⟩ := isOpen_concat.1 hopen
      · exact hne hstarts.1.symm
      obtain hstarts | ⟨hopen, hkept⟩ := isOpen_concat.1 hopen
      · exact hstarts
      obtain hstarts | ⟨hopen, -⟩ := isOpen_concat.1 hopen
      · exact hkept ⟨rfl, hstarts.2⟩
      · exact not_isOpen_nil hopen
  · exact Or.inr (Or.inr ⟨id, isOpen_concat.2 (Or.inl ⟨rfl, rfl⟩)⟩)

end ContainerRegistry
