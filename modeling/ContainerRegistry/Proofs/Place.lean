/-
# Where resources lie in a file tree

Under the default root every path of a registry is absolute and spelled without
detours: a slash and a name, over and over. Beneath the directory of a local
driver it is therefore a route of names, and if that directory leaves enough
room, one that the system takes. So is the route of a scratch file, whose name
starts with a dot as no name of a resource does.

Key definitions: `Path.ofNames`, `Layout.rootNames`, `LocalStore.Place.beneath`,
`LocalStore.Place.IsUsable`.
Key theorems: `Layout.path_eq_ofNames`, `LocalStore.route_ofNames`,
`LocalStore.Place.IsShort.isUsable`.
-/
import Mathlib.Algebra.Group.Nat.Defs
import ContainerRegistry.Proofs.Disk
import ContainerRegistry.Proofs.Layout
import ContainerRegistry.Storage.Local

namespace ContainerRegistry

/-! ### Paths of names -/

namespace Path

/-- Names, each after a slash. -/
def slashed (names : List String) : List Char :=
  names.flatMap fun n => '/' :: n.toList

/-- The absolute path of some names. -/
def ofNames (names : List String) : Path :=
  ⟨String.ofList (slashed names)⟩

theorem slashed_append (names more : List String) :
    slashed (names ++ more) = slashed names ++ slashed more :=
  List.flatMap_append

theorem slashed_eq {names : List String} (hne : names ≠ []) :
    slashed names = '/' :: ['/'].intercalate (names.map String.toList) := by
  induction names with
  | nil => exact absurd rfl hne
  | cons n names ih =>
    cases names with
    | nil => simp [slashed]
    | cons m names =>
      rw [slashed, List.flatMap_cons, ← slashed, ih (by simp)]
      simp [List.intercalate]

theorem toList_ofNames (names : List String) : (ofNames names).text.toList = slashed names :=
  String.toList_ofList

theorem splitOn_ofNames {names : List String} (hne : names ≠ []) (h : ∀ n ∈ names, IsName n) :
    (ofNames names).text.toList.splitOn '/' = [] :: names.map String.toList := by
  rw [toList_ofNames, slashed_eq hne, ← List.nil_append ('/' :: _), List.splitOn_append_cons_self,
    splitOn_names hne h, List.splitOn_nil]
  rfl

theorem components_ofNames {names : List String} (hne : names ≠ []) (h : ∀ n ∈ names, IsName n) :
    (ofNames names).components = .root :: names.map .name := by
  rw [components, splitOn_ofNames hne h, ofParts_cons _ (by simpa using hne), if_pos rfl,
    ← parts_names, filterMap_parts (isInner_names h)]
  rfl

theorem fileName?_ofNames {names : List String} {x : String} (h : ∀ n ∈ names ++ [x], IsName n) :
    (ofNames (names ++ [x])).fileName? = some x := by
  rw [fileName?, components_ofNames (by simp) h, List.map_append, List.map_singleton,
    ← List.cons_append, List.getLast?_concat]

/-- The path of names does not end in a slash. -/
theorem getLast?_slashed {names : List String} (hne : names ≠ []) (h : ∀ n ∈ names, IsName n) :
    (slashed names).getLast? ≠ some '/' := by
  obtain ⟨front, last, rfl⟩ := (List.eq_nil_or_concat' names).resolve_left hne
  obtain ⟨hfull, -, -, hslash⟩ := h last (by simp)
  rw [slashed_append, slashed, slashed, List.flatMap_singleton]
  intro hlast
  rw [List.getLast?_append_of_ne_nil _ (by simp), List.getLast?_cons_of_ne_nil hfull] at hlast
  exact hslash (List.mem_of_getLast? hlast)

/-- Joining more names to a path of names. -/
theorem ofNames_join {names more : List String} (hne : names ≠ []) (h : ∀ n ∈ names, IsName n)
    (hmore : more ≠ []) (h' : ∀ n ∈ more, IsName n) {rest : String}
    (hrest : rest.toList = ['/'].intercalate (more.map String.toList)) :
    (ofNames names).join rest = ofNames (names ++ more) := by
  have hhead : rest.toList.head? ≠ some '/' := by
    obtain ⟨n, more, rfl⟩ := List.exists_cons_of_ne_nil hmore
    have hn := h' n List.mem_cons_self
    obtain ⟨c, cs, hc⟩ := List.exists_cons_of_ne_nil hn.1
    have hslash : c ≠ '/' := fun e => hn.2.2.2 (by simp [hc, e])
    cases more <;> simp [hrest, List.intercalate, hc, hslash]
  have hfull : slashed names ≠ [] := by
    rw [slashed_eq hne]
    simp
  rw [join, if_neg hhead, if_neg]
  · have htext : ((ofNames names).text ++ "/" ++ rest).toList = slashed (names ++ more) := by
      rw [slashed_append, slashed_eq hmore, ← hrest]
      simp [toList_ofNames]
    rw [ofNames.eq_1 (names ++ more), ← htext, String.ofList_toList]
  · rw [toList_ofNames]
    exact fun h0 => h0.elim hfull (getLast?_slashed hne h)

theorem ofNames_join_name {names : List String} {x : String} (hne : names ≠ [])
    (h : ∀ n ∈ names, IsName n) (hx : IsName x) :
    (ofNames names).join x = ofNames (names ++ [x]) :=
  ofNames_join hne h (by simp) (by simpa using hx) (by simp)

end Path

namespace Layout

/-- The layout under the default root. -/
abbrev standard : Layout :=
  default

/-- The names of the default root. -/
def rootNames : List String :=
  ["docker", "registry", "v2"]

theorem isName_of_mem_names {r : Resource} : ∀ n ∈ rootNames ++ r.place, Path.IsName n := by
  intro n hn
  rcases List.mem_append.1 hn with hn | hn
  · exact (by decide : ∀ n ∈ rootNames, Path.IsName n) n hn
  · exact (Resource.isPlain_of_mem_place hn).isName

/-- The default root lies where its names say. -/
theorem root_eq_ofNames : standard.root = Path.ofNames rootNames := by
  decide

theorem repositories_eq_ofNames :
    standard.repositories = Path.ofNames (rootNames ++ ["repositories"]) := by
  rw [repositories, root_eq_ofNames]
  exact Path.ofNames_join_name (by decide) (by decide) (by decide)

theorem repository_eq_ofNames (n : RepositoryName) :
    standard.repository n = Path.ofNames (rootNames ++ Resource.within n []) := by
  rw [repository, repositories_eq_ofNames, Path.ofNames_join (by decide) (by decide)
    n.components_ne_nil (fun _ => RepositoryName.isName_of_mem_components) n.toList_text]
  simp [Resource.within]

/-- What is joined to the path of a repository. -/
theorem repository_join_eq_ofNames (n : RepositoryName) {rest : String} {entry : List String}
    (hne : entry ≠ []) (h : ∀ m ∈ entry, Path.IsName m)
    (hrest : rest.toList = ['/'].intercalate (entry.map String.toList)) :
    (standard.repository n).join rest =
      Path.ofNames (rootNames ++ Resource.within n entry) := by
  have hnames : ∀ m ∈ rootNames ++ Resource.within n [], Path.IsName m :=
    isName_of_mem_names (r := .repository n)
  rw [repository_eq_ofNames, Path.ofNames_join (by simp [rootNames]) hnames hne h hrest]
  simp [Resource.within]

theorem upload_eq_ofNames (n : RepositoryName) (id : UploadId) : standard.upload n id =
    Path.ofNames (rootNames ++ Resource.within n ["_uploads", id.text]) :=
  repository_join_eq_ofNames n (by simp) (@Resource.isName_of_mem_entry (.upload n id))
    (by simp [List.intercalate, toString])

theorem tags_eq_ofNames (n : RepositoryName) : standard.tags n =
    Path.ofNames (rootNames ++ Resource.within n ["_manifests", "tags"]) :=
  repository_join_eq_ofNames n (by simp) (by decide) (by simp [List.intercalate])

/-- **Under the default root the path of a resource is the path of its names.** -/
theorem path_eq_ofNames (r : Resource) :
    standard.path r = Path.ofNames (rootNames ++ r.place) := by
  have hentry : ∀ m ∈ r.entry, Path.IsName m := Resource.isName_of_mem_entry
  -- what is joined to the path of an upload or of the tags
  have hjoin : ∀ {n : RepositoryName} {front : List String} (more : List String) {rest : String},
      (∀ m ∈ front ++ more, Path.IsName m) → more ≠ [] →
      rest.toList = ['/'].intercalate (more.map String.toList) →
      (Path.ofNames (rootNames ++ Resource.within n front)).join rest =
        Path.ofNames (rootNames ++ Resource.within n (front ++ more)) := by
    intro n front more rest h hne hrest
    have hnames : ∀ m ∈ rootNames ++ Resource.within n front, Path.IsName m := by
      intro m hm
      simp only [Resource.within, List.mem_append, List.mem_cons] at hm
      rcases hm with hm | rfl | hm | hm
      · exact (by decide : ∀ n ∈ rootNames, Path.IsName n) m hm
      · decide
      · exact RepositoryName.isName_of_mem_components hm
      · exact h m (List.mem_append_left _ hm)
    rw [Path.ofNames_join (by simp [rootNames]) hnames hne
      (fun m hm => h m (List.mem_append_right _ hm)) hrest]
    simp [Resource.within]
  cases r with
  | blobData d =>
    rw [path, root_eq_ofNames]
    exact Path.ofNames_join (by decide) (by decide) (by simp [Resource.entry]) hentry
      (by simp [Resource.entry, List.intercalate, toString])
  | layerLink n d | revisionLink n d =>
    exact repository_join_eq_ofNames n (by simp [Resource.entry]) hentry
      (by simp [Resource.entry, List.intercalate, toString])
  | upload n id => exact upload_eq_ofNames n id
  | uploadData n id =>
    rw [path, upload_eq_ofNames]
    exact hjoin ["data"] hentry (by simp) (by simp)
  | uploadStartedAt n id =>
    rw [path, upload_eq_ofNames]
    exact hjoin ["startedat"] hentry (by simp) (by simp)
  | tags n => exact tags_eq_ofNames n
  | currentLink n t =>
    rw [path, tags_eq_ofNames]
    exact hjoin [t.text, "current", "link"] hentry (by simp)
      (by simp [List.intercalate, toString])
  | repository n => exact repository_eq_ofNames n
  | repositories => exact repositories_eq_ofNames

end Layout

/-! ### Routes beneath the directory of a driver -/

namespace Route

theorem isUsable_of_isPlain {name : String} (h : Path.IsPlain name) : IsUsable name := by
  refine ⟨h.utf8ByteSize_le.trans (by decide), fun c hc h0 => ?_⟩
  have hnul : c = '\x00' := Char.ext (UInt32.toNat_inj.1 h0)
  exact absurd (h.isNext c hc) (hnul ▸ by decide)

end Route

namespace LocalStore

theorem partsBeneath_ofNames {names : List String} (hne : names ≠ [])
    (h : ∀ n ∈ names, Path.IsName n) :
    partsBeneath (Path.ofNames names) = (Route.ofNames names).parts := by
  have hpart : ∀ n ∈ names, part n.toList = .step (.name n) := by
    intro n hn
    obtain ⟨h0, h1, h2, -⟩ := h n hn
    simp [part, h0, h1, h2]
  have hparts : ((Path.ofNames names).text.toList.splitOn '/').map part =
      .blank :: (Route.ofNames names).parts := by
    rw [Path.splitOn_ofNames hne h, List.map_cons, List.map_map]
    exact congrArg _ (List.map_congr_left hpart)
  have habsolute : (Path.ofNames names).isAbsolute = true := by
    rw [Path.isAbsolute, Path.toList_ofNames, Path.slashed_eq hne]
    rfl
  have htrim : Part.trim (.blank :: (Route.ofNames names).parts) = (Route.ofNames names).parts := by
    obtain ⟨n, names, rfl⟩ := List.exists_cons_of_ne_nil hne
    exact Route.trimEnd_ofNames (n :: names)
  have hfull : (Route.ofNames names).parts.isEmpty = false := by
    cases names with
    | nil => exact absurd rfl hne
    | cons n names => rfl
  simp only [partsBeneath, hparts, habsolute, htrim, hfull, Bool.not_true, Bool.false_eq_true,
    if_false]

/-- The route of a path of names leads beneath the directory of the driver. -/
theorem route_ofNames (place : Place) {names : List String} (hne : names ≠ [])
    (h : ∀ n ∈ names, Path.IsName n) :
    route place (Path.ofNames names) = .ofNames (place.root ++ names) := by
  rw [route, partsBeneath_ofNames hne h]
  simp [Route.ofNames]

namespace Place

/-- The names on the way from the top of the tree to what lies beneath the default
root of a registry. -/
def beneath (place : Place) (names : List String) : List String :=
  place.root ++ (Layout.rootNames ++ names)

theorem beneath_append (place : Place) (names more : List String) :
    place.beneath (names ++ more) = place.beneath names ++ more := by
  simp [beneath]

theorem beneath_isPrefix_iff (place : Place) {names more : List String} :
    place.beneath names <+: place.beneath more ↔ names <+: more := by
  rw [beneath, beneath, List.prefix_append_right_inj, List.prefix_append_right_inj]

theorem beneath_injective (place : Place) {names more : List String}
    (h : place.beneath names = place.beneath more) : names = more :=
  List.append_cancel_left (List.append_cancel_left h)

/-- What lies beneath is not above. -/
theorem not_beneath_isPrefix_root (place : Place) (names : List String) :
    ¬ place.beneath names <+: place.root := fun h => by
  have := h.length_le
  simp only [beneath, Layout.rootNames, List.length_append, List.length_cons] at this
  omega

/-- The route of a resource. -/
theorem route_path (place : Place) (r : Resource) :
    route place (Layout.standard.path r) = .ofNames (place.beneath r.place) := by
  rw [Layout.path_eq_ofNames, route_ofNames _ (by simp [Layout.rootNames])
    Layout.isName_of_mem_names, beneath]

/-- The system takes the route of everything that a registry keeps beneath a directory, and
that of every scratch file that stands in for one of its files. -/
structure IsUsable (place : Place) : Prop where
  fits : ∀ r : Resource, Route.Fits (place.beneath r.place)
  fits_scratch : ∀ {f : Resource} {dir : List String} {last : String}, f.isFile = true →
    f.place = dir ++ [last] → ∀ count, Route.Fits
      (place.beneath (dir ++ [scratchName place (.ofNames (place.beneath f.place)) count]))

/-- The name of a scratch file is hidden. -/
theorem head_scratchName (place : Place) (r : Route) (count : UInt64) :
    (scratchName place r count).toList.head? = some '.' := by
  simp [scratchName, toString]

/-! ### Directories that leave enough room -/

/-- A directory that the system takes, and that leaves room for what a registry keeps. -/
structure IsShort (place : Place) : Prop where
  names : ∀ n ∈ place.root, Route.IsUsable n
  size : (Route.ofNames place.root).size ≤ 2048
  process : place.process < 2 ^ 32

/-- The decimal digits of a number of so many digits. -/
theorem size_toString {n : Nat} (count : Nat) (hcount : 0 < count) (h : n < 10 ^ count) :
    (toString n).utf8ByteSize ≤ count ∧ ∀ c ∈ (toString n).toList, c.toNat ≠ 0 := by
  have hlist : (toString n).toList = Nat.toDigits 10 n := by
    rw [Nat.toString_eq_repr, Nat.repr, String.toList_ofList]
  have hdigit : ∀ c ∈ (toString n).toList, 48 ≤ c.toNat ∧ c.toNat ≤ 57 := by
    intro c hc
    rw [hlist] at hc
    have h := Nat.isDigit_of_mem_toDigits (by decide) (Nat.le_refl 10) hc
    simpa [Char.isDigit, UInt32.le_iff_toNat_le] using h
  refine ⟨?_, fun c hc h0 => ?_⟩
  · rw [utf8ByteSize_of_ascii, hlist]
    · exact (Nat.length_toDigits_le_iff (by decide) hcount).2 h
    · intro c hc
      rw [Char.utf8Size_eq_one_iff, UInt32.le_iff_toNat_le]
      show c.toNat ≤ 127
      have := hdigit c hc
      omega
  · have := hdigit c hc
    omega

/-- The name of a scratch file is not much longer than the name that it stands in for. -/
theorem size_scratchName_le {place : Place} (hprocess : place.process < 2 ^ 32) {r : Route}
    {last : String} (hr : r.fileName? = some last) (hlast : ∀ c ∈ last.toList, c.toNat ≠ 0)
    (count : UInt64) :
    (scratchName place r count).utf8ByteSize ≤ last.utf8ByteSize + 33 ∧
      ∀ c ∈ (scratchName place r count).toList, c.toNat ≠ 0 := by
  obtain ⟨hprocess, hprocess'⟩ := size_toString (n := place.process) 10 (by decide)
    (hprocess.trans (by decide))
  obtain ⟨hcount, hcount'⟩ := size_toString (n := count.toNat) 20 (by decide)
    (count.toNat_lt.trans (by decide))
  have hname : scratchName place r count =
      "." ++ last ++ "." ++ toString place.process ++ "." ++ toString count.toNat := by
    simp only [scratchName, hr, Option.getD_some]
    rfl
  rw [hname]
  constructor
  · simp only [String.utf8ByteSize_append]
    have hdot : (".").utf8ByteSize = 1 := rfl
    omega
  · have hdot : ∀ c ∈ (".").toList, c.toNat ≠ 0 := by simp
    simp only [String.toList_append, List.mem_append]
    rintro c (((((hc | hc) | hc) | hc) | hc) | hc)
    · exact hdot c hc
    · exact hlast c hc
    · exact hdot c hc
    · exact hprocess' c hc
    · exact hdot c hc
    · exact hcount' c hc

theorem IsShort.scratchName {place : Place} (h : place.IsShort) {r : Route} {last : String}
    (hr : r.fileName? = some last) (hlast : Path.IsPlain last) (count : UInt64) :
    (LocalStore.scratchName place r count).utf8ByteSize ≤ 170 ∧
      Route.IsUsable (LocalStore.scratchName place r count) := by
  obtain ⟨hle, hnul⟩ :=
    size_scratchName_le h.process hr (Route.isUsable_of_isPlain hlast).2 count
  have hlast' := hlast.utf8ByteSize_le
  have hsize : (LocalStore.scratchName place r count).utf8ByteSize ≤ 170 := by omega
  exact ⟨hsize, hsize.trans (by decide), hnul⟩

end Place

end LocalStore
end ContainerRegistry
