/-
# Every resource has a place of its own

Beneath the root, the path of a resource consists of the names in
`Resource.place` and nothing else (`Layout.components_path`). The entry that
follows the name of a repository in a place starts with an underscore, and no
component of a name does, so the name is found again in the place. A place is
therefore a resource's own, and no file lies beneath another
(`Resource.eq_of_place_isPrefix`); beneath an upload lie its two files and
nothing else (`Resource.file_beneath_upload`).

Key definitions: `Resource.isFile`, `Resource.place`.
Key theorems: `Layout.components_path`, `Resource.eq_of_place_isPrefix`,
`Resource.file_beneath_upload`, `Layout.isPrefix_path_iff`.
-/
import ContainerRegistry.Proofs.Grammar

namespace ContainerRegistry
namespace Resource

/-- Whether a resource is a file and not a directory. -/
def isFile : Resource → Bool
  | blobData _ | layerLink _ _ | uploadData _ _ | uploadStartedAt _ _ | revisionLink _ _
  | currentLink _ _ => true
  | upload _ _ | tags _ | repository _ | repositories => false

/-- The repository that a resource belongs to. -/
def owner? : Resource → Option RepositoryName
  | blobData _ | repositories => none
  | layerLink n _ | upload n _ | uploadData n _ | uploadStartedAt n _ | revisionLink n _ | tags n
  | currentLink n _ | repository n => some n

/-- The names on the way to a resource, from the directory of its repository if it
has one and from the root if not. -/
def entry : Resource → List String
  | blobData d => ["blobs", d.algorithm.name, Layout.shard d, d.hex, "data"]
  | layerLink _ d => ["_layers", d.algorithm.name, d.hex, "link"]
  | upload _ id => ["_uploads", id.text]
  | uploadData _ id => ["_uploads", id.text, "data"]
  | uploadStartedAt _ id => ["_uploads", id.text, "startedat"]
  | revisionLink _ d => ["_manifests", "revisions", d.algorithm.name, d.hex, "link"]
  | tags _ => ["_manifests", "tags"]
  | currentLink _ t => ["_manifests", "tags", t.text, "current", "link"]
  | repository _ => []
  | repositories => ["repositories"]

/-- The names on the way from the root to an entry of a repository. -/
def within (n : RepositoryName) (entry : List String) : List String :=
  "repositories" :: (n.components ++ entry)

/-- The names on the way from the root to a resource. -/
def place (r : Resource) : List String :=
  match r.owner? with
  | some n => within n r.entry
  | none => r.entry

/-- Two lists that are unmarked up to their first marked entry part there. -/
theorem append_cons_isPrefix : ∀ {xs ys rest rest' : List String} {m m' : String},
    (∀ x ∈ xs, ¬ Path.IsMarked x) → (∀ y ∈ ys, ¬ Path.IsMarked y) → Path.IsMarked m →
    Path.IsMarked m' → xs ++ m :: rest <+: ys ++ m' :: rest' →
    xs = ys ∧ m :: rest <+: m' :: rest'
  | [], [], _, _, _, _, _, _, _, _, h => ⟨rfl, h⟩
  | [], y :: ys, _, _, _, _, _, hy, hm, _, h => by
    obtain ⟨rfl, -⟩ := List.cons_prefix_cons.1 h
    exact absurd hm (hy _ List.mem_cons_self)
  | x :: xs, [], _, _, _, _, hx, _, _, hm', h => by
    obtain ⟨rfl, -⟩ := List.cons_prefix_cons.1 h
    exact absurd hm' (hx _ List.mem_cons_self)
  | x :: xs, y :: ys, _, _, _, _, hx, hy, hm, hm', h => by
    obtain ⟨rfl, htail⟩ := List.cons_prefix_cons.1 h
    obtain ⟨rfl, hrest⟩ := append_cons_isPrefix (fun z hz => hx z (List.mem_cons_of_mem _ hz))
      (fun z hz => hy z (List.mem_cons_of_mem _ hz)) hm hm' htail
    exact ⟨rfl, hrest⟩

/-- The name of a repository is found again in the place of a marked entry of it. -/
theorem within_isPrefix {n n' : RepositoryName} {m m' : String} {rest rest' : List String}
    (hm : Path.IsMarked m) (hm' : Path.IsMarked m')
    (h : within n (m :: rest) <+: within n' (m' :: rest')) :
    n = n' ∧ m :: rest <+: m' :: rest' := by
  obtain ⟨hn, hrest⟩ := append_cons_isPrefix
    (fun _ => RepositoryName.not_isMarked_of_mem_components)
    (fun _ => RepositoryName.not_isMarked_of_mem_components) hm hm' (List.cons_prefix_cons.1 h).2
  exact ⟨RepositoryName.components_injective hn, hrest⟩

/-- The directory of a repository is not beneath a marked entry. -/
theorem not_within_isPrefix_repository {n n' : RepositoryName} {m : String} {rest : List String}
    (hm : Path.IsMarked m) : ¬ within n (m :: rest) <+: within n' [] := by
  intro h
  have hmem : m ∈ n'.components ++ [] :=
    (List.cons_prefix_cons.1 h).2.subset (List.mem_append_right _ List.mem_cons_self)
  exact RepositoryName.not_isMarked_of_mem_components (by simpa using hmem) hm

/-- What stands first in an entry of a repository is marked. -/
theorem entry_isMarked {r : Resource} {n : RepositoryName} (h : r.owner? = some n) :
    r = repository n ∨ ∃ m rest, r.entry = m :: rest ∧ Path.IsMarked m := by
  cases r with
  | blobData | repositories => simp [owner?] at h
  | repository n' => exact Or.inl (by simpa [owner?] using h)
  | layerLink | upload | uploadData | uploadStartedAt | revisionLink | tags | currentLink =>
    exact Or.inr ⟨_, _, rfl, by decide⟩

/-- What lies beneath an entry of a repository belongs to the same repository. -/
theorem owner?_eq_of_place_isPrefix {a b : Resource} {n : RepositoryName} (ha : a ≠ repository n)
    (hn : a.owner? = some n) (h : a.place <+: b.place) :
    b.owner? = some n ∧ a.entry <+: b.entry := by
  obtain ⟨m, rest, he, hm⟩ : ∃ m rest, a.entry = m :: rest ∧ Path.IsMarked m := by
    rcases entry_isMarked hn with h | h
    · exact absurd h ha
    · exact h
  rw [place, hn, he] at h
  rw [he]
  cases hb : b.owner? with
  | none =>
    rw [place, hb] at h
    have := n.components_ne_nil
    cases b <;> simp_all [owner?, entry, within, List.cons_prefix_cons]
  | some n' =>
    rw [place, hb] at h
    rcases entry_isMarked hb with rfl | ⟨m', rest', he', hm'⟩
    · exact absurd h (not_within_isPrefix_repository hm)
    · rw [he'] at h ⊢
      obtain ⟨rfl, hrest⟩ := within_isPrefix hm hm' h
      exact ⟨rfl, hrest⟩

/-- **No file lies above another resource**, and no two share a place. -/
theorem eq_of_place_isPrefix {a b : Resource} (ha : a.isFile = true) (h : a.place <+: b.place) :
    a = b := by
  cases hn : a.owner? with
  | none =>
    cases a <;> simp [owner?, isFile] at hn ha
    rename_i d
    cases b <;> simp [place, owner?, entry, within, List.cons_prefix_cons] at h
    rename_i d'
    rw [Digest.ext (Algorithm.name_injective h.1) h.2.2]
  | some n =>
    obtain ⟨hb, he⟩ := owner?_eq_of_place_isPrefix (by rintro rfl; simp [isFile] at ha) hn h
    cases a <;> cases b <;> simp_all [owner?, isFile, entry, List.cons_prefix_cons]
    · exact Digest.ext (Algorithm.name_injective he.1) he.2
    · exact UploadId.ext he
    · exact UploadId.ext he
    · exact Digest.ext (Algorithm.name_injective he.1) he.2
    · exact Tag.ext he

/-- What stands in an entry are plain names. -/
theorem isPlain_of_mem_entry {r : Resource} : ∀ m ∈ r.entry, Path.IsPlain m := by
  intro m hm
  cases r <;> simp only [entry, List.mem_cons, List.not_mem_nil, or_false] at hm
  case blobData =>
    rcases hm with rfl | rfl | rfl | rfl | rfl
    · decide
    · exact Algorithm.isPlain_name _
    · exact Digest.isPlain_shard _
    · exact Digest.isPlain_hex _
    · decide
  case layerLink =>
    rcases hm with rfl | rfl | rfl | rfl
    · decide
    · exact Algorithm.isPlain_name _
    · exact Digest.isPlain_hex _
    · decide
  case upload =>
    rcases hm with rfl | rfl
    · decide
    · exact UploadId.isPlain_text _
  case uploadData | uploadStartedAt =>
    rcases hm with rfl | rfl | rfl
    · decide
    · exact UploadId.isPlain_text _
    · decide
  case revisionLink =>
    rcases hm with rfl | rfl | rfl | rfl | rfl
    · decide
    · decide
    · exact Algorithm.isPlain_name _
    · exact Digest.isPlain_hex _
    · decide
  case tags =>
    rcases hm with rfl | rfl <;> decide
  case currentLink =>
    rcases hm with rfl | rfl | rfl | rfl | rfl
    · decide
    · decide
    · exact Tag.valid _
    · decide
    · decide
  case repositories =>
    subst hm
    decide

theorem isName_of_mem_entry {r : Resource} : ∀ m ∈ r.entry, Path.IsName m :=
  fun m hm => (isPlain_of_mem_entry m hm).isName

/-- What stands in a place are plain names. -/
theorem isPlain_of_mem_place {r : Resource} {m : String} (h : m ∈ r.place) : Path.IsPlain m := by
  rw [place] at h
  cases hn : r.owner? with
  | none =>
    rw [hn] at h
    exact isPlain_of_mem_entry m h
  | some n =>
    rw [hn] at h
    rcases List.mem_cons.1 h with rfl | h
    · decide
    · rcases List.mem_append.1 h with h | h
      · exact RepositoryName.isPlain_of_mem_components h
      · exact isPlain_of_mem_entry m h

/-- The files beneath the directory of an upload are the bytes and the start time. -/
theorem file_beneath_upload {b : Resource} {n : RepositoryName} {id : UploadId}
    (hb : b.isFile = true) (h : (upload n id).place <+: b.place) :
    b = uploadData n id ∨ b = uploadStartedAt n id := by
  obtain ⟨hown, he⟩ := owner?_eq_of_place_isPrefix (by simp) (rfl : (upload n id).owner? = some n) h
  cases b <;> simp_all [owner?, isFile, entry, List.cons_prefix_cons]
  · exact (UploadId.ext he).symm
  · exact (UploadId.ext he).symm

theorem upload_isPrefix_data (n : RepositoryName) (id : UploadId) :
    (upload n id).place <+: (uploadData n id).place :=
  ⟨["data"], by simp [place, owner?, entry, within]⟩

theorem upload_isPrefix_startedAt (n : RepositoryName) (id : UploadId) :
    (upload n id).place <+: (uploadStartedAt n id).place :=
  ⟨["startedat"], by simp [place, owner?, entry, within]⟩

end Resource

namespace Components

theorem isWithin_iff_isPrefix {base cs : List Component} :
    isWithin base cs = true ↔ base <+: cs := by
  rw [isWithin_iff]
  exact exists_congr fun _ => eq_comm

/-- Beneath one base, names lead through names as they do without it. -/
theorem append_names_isPrefix_iff {base : List Component} {names more : List String} :
    base ++ names.map .name <+: base ++ more.map .name ↔ names <+: more := by
  rw [List.prefix_append_right_inj]
  constructor
  · intro h
    obtain ⟨front, hfront, he⟩ := List.prefix_map_iff.1 h
    rw [List.map_inj_right (fun _ _ e => by simpa using e)] at he
    exact he ▸ hfront
  · exact fun h => h.map _

end Components

namespace Layout

variable (l : Layout)

theorem components_repositories :
    l.repositories.components = l.root.components ++ [.name "repositories"] :=
  Path.components_join l.root ["repositories"] (by simp) (by decide) (by simp)

theorem components_repository (n : RepositoryName) :
    (l.repository n).components = l.root.components ++ (Resource.within n []).map .name := by
  rw [repository, Path.components_join _ n.components n.components_ne_nil
    (fun _ => RepositoryName.isName_of_mem_components) n.toList_text, components_repositories]
  simp [Resource.within]

/-- An entry of a repository lies beneath its directory. -/
theorem components_repository_join (n : RepositoryName) {rest : String} (entry : List String)
    (hne : entry ≠ []) (h : ∀ m ∈ entry, Path.IsName m)
    (hrest : rest.toList = ['/'].intercalate (entry.map String.toList)) :
    ((l.repository n).join rest).components =
      l.root.components ++ (Resource.within n entry).map .name := by
  rw [Path.components_join _ entry hne h hrest, components_repository]
  simp [Resource.within]

theorem components_upload (n : RepositoryName) (id : UploadId) :
    (l.upload n id).components = l.root.components ++ (Resource.upload n id).place.map .name :=
  l.components_repository_join n _ (by simp [Resource.entry])
    (@Resource.isName_of_mem_entry (.upload n id))
    (by simp [Resource.entry, List.intercalate, toString])

/-- A file of an upload lies beneath its directory. -/
theorem components_upload_join (n : RepositoryName) (id : UploadId) {file : String}
    (h : Path.IsName file) :
    ((l.upload n id).join file).components =
      l.root.components ++ (Resource.within n ["_uploads", id.text, file]).map .name := by
  rw [Path.components_join _ [file] (by simp) (by simpa using h)
    (by simp [List.intercalate]), components_upload]
  simp [Resource.place, Resource.owner?, Resource.entry, Resource.within]

theorem components_tags (n : RepositoryName) :
    (l.tags n).components = l.root.components ++ (Resource.tags n).place.map .name :=
  l.components_repository_join n _ (by simp [Resource.entry])
    (@Resource.isName_of_mem_entry (.tags n)) (by simp [Resource.entry, List.intercalate])

/-- **The path of a resource is the root and the place of the resource beneath it.** -/
theorem components_path (r : Resource) :
    (l.path r).components = l.root.components ++ r.place.map .name := by
  have hentry := @Resource.isName_of_mem_entry r
  cases r with
  | blobData d =>
    exact Path.components_join _ (Resource.blobData d).entry (by simp [Resource.entry]) hentry
      (by simp [Resource.entry, List.intercalate, toString])
  | layerLink n d =>
    exact l.components_repository_join n _ (by simp [Resource.entry]) hentry
      (by simp [Resource.entry, List.intercalate, toString])
  | upload n id =>
    exact l.components_upload n id
  | uploadData n id =>
    exact l.components_upload_join n id (by decide)
  | uploadStartedAt n id =>
    exact l.components_upload_join n id (by decide)
  | revisionLink n d =>
    exact l.components_repository_join n _ (by simp [Resource.entry]) hentry
      (by simp [Resource.entry, List.intercalate, toString])
  | tags n =>
    exact l.components_tags n
  | currentLink n t =>
    rw [path, Path.components_join _ [t.text, "current", "link"] (by simp)
      (fun m hm => hentry m (by simp_all [Resource.entry]))
      (by simp [List.intercalate, toString]), components_tags]
    simp [Resource.place, Resource.owner?, Resource.entry, Resource.within]
  | repository n =>
    exact l.components_repository n
  | repositories =>
    exact l.components_repositories

/-- The path of one resource leads through that of another when its place does. -/
theorem isPrefix_path_iff (a b : Resource) :
    (l.path a).components <+: (l.path b).components ↔ a.place <+: b.place := by
  rw [components_path, components_path, Components.append_names_isPrefix_iff]

/-- One resource lies at or beneath the path of another when its place does. -/
theorem isWithin_path_iff (a b : Resource) :
    Components.isWithin (l.path a).components (l.path b).components = true ↔
      a.place <+: b.place := by
  rw [Components.isWithin_iff_isPrefix, isPrefix_path_iff]

/-- Different files have different paths. -/
theorem file_ext {a b : Resource} (ha : a.isFile = true)
    (h : (l.path a).components = (l.path b).components) : a = b := by
  have hpath : (l.path a).components <+: (l.path b).components := h ▸ List.prefix_refl _
  exact Resource.eq_of_place_isPrefix ha ((l.isPrefix_path_iff a b).1 hpath)

end Layout
end ContainerRegistry
