/-
# Repositories do not reach into each other

The directory of a repository may hold that of another, whose name goes on where
its own ends. What a repository keeps of its own lies in three marked directories,
though, and no name leads through one of these: so a place belongs to at most one
repository (`Layout.Owns.unique`), and to none if it is a blob's. An operation
that goes through a repository, or through a handle on one of its uploads, is
about files of this repository and about a blob that it may add. Hence it leaves
alone the files of all others and every blob that is stored.

Key definitions: `Layout.Owns`, `Operation.repository?`, `Isolates`.
Key theorems: `Layout.owns_path`, `Layout.Owns.unique`, `Layout.Owns.not_blob`,
`Isolates.of_confined`, `Reachable.isolates`.
-/
import ContainerRegistry.Proofs.Frame
import ContainerRegistry.Proofs.Reliable

namespace ContainerRegistry

namespace Layout

variable {l : Layout} {n n' : RepositoryName} {place : List Component}

/-- The directory of all blobs. -/
def blobs (l : Layout) : Path :=
  l.root.join "blobs"

/-- A marked directory of a repository. -/
def area (l : Layout) (n : RepositoryName) (marker : String) : Path :=
  (l.repository n).join marker

/-- A place belongs to a repository when it lies in one of the directories that only
repositories have. -/
def Owns (l : Layout) (n : RepositoryName) (place : List Component) : Prop :=
  ∃ marker ∈ Catalog.markers, (l.area n marker).components <+: place

theorem components_blobs : l.blobs.components = l.root.components ++ ["blobs"].map .name :=
  Path.components_join l.root ["blobs"] (by simp) (by decide) (by simp)

theorem components_area {marker : String} (hmarker : marker ∈ Catalog.markers) :
    (l.area n marker).components =
      l.root.components ++ (Resource.within n [marker]).map .name := by
  have hname : Path.IsName marker := (by decide : ∀ m ∈ Catalog.markers, Path.IsName m) _ hmarker
  exact l.components_repository_join n [marker] (by simp) (by simpa using hname)
    (by simp [List.intercalate])

theorem isMarked_of_mem_markers {marker : String} (h : marker ∈ Catalog.markers) :
    Path.IsMarked marker :=
  (by decide : ∀ m ∈ Catalog.markers, Path.IsMarked m) marker h

/-- **A place belongs to one repository at most**, however the names nest. -/
theorem Owns.unique (h : l.Owns n place) (h' : l.Owns n' place) : n = n' := by
  obtain ⟨marker, hmarker, hbelow⟩ := h
  obtain ⟨marker', hmarker', hbelow'⟩ := h'
  rw [components_area hmarker] at hbelow
  rw [components_area hmarker'] at hbelow'
  have hm := isMarked_of_mem_markers hmarker
  have hm' := isMarked_of_mem_markers hmarker'
  -- two ways to one place: one of them leads through the other
  rcases List.prefix_or_prefix_of_prefix hbelow hbelow' with hle | hle
  · exact (Resource.within_isPrefix hm hm' (Components.append_names_isPrefix_iff.1 hle)).1
  · exact (Resource.within_isPrefix hm' hm (Components.append_names_isPrefix_iff.1 hle)).1.symm

/-- The place of a blob belongs to no repository. -/
theorem Owns.not_blob (h : l.Owns n place) : ¬ l.blobs.components <+: place := by
  obtain ⟨marker, hmarker, hbelow⟩ := h
  rw [components_area hmarker] at hbelow
  intro hblob
  rw [components_blobs] at hblob
  rcases List.prefix_or_prefix_of_prefix hbelow hblob with hle | hle
  all_goals
    have hle := Components.append_names_isPrefix_iff.1 hle
    simp [Resource.within, List.cons_prefix_cons] at hle

/-- The files of a repository lie in its marked directories. -/
theorem owns_path {f : Resource} (hf : f.isFile = true) (hn : f.owner? = some n) :
    l.Owns n (l.path f).components := by
  obtain ⟨marker, hmarker, rest, hentry⟩ :
      ∃ marker ∈ Catalog.markers, ∃ rest, f.entry = marker :: rest := by
    cases f with
    | layerLink | uploadData | uploadStartedAt | revisionLink | currentLink =>
      exact ⟨_, by decide, _, rfl⟩
    | _ => simp_all [Resource.isFile, Resource.owner?]
  refine ⟨marker, hmarker, ?_⟩
  rw [components_area hmarker, components_path, Components.append_names_isPrefix_iff,
    Resource.place, hn, hentry]
  exact ⟨rest, by simp [Resource.within]⟩

theorem blobs_isPrefix_path (digest : Digest) :
    l.blobs.components <+: (l.path (.blobData digest)).components := by
  rw [components_blobs, components_path, Components.append_names_isPrefix_iff]
  exact ⟨_, rfl⟩

end Layout

/-! ### Operations of a repository -/

namespace Operation

/-- The repository that an operation goes through, itself or by a handle on one of its
uploads. -/
def repository? (w : World) : Operation → Option RepositoryName
  | start n _ _ | resume n _ | cancelUpload n _ | mount n _ | putManifest n _ _
  | deleteManifest n _ | layerExists n _ | layerStat n _ | layerOpen n _ _ | resolveTag n _
  | manifest n _ | manifestByDigest n _ | manifestExists n _ | tags n => some n
  | size handle | write handle _ _ | finish handle _ | cancel handle =>
    w.handles[handle]?.map Upload.name
  | blobExists _ | blobStat _ | blobOpen _ _ | catalog => none

/-- What an operation of a repository is about belongs to the repository, or is a blob. -/
theorem Touches.owner {w : World} {op : Operation} {n : RepositoryName} {f : Resource}
    (h : op.Touches w f) (hop : op.repository? w = some n) :
    f.owner? = some n ∨ ∃ digest, f = .blobData digest := by
  cases op with
  | start n' id now | cancelUpload n' id =>
    obtain rfl : n' = n := Option.some.inj hop
    rcases h with rfl | rfl <;> exact Or.inl rfl
  | mount n' digest =>
    obtain rfl : n' = n := Option.some.inj hop
    exact Or.inl (h ▸ rfl)
  | putManifest n' text document =>
    obtain rfl : n' = n := Option.some.inj hop
    obtain ⟨m, -, rfl | rfl | ⟨tag, -, rfl⟩⟩ := h
    · exact Or.inr ⟨_, rfl⟩
    · exact Or.inl rfl
    · exact Or.inl rfl
  | write handle offset source =>
    obtain ⟨u, hu, rfl⟩ := h
    rw [repository?, hu] at hop
    exact Or.inl hop
  | cancel handle =>
    obtain ⟨u, hu, hf⟩ := h
    rw [repository?, hu] at hop
    rcases hf with rfl | rfl <;> exact Or.inl hop
  | finish handle expected =>
    obtain ⟨u, hu, hf⟩ := h
    rw [repository?, hu] at hop
    rcases hf with rfl | rfl | rfl | rfl
    · exact Or.inl hop
    · exact Or.inl hop
    · exact Or.inr ⟨_, rfl⟩
    · exact Or.inl hop
  | _ => exact h.elim

end Operation

/-- What may come of a store when a repository is used. -/
structure Isolates (l : Layout) (n : RepositoryName) (t t' : MemoryStore) : Prop where
  /-- A file that is created, changed or removed is the repository's own or a new blob. -/
  confined : ∀ place, t'.files[place]? ≠ t.files[place]? →
    l.Owns n place ∨ (l.blobs.components <+: place ∧ t.files[place]? = none)
  /-- A stored blob stays, and stays as it is. -/
  writeOnce : ∀ place bytes, l.blobs.components <+: place → t.files[place]? = some bytes →
    t'.files[place]? = some bytes
  /-- The files of every other repository stay as they are. -/
  others : ∀ m place, m ≠ n → l.Owns m place → t'.files[place]? = t.files[place]?

/-- Where changes are confined, nothing else is in reach. -/
theorem Isolates.of_confined {l : Layout} {n : RepositoryName} {t t' : MemoryStore}
    (h : ∀ place, t'.files[place]? ≠ t.files[place]? →
      l.Owns n place ∨ (l.blobs.components <+: place ∧ t.files[place]? = none)) :
    Isolates l n t t' where
  confined := h
  writeOnce place bytes hblob hfile := by
    have hsame : t'.files[place]? = t.files[place]? := by
      refine Classical.byContradiction fun hchanged => ?_
      rcases h place hchanged with hown | ⟨-, hnone⟩
      · exact hown.not_blob hblob
      · cases hnone.symm.trans hfile
    exact hsame.trans hfile
  others m place hother hown := by
    refine Classical.byContradiction fun hchanged => ?_
    rcases h place hchanged with hown' | ⟨hblob, -⟩
    · exact hother (hown.unique hown')
    · exact hown.not_blob hblob

/-- Where two stores that are laid out differ, there is the place of a file. -/
theorem MemoryStore.LaidOut.exists_of_ne {l : Layout} {t t' : MemoryStore} (ht : t.LaidOut l)
    (ht' : t'.LaidOut l) {place : List Component} (h : t'.files[place]? ≠ t.files[place]?) :
    ∃ f : Resource, f.isFile = true ∧ place = (l.path f).components := by
  cases hfile : t.files[place]? with
  | some bytes => exact ht place bytes hfile
  | none =>
    obtain ⟨bytes, hfile'⟩ := Option.ne_none_iff_exists'.1 (hfile ▸ h)
    exact ht' place bytes hfile'

/-- **A repository is isolated.** What goes through it, or through a handle on one of its
uploads, changes its own files and adds blobs, and does nothing else to a store. -/
theorem Reachable.isolates {l : Layout} {w : World} (h : Reachable l w) {op : Operation}
    {n : RepositoryName} (hop : op.repository? w = some n) :
    Isolates l n w.store (w.after l MemoryStore.reliable w.store op).store := by
  have hdiffers := Session.act_differsIn (d := MemoryStore.reliable) (s := w.store) h.inv.laidOut
    trivial rfl op
  refine .of_confined fun place hchanged => ?_
  obtain ⟨f, hf, rfl⟩ := h.inv.laidOut.exists_of_ne hdiffers.laidOut hchanged
  -- a file that differs is among those that the operation may write
  obtain ⟨htouches, hwritable⟩ : op.Touches w f ∧ (False ∨ w.store.IsWritable l f) :=
    Classical.byContradiction fun hnot => hchanged (hdiffers.file? f hf hnot)
  rcases htouches.owner hop with hown | ⟨digest, rfl⟩
  · exact Or.inl (Layout.owns_path hf hown)
  · exact Or.inr ⟨Layout.blobs_isPrefix_path digest, hwritable.resolve_left id digest rfl⟩

/-- One repository finishes an upload of what another, in its directory, has stored already. -/
theorem Reachable.isolates_nested :
    ∃ w handle, Reachable default w ∧
      (∃ stored, w.store.file? (Layout.path default
        (.blobData (Digest.ofBytes .sha256 [1]))) = some stored) ∧
      (Operation.finish handle (Digest.ofBytes .sha256 [1])).repository? w =
        some ⟨"aa/bb", by decide⟩ ∧
      Isolates default ⟨"aa/bb", by decide⟩ w.store (w.after default MemoryStore.reliable w.store
        (.finish handle (Digest.ofBytes .sha256 [1]))).store := by
  obtain ⟨w, -, hw, -, hdrawn, ⟨stored, hblob⟩, -⟩ := Reachable.run_pushing (l := default) .empty
    ⟨"aa/bb/cc", by decide⟩ ⟨"00000000-0000-0000-0000-000000000001", by decide⟩
    (by simp [World.empty]) [1] .sha256
  obtain ⟨w', u, -, hw', hhandles, hname, -, -, -, -, -, hkept⟩ := hw.run_uploading
    ⟨"aa/bb", by decide⟩ ⟨"00000000-0000-0000-0000-000000000002", by decide⟩
    (by simp [hdrawn, World.empty]) [1]
  have hop : (Operation.finish w.handles.length (Digest.ofBytes .sha256 [1])).repository? w' =
      some ⟨"aa/bb", by decide⟩ := by
    rw [Operation.repository?, hhandles, List.getElem?_concat_length, Option.map_some, hname]
  exact ⟨w', w.handles.length, hw', ⟨stored, (hkept _ rfl rfl).trans hblob⟩, hop, hw'.isolates hop⟩

end ContainerRegistry
