/-
# A file tree that holds what a store in memory does

A tree reflects a store when the files beneath the directory of the driver are
those of the store, with their bytes, and there are no others. Directories are
left behind in the tree where the store knows of none: those above the driver's
directory, and those of the uploads of a repository. Each call of the local
driver then answers as the call in memory does, or fails with nothing found when
that one does, and leaves a tree that reflects the store again.

A file that is not the data of an upload is never written again, whatever becomes
of its name, so that what was opened there can still be read
(`LocalStore.Keeps`).

Key definitions: `MemoryStore.Tidy`, `Reflects`, `LocalStore.Keeps`, `Arrival`.
Key theorems: `Reflects.outcome_getContent`, `Reflects.outcome_stat`,
`Reflects.outcome_readStream`, `Arrival.reflects`, `Arrival.keeps`.
-/
import ContainerRegistry.Proofs.Calls
import ContainerRegistry.Proofs.Memory

namespace ContainerRegistry

open ContainerRegistry.Action

/-! ### Stores of a registry -/

namespace MemoryStore

/-- What holds of the files of a registry between any two calls. -/
structure Tidy (l : Layout) (t : MemoryStore) : Prop where
  laidOut : t.LaidOut l
  /-- A layer link holds the path of its blob. -/
  layer : ∀ n digest link, t.file? (l.path (.layerLink n digest)) = some link →
    link = Bytes.ofText (l.path (.blobData digest)).text
  /-- An upload with data has a start time. -/
  started : ∀ n id bytes, t.file? (l.path (.uploadData n id)) = some bytes →
    ∃ time, t.file? (l.path (.uploadStartedAt n id)) = some time

variable {l : Layout} {t : MemoryStore}

theorem tidy_empty : empty.Tidy l where
  laidOut := laidOut_empty
  layer _ _ _ h := absurd h (file?_empty_ne _ _)
  started _ _ _ h := absurd h (file?_empty_ne _ _)

theorem Tidy.put (h : t.Tidy l) {f : Resource} (hf : f.isFile = true) {bytes : Bytes}
    (hlayer : ∀ n digest, f = .layerLink n digest →
      bytes = Bytes.ofText (l.path (.blobData digest)).text)
    (hstarted : ∀ n id, f = .uploadData n id →
      ∃ time, t.file? (l.path (.uploadStartedAt n id)) = some time) :
    (t.put (l.path f) bytes).Tidy l where
  laidOut := h.laidOut.put hf bytes
  layer n digest link hlink := by
    rw [file?_put_path hf] at hlink
    split at hlink
    · rename_i he
      rw [← Option.some.inj hlink]
      exact hlayer n digest he.symm
    · exact h.layer n digest link hlink
  started n id content hdata := by
    rw [file?_put_path hf] at hdata ⊢
    by_cases he : Resource.uploadStartedAt n id = f
    · exact ⟨bytes, if_pos he⟩
    · rw [if_neg he]
      split at hdata
      · rename_i he
        exact hstarted n id he.symm
      · exact h.started n id content hdata

/-- Data that moves into the blob store leaves the start time behind. -/
theorem Tidy.move (h : t.Tidy l) {n : RepositoryName} {id : UploadId} {digest : Digest}
    {bytes : Bytes} (hdata : t.file? (l.path (.uploadData n id)) = some bytes) :
    (t.move (l.path (.uploadData n id)) (l.path (.blobData digest))).Tidy l := by
  have hfile := h.laidOut.file?_move (b := .blobData digest) rfl rfl (by simp) hdata
  constructor
  case laidOut => exact h.laidOut.move rfl rfl (by simp) hdata
  case layer =>
    intro n' digest' link hlink
    rw [hfile, if_neg (by simp), if_neg (by simp)] at hlink
    exact h.layer n' digest' link hlink
  case started =>
    intro n' id' content hcontent
    rw [hfile, if_neg (by simp)] at hcontent ⊢
    rw [if_neg (by simp)]
    split at hcontent
    · cases hcontent
    · exact h.started n' id' content hcontent

theorem Tidy.remove (h : t.Tidy l) (n : RepositoryName) (id : UploadId) :
    (t.remove (l.path (.upload n id))).Tidy l where
  laidOut := h.laidOut.remove _
  layer n' digest link hlink := by
    rw [file?_remove_upload n id rfl, if_neg (by simp)] at hlink
    exact h.layer n' digest link hlink
  started n' id' bytes hdata := by
    rw [file?_remove_upload n id rfl] at hdata ⊢
    split at hdata
    · cases hdata
    · rename_i hkept
      rw [if_neg (by simpa using hkept)]
      exact h.started n' id' bytes hdata

end MemoryStore

/-! ### Trees that reflect a store -/

/-- The directories that may be in a tree: those above the driver's directory, those
above a file, and those that hold or held uploads. -/
def LocalStore.Place.Reaches (place : LocalStore.Place) (t : MemoryStore) (q : List String) :
    Prop :=
  q <+: place.root ∨
    (∃ f bytes, f.isFile = true ∧ t.file? (Layout.standard.path f) = some bytes ∧
      q <+: place.beneath f.place) ∨
    ∃ n, q <+: place.beneath (Resource.within n ["_uploads"])

/-- A tree holds what a store in memory does. -/
structure Reflects (place : LocalStore.Place) (t : MemoryStore) (s : LocalStore) : Prop where
  tidy : t.Tidy Layout.standard
  sound : s.disk.Sound
  content : ∀ f, f.isFile = true →
    s.disk.content? (place.beneath f.place) = t.file? (Layout.standard.path f)
  file : ∀ q id, s.disk.entryAt? q = some (.file id) →
    ∃ f : Resource, f.isFile = true ∧ q = place.beneath f.place
  directory : ∀ q, s.disk.entryAt? q = some .directory → place.Reaches t q

/-- No file lies above the directory of the uploads of a repository. -/
theorem Resource.not_isPrefix_uploads {f : Resource} (hf : f.isFile = true) (n : RepositoryName) :
    ¬ f.place <+: within n ["_uploads"] := by
  intro h
  cases hn : f.owner? with
  | none =>
    rw [place, hn] at h
    cases f <;> simp_all [isFile, entry, within, List.cons_prefix_cons]
  | some n' =>
    rcases entry_isMarked hn with rfl | ⟨m, rest, he, hm⟩
    · simp [isFile] at hf
    · rw [place, hn, he] at h
      obtain ⟨-, hpre⟩ := within_isPrefix hm (by decide) h
      rw [← he] at hpre
      have := hpre.length_le
      cases f <;> simp_all [isFile, entry]

theorem Resource.place_ne_nil {f : Resource} (hf : f.isFile = true) :
    ∃ dir last, f.place = dir ++ [last] := by
  refine (List.eq_nil_or_concat' f.place).resolve_left fun h => ?_
  rw [place] at h
  cases hn : f.owner? with
  | none =>
    rw [hn] at h
    cases f <;> simp_all [isFile, entry]
  | some n =>
    rw [hn] at h
    simp [within] at h

/-- Files with one place are one file. -/
theorem Resource.eq_of_place {a b : Resource} (ha : a.isFile = true) (h : a.place = b.place) :
    a = b :=
  eq_of_place_isPrefix ha (h ▸ List.prefix_rfl)

namespace Reflects

variable {place : LocalStore.Place} {t : MemoryStore} {s : LocalStore} {f : Resource}

theorem entryAt?_of_some (h : Reflects place t s) (hf : f.isFile = true) {bytes : Bytes}
    (hfile : t.file? (Layout.standard.path f) = some bytes) :
    ∃ id, s.disk.entryAt? (place.beneath f.place) = some (.file id) ∧ s.disk.bytes id = bytes :=
  Disk.exists_of_content? ((h.content f hf).trans hfile)

theorem file?_of_entry (h : Reflects place t s) (hf : f.isFile = true) {id : Nat}
    (he : s.disk.entryAt? (place.beneath f.place) = some (.file id)) :
    t.file? (Layout.standard.path f) = some (s.disk.bytes id) := by
  rw [← h.content f hf, Disk.content?_of_file he]

/-- Where a file belongs there is no directory. -/
theorem not_directory (h : Reflects place t s) (hf : f.isFile = true) :
    s.disk.entryAt? (place.beneath f.place) ≠ some .directory := by
  intro he
  rcases h.directory _ he with hroot | ⟨g, bytes, hg, hfile, hpre⟩ | ⟨n, hpre⟩
  · exact place.not_beneath_isPrefix_root _ hroot
  · obtain rfl := Resource.eq_of_place_isPrefix hf (place.beneath_isPrefix_iff.1 hpre)
    obtain ⟨id, hid, -⟩ := h.entryAt?_of_some hg hfile
    cases he.symm.trans hid
  · exact Resource.not_isPrefix_uploads hf n (place.beneath_isPrefix_iff.1 hpre)

/-- No file stands above a resource. -/
theorem isClear (h : Reflects place t s) (r : Resource) :
    s.disk.IsClear (place.beneath r.place) := by
  intro q hq hne id he
  obtain ⟨g, hg, rfl⟩ := h.file q id he
  obtain rfl := Resource.eq_of_place_isPrefix hg (place.beneath_isPrefix_iff.1 hq)
  exact hne rfl

/-- What lies beneath the root has plain names. -/
theorem isPlain_of_entry (h : Reflects place t s) {names : List String} {e : Entry}
    (he : s.disk.entryAt? (place.beneath names) = some e) : ∀ x ∈ names, Path.IsPlain x := by
  intro x hx
  cases e with
  | file id =>
    obtain ⟨g, -, hg⟩ := h.file _ id he
    exact Resource.isPlain_of_mem_place (r := g) (place.beneath_injective hg ▸ hx)
  | directory =>
    rcases h.directory _ he with hroot | ⟨g, bytes, -, -, hpre⟩ | ⟨n, hpre⟩
    · exact absurd hroot (place.not_beneath_isPrefix_root _)
    · exact Resource.isPlain_of_mem_place (r := g) ((place.beneath_isPrefix_iff.1 hpre).subset hx)
    · have hmem := (place.beneath_isPrefix_iff.1 hpre).subset hx
      simp only [Resource.within, List.mem_cons, List.mem_append, List.not_mem_nil,
        or_false] at hmem
      rcases hmem with rfl | hmem | rfl
      · decide
      · exact RepositoryName.isPlain_of_mem_components hmem
      · decide

/-- No name that starts with a dot is taken. -/
theorem entryAt?_hidden (h : Reflects place t s) (dir : List String) {x : String}
    (hx : x.toList.head? = some '.') : s.disk.entryAt? (place.beneath (dir ++ [x])) = none :=
  Option.eq_none_iff_forall_ne_some.2 fun _ he =>
    (h.isPlain_of_entry he x (by simp)).head_ne_dot hx

/-! ### Calls that ask -/

theorem outcome_look (h : Reflects place t s) (hu : place.IsUsable) (r : Resource) :
    (Disk.look (.ofNames (place.beneath r.place))).outcome s.disk =
      match s.disk.entryAt? (place.beneath r.place) with
      | some e => (.ok (place.beneath r.place, e), s.disk)
      | none => (.error (.system .noEntry), s.disk) :=
  Disk.outcome_look h.sound (hu.fits r) (h.isClear r)

theorem finds (h : Reflects place t s) (hu : place.IsUsable) (hf : f.isFile = true) :
    LocalStore.Finds place s (Layout.standard.path f) (place.beneath f.place) where
  sound := h.sound
  spells := by
    rw [LocalStore.Place.route_path]
    exact (hu.fits f).spells
  isClear := h.isClear f
  not_directory := h.not_directory hf

theorem outcome_getContent (h : Reflects place t s) (hu : place.IsUsable) (hf : f.isFile = true) :
    (LocalStore.getContent place (Layout.standard.path f)).outcome s =
      match t.file? (Layout.standard.path f) with
      | some bytes => (.ok bytes, s)
      | none => (.error (LocalStore.missing (Layout.standard.path f) "read"), s) := by
  have houtcome := (h.finds hu hf).outcome_getContent
  rw [h.content f hf] at houtcome
  exact houtcome

theorem outcome_stat (h : Reflects place t s) (hu : place.IsUsable) (hf : f.isFile = true) :
    (LocalStore.stat place (Layout.standard.path f)).outcome s =
      match t.file? (Layout.standard.path f) with
      | some bytes => (.ok ⟨bytes.length, false⟩, s)
      | none => (.error (LocalStore.missing (Layout.standard.path f) "metadata"), s) := by
  have houtcome := (h.finds hu hf).outcome_stat
  rw [h.content f hf] at houtcome
  exact houtcome

/-- A file is opened by its identity. -/
theorem outcome_readStream (h : Reflects place t s) (hu : place.IsUsable) (hf : f.isFile = true)
    {bytes : Bytes} (hfile : t.file? (Layout.standard.path f) = some bytes) {offset : Nat}
    (hoffset : offset ≤ bytes.length) :
    ∃ id, s.disk.entryAt? (place.beneath f.place) = some (.file id) ∧ s.disk.bytes id = bytes ∧
      (LocalStore.readStream place (Layout.standard.path f) offset).outcome s =
        (.ok ⟨some id, offset, []⟩, s) := by
  obtain ⟨id, he, rfl⟩ := h.entryAt?_of_some hf hfile
  refine ⟨id, he, rfl, ?_⟩
  rw [(h.finds hu hf).outcome_readStream he, if_neg (Nat.not_lt.2 hoffset)]

end Reflects

/-! ### Open files -/

namespace LocalStore

/-- A file has these bytes, and no upload writes to it any more. -/
def Holds (place : Place) (s : LocalStore) (id : Nat) (bytes : Bytes) : Prop :=
  id < s.disk.nextId ∧ s.disk.bytes id = bytes ∧
    ∀ n u, s.disk.entryAt? (place.beneath (Resource.uploadData n u).place) ≠ some (.file id)

/-- Files that no upload writes to keep their bytes. -/
def Keeps (place : Place) (s s' : LocalStore) : Prop :=
  ∀ id bytes, s.Holds place id bytes → s'.Holds place id bytes

theorem Keeps.refl {place : Place} (s : LocalStore) : s.Keeps place s :=
  fun _ _ h => h

theorem Keeps.trans {place : Place} {s s' s'' : LocalStore} (h : s.Keeps place s')
    (h' : s'.Keeps place s'') : s.Keeps place s'' :=
  fun id bytes hold => h' id bytes (h id bytes hold)

end LocalStore

namespace Reflects

variable {place : LocalStore.Place} {t : MemoryStore} {s : LocalStore} {f : Resource}

/-- The file of a blob is not the data of an upload. -/
theorem holds (h : Reflects place t s) {digest : Digest} {id : Nat}
    (he : s.disk.entryAt? (place.beneath (Resource.blobData digest).place) = some (.file id)) :
    s.Holds place id (s.disk.bytes id) := by
  refine ⟨h.sound.fresh he, rfl, fun n u hdata => ?_⟩
  cases Resource.eq_of_place rfl (place.beneath_injective (h.sound.lone he hdata))

end Reflects

/-! ### Files that arrive -/

/-- A file arrives in a store and in a tree, with the directories above it. Its bytes
are new, or they come from another file, which is gone then. -/
structure Arrival (place : LocalStore.Place) (t t' : MemoryStore) (s s' : LocalStore)
    (f : Resource) (old : Option Resource) (id : Nat) (bytes : Bytes) : Prop where
  isFile : f.isFile = true
  tidy : t'.Tidy Layout.standard
  sound : s'.disk.Sound
  files : ∀ g, t'.file? (Layout.standard.path g) =
    if g = f then some bytes else if old = some g then none else t.file? (Layout.standard.path g)
  entryAt? : ∀ q, s'.disk.entryAt? q =
    if q = place.beneath f.place then some (.file id)
    else if q <+: place.beneath f.place then some .directory
    else if old.map (fun a => place.beneath a.place) = some q then none
    else s.disk.entryAt? q
  bytes : s'.disk.bytes id = bytes
  kept : ∀ q id', q ≠ place.beneath f.place → s.disk.entryAt? q = some (.file id') →
    s'.disk.bytes id' = s.disk.bytes id'
  /-- Where a file goes from, another stays in the directory. -/
  above : ∀ a, old = some a → a.isFile = true ∧ ∃ g bytes, g.isFile = true ∧ g ≠ a ∧
    t.file? (Layout.standard.path g) = some bytes ∧ a.place.dropLast <+: g.place

namespace Arrival

variable {place : LocalStore.Place} {t t' : MemoryStore} {s s' : LocalStore} {f : Resource}
  {old : Option Resource} {id : Nat} {bytes : Bytes}

theorem file?_self (a : Arrival place t t' s s' f old id bytes) :
    t'.file? (Layout.standard.path f) = some bytes := by
  rw [a.files, if_pos rfl]

/-- What else was stored is stored still, unless it is where the file comes from. -/
theorem file?_stored (a : Arrival place t t' s s' f old id bytes) {g : Resource}
    (hg : ∃ content, t.file? (Layout.standard.path g) = some content) (hold : old ≠ some g) :
    ∃ content, t'.file? (Layout.standard.path g) = some content := by
  by_cases hgf : g = f
  · exact ⟨bytes, hgf ▸ a.file?_self⟩
  · rw [a.files, if_neg hgf, if_neg hold]
    exact hg

theorem content (a : Arrival place t t' s s' f old id bytes) (h : Reflects place t s)
    {g : Resource} (hg : g.isFile = true) :
    s'.disk.content? (place.beneath g.place) = t'.file? (Layout.standard.path g) := by
  -- places tell resources apart
  have hself : place.beneath g.place = place.beneath f.place ↔ g = f :=
    ⟨fun he => Resource.eq_of_place hg (place.beneath_injective he), fun he => he ▸ rfl⟩
  have hgone : old.map (fun a => place.beneath a.place) = some (place.beneath g.place) ↔
      old = some g := by
    rw [Option.map_eq_some_iff]
    constructor
    · rintro ⟨b, hb, hplace⟩
      exact hb.trans (congrArg some
        (Resource.eq_of_place (a.above b hb).1 (place.beneath_injective hplace)))
    · exact fun hold => ⟨g, hold, rfl⟩
  rw [Disk.content?_arrived a.entryAt? (h.isClear f) fun hne _ he => a.kept _ _ hne he, a.bytes,
    h.content g hg, a.files]
  simp only [hself, hgone]

/-- The directories above a file that has gone are those above another. -/
theorem reaches_old (a : Arrival place t t' s s' f old id bytes) (h : Reflects place t s)
    {g : Resource} (hold : old = some g) {q : List String} (hq : q <+: place.beneath g.place)
    (hdir : s.disk.entryAt? q = some .directory) : place.Reaches t' q := by
  obtain ⟨hg, g', content, hg', hne, hcontent, hpre⟩ := a.above g hold
  obtain ⟨dir, last, hplace⟩ := Resource.place_ne_nil hg
  have hstrict : q ≠ place.beneath g.place := fun he => h.not_directory hg (he ▸ hdir)
  rw [hplace, List.dropLast_concat] at hpre
  rw [hplace, place.beneath_append] at hq hstrict
  have hq' : q <+: place.beneath g'.place :=
    ((List.prefix_concat_iff.1 hq).resolve_left hstrict).trans
      (place.beneath_isPrefix_iff.2 hpre)
  obtain ⟨content', hcontent'⟩ :=
    a.file?_stored ⟨content, hcontent⟩ (by simpa [hold] using Ne.symm hne)
  exact Or.inr (Or.inl ⟨g', content', hg', hcontent', hq'⟩)

theorem reaches (a : Arrival place t t' s s' f old id bytes) (h : Reflects place t s)
    {q : List String} (he : s'.disk.entryAt? q = some .directory) : place.Reaches t' q := by
  rcases Disk.directory_of_arrived a.entryAt? he with ⟨hpre, -⟩ | he
  · exact Or.inr (Or.inl ⟨f, bytes, a.isFile, a.file?_self, hpre⟩)
  rcases h.directory q he with hroot | ⟨g, content, hg, hcontent, hpre⟩ | huploads
  · exact Or.inl hroot
  · by_cases hold : old = some g
    · exact a.reaches_old h hold hpre he
    · obtain ⟨content', hcontent'⟩ := a.file?_stored ⟨content, hcontent⟩ hold
      exact Or.inr (Or.inl ⟨g, content', hg, hcontent', hpre⟩)
  · exact Or.inr (Or.inr huploads)

/-- **The tree reflects the store again.** -/
theorem reflects (a : Arrival place t t' s s' f old id bytes) (h : Reflects place t s) :
    Reflects place t' s' where
  tidy := a.tidy
  sound := a.sound
  content _ hg := a.content h hg
  file q id' he := by
    rcases Disk.file_of_arrived a.entryAt? he with ⟨hq, -⟩ | ⟨-, he⟩
    · exact ⟨f, a.isFile, hq⟩
    · exact h.file q id' he
  directory _ he := a.reaches h he

/-- Open files keep their bytes, unless it is one of them that arrives as the data of
an upload. -/
theorem keeps (a : Arrival place t t' s s' f old id bytes)
    (hnext : s.disk.nextId ≤ s'.disk.nextId)
    (hbytes : ∀ id' content, s.Holds place id' content → s'.disk.bytes id' = content)
    (hid : ∀ n u, f = .uploadData n u → ∀ content, ¬ s.Holds place id content) :
    s.Keeps place s' := by
  intro id' content hholds
  have ⟨hlt, _, hapart⟩ := hholds
  refine ⟨Nat.lt_of_lt_of_le hlt hnext, hbytes id' content hholds, fun n u he => ?_⟩
  rcases Disk.file_of_arrived a.entryAt? he with ⟨hq, rfl⟩ | ⟨-, he⟩
  · exact hid n u (Resource.eq_of_place rfl (place.beneath_injective hq)).symm content hholds
  · exact hapart n u he

end Arrival
end ContainerRegistry
