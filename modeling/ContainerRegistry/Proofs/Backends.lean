/-
# A client cannot tell the storages of a registry apart

A client of a registry in memory and a client of one on a fresh directory, both under
the default root, that make the same requests get the same answers, and after each
request the files of both storages are the same. The identifiers and times that
requests come with are the same for both; the readers that are written from do not fail,
and the system takes the routes of the registry's files.

A single read from a directory may come back short, where memory fills the room there
is. What it gives is then what memory would have given for as many bytes, and all that
follows is the same again.

Key definitions: `MemoryStore.fileSet`, `LocalStore.fileSet`, `Client.Alike`,
`Client.Indistinguishable`.
Key theorems: `Reflects.fileSet_eq`, `LocalStore.reflects_fresh`, `Client.Alike.step`,
`Client.run_indistinguishable`.
-/
import ContainerRegistry.Proofs.Browsing
import ContainerRegistry.Proofs.Client
import ContainerRegistry.Proofs.Streaming

namespace ContainerRegistry

open ContainerRegistry.Action

/-- The files of a store, by the components of their paths. -/
def MemoryStore.fileSet (t : MemoryStore) : Set (List Component × Bytes) :=
  {file | t.files[file.1]? = some file.2}

/-- The files beneath the directory of a local driver, by the components of their paths. -/
def LocalStore.fileSet (place : LocalStore.Place) (s : LocalStore) :
    Set (List Component × Bytes) :=
  {file | ∃ names id, file.1 = .root :: names.map .name ∧
    s.disk.entryAt? (place.root ++ names) = some (.file id) ∧ file.2 = s.disk.bytes id}

/-! ### Lists that are related entry by entry -/

section Lists

variable {α β : Type} {R : α → β → Prop} {xs : List α} {ys : List β}

theorem forall₂_getElem? (h : List.Forall₂ R xs ys) (n : Nat) :
    (xs[n]? = none ∧ ys[n]? = none) ∨ ∃ x y, xs[n]? = some x ∧ ys[n]? = some y ∧ R x y := by
  induction h generalizing n with
  | nil => exact Or.inl ⟨rfl, rfl⟩
  | @cons x y _ _ hxy _ ih =>
    cases n with
    | zero => exact Or.inr ⟨x, y, rfl, rfl, hxy⟩
    | succ n => simpa using ih n

theorem forall₂_set (h : List.Forall₂ R xs ys) (n : Nat) {x : α} {y : β} (hxy : R x y) :
    List.Forall₂ R (xs.set n x) (ys.set n y) := by
  induction h generalizing n with
  | nil => exact .nil
  | cons h hs ih =>
    cases n with
    | zero => exact .cons hxy hs
    | succ n => exact .cons h (ih n)

end Lists

section Clients

variable {place : LocalStore.Place} {t : MemoryStore} {s : LocalStore}

/-- **A tree that reflects a store has its files.** -/
theorem Reflects.fileSet_eq (h : Reflects place t s) : t.fileSet = s.fileSet place := by
  have hpath : ∀ f : Resource, (Layout.standard.path f).components =
      .root :: (Layout.rootNames ++ f.place).map .name := fun f => by
    rw [Layout.path_eq_ofNames, MemoryStore.components_place fun x hx =>
      (Resource.isPlain_of_mem_place hx).isName]
  ext ⟨components, bytes⟩
  constructor
  · intro hfile
    obtain ⟨f, hf, rfl⟩ := h.tidy.laidOut components bytes hfile
    obtain ⟨id, he, rfl⟩ := h.entryAt?_of_some hf hfile
    exact ⟨Layout.rootNames ++ f.place, id, hpath f, he, rfl⟩
  · rintro ⟨names, id, rfl, he, rfl⟩
    obtain ⟨f, hf, hplace⟩ := h.file _ id he
    obtain rfl : names = Layout.rootNames ++ f.place := List.append_cancel_left hplace
    show t.files[_]? = _
    rw [← hpath]
    exact h.file?_of_entry hf he

/-! ### A fresh directory -/

theorem Disk.entryAt?_foldl_addDirectory : ∀ (places : List (List String)) (d : Disk)
    (q : List String), (∀ p ∈ places, p ≠ []) → (places.foldl addDirectory d).entryAt? q =
      if q ∈ places then some .directory else d.entryAt? q
  | [], d, q, _ => by simp
  | p :: places, d, q, h => by
    rw [List.foldl_cons, entryAt?_foldl_addDirectory places _ q fun p hp =>
      h p (List.mem_cons_of_mem _ hp), entryAt?_addDirectory (h p List.mem_cons_self)]
    by_cases hq : q = p
    · simp [hq]
    · simp [hq]

/-- In a fresh tree there are the directories above the root, with or without it. -/
theorem LocalStore.entryAt?_fresh (place : LocalStore.Place) (withRoot : Bool) :
    ∃ above, above <+: place.root ∧ ∀ q, (LocalStore.fresh place withRoot).disk.entryAt? q =
      if q <+: above then some .directory else none := by
  obtain ⟨above, habove⟩ :
      ∃ above, above = if withRoot then place.root else place.root.dropLast := ⟨_, rfl⟩
  refine ⟨above, ?_, fun q => ?_⟩
  · rw [habove]
    split
    · exact List.prefix_rfl
    · exact List.dropLast_prefix _
  simp only [LocalStore.fresh, ← habove]
  have hmem : ∀ q, q ∈ (List.range above.length).map (fun n => above.take (n + 1)) ↔
      q <+: above ∧ q ≠ [] := by
    intro q
    rw [List.mem_map]
    constructor
    · rintro ⟨n, hn, rfl⟩
      refine ⟨List.take_prefix _ _, fun h => ?_⟩
      have hlength := congrArg List.length h
      rw [List.mem_range] at hn
      simp only [List.length_take, List.length_nil] at hlength
      omega
    · rintro ⟨hpre, hne⟩
      have hpos : 0 < q.length := List.length_pos_iff.2 hne
      refine ⟨q.length - 1, ?_, ?_⟩
      · have := hpre.length_le
        rw [List.mem_range]
        omega
      · rw [Nat.sub_add_cancel hpos, ← List.prefix_iff_eq_take.1 hpre]
  rw [Disk.entryAt?_foldl_addDirectory _ _ _ fun p hp => ((hmem p).1 hp).2]
  simp only [hmem]
  by_cases hq : q = []
  · subst hq
    simp [Disk.entryAt?]
  · simp [hq, Disk.entryAt?, Disk.empty]

/-- **A fresh directory reflects the empty store**, whether it is there yet or not. -/
theorem LocalStore.reflects_fresh (place : LocalStore.Place) (withRoot : Bool) :
    Reflects place .empty (LocalStore.fresh place withRoot) := by
  obtain ⟨above, habove, hentry⟩ := LocalStore.entryAt?_fresh place withRoot
  have hfile : ∀ q id, (LocalStore.fresh place withRoot).disk.entryAt? q ≠ some (.file id) := by
    intro q id he
    rw [hentry] at he
    split at he <;> cases he
  constructor
  case tidy => exact MemoryStore.tidy_empty
  case sound =>
    constructor
    case parent =>
      intro p x e he
      rw [hentry] at he ⊢
      split at he
      · rename_i hpre
        rw [if_pos ((List.prefix_append _ _).trans hpre)]
      · cases he
    case fresh => exact fun he => absurd he (hfile _ _)
    case lone => exact fun he => absurd he (hfile _ _)
  case content =>
    intro f _
    rw [Disk.content?_eq_none (hfile _), eq_comm, Option.eq_none_iff_forall_ne_some]
    exact fun bytes => MemoryStore.file?_empty_ne _ bytes
  case file => exact fun q id he => absurd he (hfile q id)
  case directory =>
    intro q he
    rw [hentry] at he
    split at he
    · rename_i hpre
      exact Or.inl (hpre.trans habove)
    · cases he

/-! ### Clients that are told the same -/

namespace Client

/-- A client of the registry in memory and one on a tree that reflects its store, with the
same handles and with readers that have yet to give the same. -/
structure Alike (place : LocalStore.Place) (c : Client MemoryStore Bytes)
    (c' : Client LocalStore FileStream) : Prop where
  reflects : Reflects place c.storage c'.storage
  handles : c.handles = c'.handles
  readers : List.Forall₂ (BlobReader.ReadsAlike place c'.storage) c.readers c'.readers

/-- The same answer, and clients that are alike. -/
def StepsAlike (place : LocalStore.Place) (x : Answer × Client MemoryStore Bytes)
    (y : Answer × Client LocalStore FileStream) : Prop :=
  x.1 = y.1 ∧ Alike place x.2 y.2

namespace Alike

variable {c : Client MemoryStore Bytes} {c' : Client LocalStore FileStream} {α : Type}

/-- Storages that have changed alike. -/
theorem follows (h : Alike place c c') (hf : Follows place c'.storage t s) (handles : List Upload) :
    Alike place ⟨t, handles, c.readers⟩ ⟨s, handles, c'.readers⟩ where
  reflects := hf.1
  handles := rfl
  readers := h.readers.imp fun _ _ hreads => hreads.keeps hf.2

theorem asks (h : Alike place c c') {a : RegistryAction MemoryStore α}
    {b : RegistryAction LocalStore α}
    (hab : ContainerRegistry.Alike (Follows place c'.storage) (a.outcome c.storage)
      (b.outcome c'.storage)) (reply : α → Reply) :
    StepsAlike place (c.asks a reply) (c'.asks b reply) := by
  simp only [Client.asks]
  revert hab
  generalize a.outcome c.storage = x, b.outcome c'.storage = y
  intro hab
  rw [h.handles]
  cases hab with
  | ok hab => exact ⟨by rw [hab.1], h.follows hab.2 _⟩
  | error hab => exact ⟨rfl, h.follows hab _⟩

theorem starts (h : Alike place c c') {a : RegistryAction MemoryStore Upload}
    {b : RegistryAction LocalStore Upload}
    (hab : ContainerRegistry.Alike (Follows place c'.storage) (a.outcome c.storage)
      (b.outcome c'.storage)) : StepsAlike place (c.starts a) (c'.starts b) := by
  simp only [Client.starts]
  revert hab
  generalize a.outcome c.storage = x, b.outcome c'.storage = y
  intro hab
  rw [h.handles]
  cases hab with
  | ok hab =>
    obtain ⟨rfl, hab⟩ := hab
    exact ⟨rfl, h.follows hab _⟩
  | error hab => exact ⟨rfl, h.follows hab _⟩

theorem opens (h : Alike place c c') {a : RegistryAction MemoryStore (BlobReader Bytes)}
    {b : RegistryAction LocalStore (BlobReader FileStream)}
    (hab : Agree (fun b b' t' s' => BlobReader.ReadsAlike place s' b b' ∧
        Follows place c'.storage t' s') (Follows place c'.storage) (a.outcome c.storage)
      (b.outcome c'.storage)) : StepsAlike place (c.opens a) (c'.opens b) := by
  simp only [Client.opens]
  revert hab
  generalize a.outcome c.storage = x, b.outcome c'.storage = y
  intro hab
  rw [h.handles]
  cases hab with
  | ok hab =>
    refine ⟨congrArg Except.ok (congrArg₂ Reply.reader hab.1.descriptor hab.1.position), hab.2.1,
      rfl, ?_⟩
    exact List.rel_append (h.follows hab.2 []).readers (.cons hab.1 .nil)
  | error hab => exact ⟨rfl, h.follows hab _⟩

theorem uses (h : Alike place c c') {a : UploadAction MemoryStore α}
    {b : UploadAction LocalStore α}
    (hab : ∀ u, ContainerRegistry.Alike (Upload.Follows place c'.storage)
      (a.outcome (u, c.storage)) (b.outcome (u, c'.storage))) (handle : Nat) (reply : α → Reply) :
    StepsAlike place (c.uses handle a reply) (c'.uses handle b reply) := by
  simp only [Client.uses]
  rw [h.handles]
  cases c'.handles[handle]? with
  | none => exact ⟨rfl, h⟩
  | some u =>
    simp only
    have hu := hab u
    revert hu
    generalize a.outcome (u, c.storage) = x, b.outcome (u, c'.storage) = y
    intro hu
    cases hu with
    | ok hu => exact ⟨by rw [hu.1], by rw [hu.2.1]; exact h.follows hu.2.2 _⟩
    | error hu => exact ⟨rfl, by rw [hu.1]; exact h.follows hu.2 _⟩

theorem pulls (h : Alike place c c') {reader : Nat}
    {pull : BlobReader Bytes → MemoryStore → Except RegistryError Bytes × BlobReader Bytes}
    {pull' : BlobReader FileStream → LocalStore →
      Except RegistryError Bytes × BlobReader FileStream}
    (hpull : ∀ b b', c.readers[reader]? = some b → c'.readers[reader]? = some b' →
      BlobReader.ReadsAlike place c'.storage b b' →
      (pull b c.storage).1 = (pull' b' c'.storage).1 ∧
        BlobReader.ReadsAlike place c'.storage (pull b c.storage).2 (pull' b' c'.storage).2) :
    StepsAlike place (c.pulls reader pull) (c'.pulls reader pull') := by
  simp only [Client.pulls]
  rcases forall₂_getElem? h.readers reader with ⟨hb, hb'⟩ | ⟨b, b', hb, hb', hreads⟩
  · rw [hb, hb']
    exact ⟨rfl, h⟩
  · obtain ⟨hbytes, hreads'⟩ := hpull b b' hb hb' hreads
    rw [hb, hb']
    exact ⟨congrArg (Except.map Reply.bytes) hbytes, h.reflects, h.handles,
      forall₂_set h.readers reader hreads'⟩

/-- **A single read is answered as one for the bytes that came.** -/
theorem read (h : Alike place c c') (reader count : Nat) :
    ∃ got, got ≤ count ∧ (0 < count → 0 < got) ∧
      StepsAlike place (c.step Layout.standard.inMemory (.read reader got))
        (c'.step place.registry (.read reader count)) := by
  rcases forall₂_getElem? h.readers reader with ⟨hb, hb'⟩ | ⟨b, b', hb, hb', hreads⟩
  · refine ⟨count, Nat.le_refl _, id, h.pulls fun x _ hx => ?_⟩
    cases hb.symm.trans hx
  · obtain ⟨got, hle, hpos, hread⟩ := hreads.read (t := c.storage) count
    refine ⟨got, hle, hpos, h.pulls fun x x' hx hx' _ => ?_⟩
    obtain rfl := Option.some.inj (hb.symm.trans hx)
    obtain rfl := Option.some.inj (hb'.symm.trans hx')
    exact hread

theorem act (h : Alike place c c') (hu : place.IsUsable) (op : Operation)
    (hop : (Request.operation op).IsSound) :
    StepsAlike place (c.act Layout.standard.inMemory op) (c'.act place.registry op) := by
  have hf : Follows place c'.storage c.storage c'.storage := .refl h.reflects
  cases op with
  | start n id now => exact h.starts (Upload.start_agrees hf hu n id now)
  | resume n id => exact h.starts ((Upload.asks_resume hf.1 hu n id).alike hf)
  | size handle => exact h.uses (fun u => (Upload.asks_size hf.1 hu).alike ⟨rfl, hf⟩) handle _
  | write handle offset source =>
    exact h.uses (fun u => Upload.write_agrees hf hu offset hop) handle _
  | finish handle expected => exact h.uses (fun u => Upload.finish_agrees hf hu expected) handle _
  | cancel handle => exact h.uses (fun u => Upload.cancel_agrees hf hu) handle _
  | cancelUpload n id => exact h.asks (Upload.remove_agrees hf hu n id) _
  | mount n digest => exact h.asks (Repository.mount_agrees hf hu digest) _
  | putManifest n tag document =>
    simp only [Client.act]
    cases SignedManifest.parse document with
    | error e => exact ⟨rfl, h⟩
    | ok m => exact h.asks (Repository.putManifest_agrees hf hu tag m) _
  | deleteManifest n reference => exact h.asks ((Asks.throw _).alike hf) _
  | blobExists digest => exact h.asks ((Registry.asks_blobExists hf.1 hu digest).alike hf) _
  | blobStat digest => exact h.asks ((Registry.asks_blobStat hf.1 hu digest).alike hf) _
  | blobOpen digest offset => exact h.opens (Registry.blobOpen_agrees hf hu digest offset)
  | layerExists n digest => exact h.asks ((Repository.asks_layerExists hf.1 hu digest).alike hf) _
  | layerStat n digest => exact h.asks ((Repository.asks_layerStat hf.1 hu digest).alike hf) _
  | layerOpen n digest offset => exact h.opens (Repository.layerOpen_agrees hf hu n digest offset)
  | resolveTag n tag => exact h.asks ((Repository.asks_resolveTag hf.1 hu tag).alike hf) _
  | manifest n tag => exact h.asks ((Repository.asks_manifest hf.1 hu tag).alike hf) _
  | manifestByDigest n digest =>
    exact h.asks ((Repository.asks_manifestByDigest hf.1 hu digest).alike hf) _
  | manifestExists n tag => exact h.asks ((Repository.asks_manifestExists hf.1 hu tag).alike hf) _
  | tags n => exact h.asks ((Repository.asks_tags hf.1 hu n).alike hf) _
  | catalog => exact h.asks ((Registry.asks_catalog hf.1 hu).alike hf) _

/-- **A request is answered the same**, or as a shorter read is, and leaves clients that are
alike. -/
theorem step (h : Alike place c c') (hu : place.IsUsable) {q : Request} (hq : q.IsSound) :
    ∃ q', q.Shortens q' ∧
      StepsAlike place (c.step Layout.standard.inMemory q') (c'.step place.registry q) := by
  cases q with
  | read reader count =>
    obtain ⟨got, hle, hpos, halike⟩ := h.read reader count
    exact ⟨.read reader got, .read reader hle hpos, halike⟩
  | repository name =>
    refine ⟨_, .refl _, ?_, h⟩
    simp only [Client.step, Registry.repository]
    cases RepositoryName.parse name <;> rfl
  | operation op => exact ⟨_, .refl _, h.act hu op hq⟩
  | readUpTo reader count =>
    exact ⟨_, .refl _, h.pulls fun _ _ _ _ hreads => hreads.readUpTo count⟩
  | readToEnd reader => exact ⟨_, .refl _, h.pulls fun _ _ _ _ hreads => hreads.readToEnd⟩
  | close reader =>
    refine ⟨_, .refl _, ?_⟩
    simp only [Client.step]
    rcases forall₂_getElem? h.readers reader with ⟨hb, hb'⟩ | ⟨b, b', hb, hb', hreads⟩
    · rw [hb, hb']
      exact ⟨rfl, h⟩
    · rw [hb, hb']
      exact ⟨rfl, h.reflects, h.handles, forall₂_set h.readers reader hreads.close⟩

end Alike

/-- What a client sees of a reader. -/
def visible {ρ : Type} (b : BlobReader ρ) : Descriptor × Nat × Bool :=
  (b.descriptor, b.position, b.isClosed)

/-- The same answer, from storages that then hold the same files, to clients that then have
the same handles and the same view of their readers. -/
structure Indistinguishable (place : LocalStore.Place) (x : Answer × Client MemoryStore Bytes)
    (y : Answer × Client LocalStore FileStream) : Prop where
  answer : x.1 = y.1
  files : x.2.storage.fileSet = y.2.storage.fileSet place
  handles : x.2.handles = y.2.handles
  readers : x.2.readers.map visible = y.2.readers.map visible

theorem StepsAlike.indistinguishable {x : Answer × Client MemoryStore Bytes}
    {y : Answer × Client LocalStore FileStream} (h : StepsAlike place x y) :
    Indistinguishable place x y where
  answer := h.1
  files := h.2.reflects.fileSet_eq
  handles := h.2.handles
  readers := by
    rw [← List.forall₂_eq_eq_eq, List.forall₂_map_left_iff, List.forall₂_map_right_iff]
    refine h.2.readers.imp fun b b' hreads => ?_
    rw [visible, visible, hreads.descriptor, hreads.position, hreads.isClosed]

theorem Alike.run {c : Client MemoryStore Bytes} {c' : Client LocalStore FileStream}
    (h : Alike place c c') (hu : place.IsUsable) {requests : List Request}
    (hsound : ∀ q ∈ requests, q.IsSound) :
    ∃ shortened, List.Forall₂ Request.Shortens requests shortened ∧
      List.Forall₂ (Indistinguishable place) (c.run Layout.standard.inMemory shortened)
        (c'.run place.registry requests) := by
  induction requests generalizing c c' with
  | nil => exact ⟨[], .nil, .nil⟩
  | cons q rest ih =>
    obtain ⟨q', hq', hstep⟩ := h.step hu (hsound q List.mem_cons_self)
    obtain ⟨rest', hrest', hrun⟩ := ih hstep.2 fun q hq => hsound q (List.mem_cons_of_mem _ hq)
    exact ⟨q' :: rest', .cons hq' hrest', .cons hstep.indistinguishable hrun⟩

end Client
end Clients
end ContainerRegistry
