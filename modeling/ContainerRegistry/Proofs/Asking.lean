/-
# Two registries that are asked the same

The registry in memory and the one on a file tree that reflects its store are
asked something by running one action on each. When the calls of the two drivers
find the same, or both find nothing, everything that only asks is answered the
same by both, down to the failures, and changes nothing.

Key definitions: `Asks`, `Meets`, `LocalStore.Place.registry`.
Key theorems: `Asks.bind`, `Meets.found`, `Meets.orUnknown`, `Registry.asks_blobExists`,
`Repository.asks_layerExists`, `Repository.asks_manifest`, `Repository.asks_manifestExists`,
`Upload.asks_size`.
-/
import ContainerRegistry.Proofs.Changes
import ContainerRegistry.Proofs.Pointing

namespace ContainerRegistry

open ContainerRegistry.Action

/-- Two actions only ask, and are answered the same. -/
def Asks {σ τ ε α : Type} (a : Action σ ε α) (t : σ) (b : Action τ ε α) (s : τ) : Prop :=
  ∃ x, a.outcome t = (x, t) ∧ b.outcome s = (x, s)

/-- Two calls find the same, or neither finds anything. -/
def Meets {σ τ α : Type} (a : Action σ StorageError α) (t : σ) (b : Action τ StorageError α)
    (s : τ) : Prop :=
  (∃ x, a.outcome t = (.ok x, t) ∧ b.outcome s = (.ok x, s)) ∨
    ∃ e e', e.isNotFound = true ∧ e'.isNotFound = true ∧
      a.outcome t = (.error e, t) ∧ b.outcome s = (.error e', s)

namespace Asks

variable {σ τ ε δ α β : Type} {t : σ} {s : τ}

theorem pure (x : α) : Asks (Pure.pure x : Action σ ε α) t (Pure.pure x : Action τ ε α) s :=
  ⟨.ok x, rfl, rfl⟩

theorem throw (e : ε) :
    Asks (MonadExcept.throw e : Action σ ε α) t (MonadExcept.throw e : Action τ ε α) s :=
  ⟨.error e, rfl, rfl⟩

theorem ofExcept (x : Except ε α) :
    Asks (MonadExcept.ofExcept x : Action σ ε α) t (MonadExcept.ofExcept x : Action τ ε α) s :=
  ⟨x, outcome_ofExcept x t, outcome_ofExcept x s⟩

/-- After the same answer the same is asked; what was answered is known of the first. -/
theorem bind {a : Action σ ε α} {b : Action τ ε α} {f : α → Action σ ε β} {g : α → Action τ ε β}
    (h : Asks a t b s) (hnext : ∀ x, a.outcome t = (.ok x, t) → Asks (f x) t (g x) s) :
    Asks (a >>= f) t (b >>= g) s := by
  obtain ⟨x, ha, hb⟩ := h
  cases x with
  | error e => exact ⟨.error e, by rw [outcome_bind, ha], by rw [outcome_bind, hb]⟩
  | ok x =>
    obtain ⟨y, hf, hg⟩ := hnext x ha
    refine ⟨y, ?_, ?_⟩
    · rw [outcome_bind, ha]
      exact hf
    · rw [outcome_bind, hb]
      exact hg

theorem mapError {a : Action σ ε α} {b : Action τ ε α} (f : ε → δ) (h : Asks a t b s) :
    Asks (a.mapError f) t (b.mapError f) s := by
  obtain ⟨x, ha, hb⟩ := h
  exact ⟨x.mapError f, by rw [outcome_mapError, ha], by rw [outcome_mapError, hb]⟩

theorem attempt {a : Action σ ε α} {b : Action τ ε α} (h : Asks a t b s) :
    Asks (a.attempt : Action σ δ _) t (b.attempt : Action τ δ _) s := by
  obtain ⟨x, ha, hb⟩ := h
  exact ⟨.ok x, by rw [outcome_attempt, ha], by rw [outcome_attempt, hb]⟩

end Asks

namespace Meets

variable {σ τ α : Type} {t : σ} {s : τ} {a : Action σ StorageError α}
  {b : Action τ StorageError α}

theorem found (h : Meets a t b s) :
    Asks (ContainerRegistry.found a) t (ContainerRegistry.found b) s := by
  rcases h with ⟨x, ha, hb⟩ | ⟨e, e', he, he', ha, hb⟩
  · exact ⟨.ok (some x), outcome_found_ok ha, outcome_found_ok hb⟩
  · exact ⟨.ok none, outcome_found_missing he ha, outcome_found_missing he' hb⟩

theorem orUnknown (unknown : RegistryError) (h : Meets a t b s) :
    Asks (ContainerRegistry.orUnknown unknown a) t (ContainerRegistry.orUnknown unknown b) s := by
  rcases h with ⟨x, ha, hb⟩ | ⟨e, e', he, he', ha, hb⟩
  · exact ⟨.ok x, outcome_orUnknown_ok ha, outcome_orUnknown_ok hb⟩
  · exact ⟨.error unknown, outcome_orUnknown_missing he ha, outcome_orUnknown_missing he' hb⟩

end Meets

/-- The registry under the default root on the file tree beneath a directory. -/
abbrev LocalStore.Place.registry (place : LocalStore.Place) : Registry LocalStore FileStream :=
  ⟨LocalStore.driver place, Layout.standard⟩

section Calls

variable {place : LocalStore.Place} {t : MemoryStore} {s : LocalStore} {f : Resource}

theorem Reflects.meets_getContent (h : Reflects place t s) (hu : place.IsUsable)
    (hf : f.isFile = true) :
    Meets (MemoryStore.getContent (Layout.standard.path f)) t
      (LocalStore.getContent place (Layout.standard.path f)) s := by
  have hlocal := h.outcome_getContent hu hf
  have hmemory := t.outcome_getContent (Layout.standard.path f)
  cases hfile : t.file? (Layout.standard.path f) with
  | some bytes =>
    rw [hfile] at hlocal hmemory
    exact Or.inl ⟨bytes, hmemory, hlocal⟩
  | none =>
    rw [hfile] at hlocal hmemory
    exact Or.inr ⟨_, _, rfl, rfl, hmemory, hlocal⟩

theorem Reflects.meets_stat (h : Reflects place t s) (hu : place.IsUsable) (hf : f.isFile = true) :
    Meets (MemoryStore.stat (Layout.standard.path f)) t
      (LocalStore.stat place (Layout.standard.path f)) s := by
  have hlocal := h.outcome_stat hu hf
  have hmemory := h.tidy.laidOut.outcome_stat hf
  cases hfile : t.file? (Layout.standard.path f) with
  | some bytes =>
    rw [hfile] at hlocal hmemory
    exact Or.inl ⟨_, hmemory, hlocal⟩
  | none =>
    rw [hfile] at hlocal hmemory
    exact Or.inr ⟨_, _, rfl, rfl, hmemory, hlocal⟩

end Calls

/-! ### Blobs and links -/

section Registries

variable {place : LocalStore.Place} {t : MemoryStore} {s : LocalStore}

namespace Registry

theorem asks_blobExists (h : Reflects place t s) (hu : place.IsUsable) (digest : Digest) :
    Asks (Layout.standard.inMemory.blobExists digest) t (place.registry.blobExists digest) s := by
  refine Asks.bind (h.meets_stat hu (f := .blobData digest) rfl).found fun x _ => ?_
  cases x with
  | none => exact Asks.pure _
  | some metadata => exact Asks.pure _

theorem asks_blobStatAt (h : Reflects place t s) (hu : place.IsUsable) (digest : Digest) :
    Asks (Layout.standard.inMemory.blobStatAt digest (Layout.standard.path (.blobData digest))) t
      (place.registry.blobStatAt digest (Layout.standard.path (.blobData digest))) s := by
  refine Asks.bind ((h.meets_stat hu (f := .blobData digest) rfl).orUnknown _) fun x _ => ?_
  split
  · exact Asks.throw _
  · exact Asks.pure _

theorem asks_blobStat (h : Reflects place t s) (hu : place.IsUsable) (digest : Digest) :
    Asks (Layout.standard.inMemory.blobStat digest) t (place.registry.blobStat digest) s :=
  asks_blobStatAt h hu digest

theorem asks_blobContent (h : Reflects place t s) (hu : place.IsUsable) (digest : Digest) :
    Asks (Layout.standard.inMemory.blobContent digest) t (place.registry.blobContent digest) s :=
  (h.meets_getContent hu (f := .blobData digest) rfl).orUnknown _

theorem asks_readLink (h : Reflects place t s) (hu : place.IsUsable) {f : Resource}
    (hf : f.isFile = true) :
    Asks (Layout.standard.inMemory.readLink (Layout.standard.path f)) t
      (place.registry.readLink (Layout.standard.path f)) s := by
  refine Asks.bind (h.meets_getContent hu hf).found fun x _ => ?_
  cases x with
  | none => exact Asks.pure _
  | some content => exact Asks.bind (Asks.ofExcept _) fun digest _ => Asks.pure _

end Registry

namespace Repository

variable {n : RepositoryName}

theorem asks_resolveLayer (h : Reflects place t s) (hu : place.IsUsable) (digest : Digest) :
    Asks (resolveLayer ⟨Layout.standard.inMemory, n⟩ digest) t
      (resolveLayer ⟨place.registry, n⟩ digest) s :=
  Asks.bind ((h.meets_getContent hu (f := .layerLink n digest) rfl).orUnknown _)
    fun _ _ => Asks.ofExcept _

/-- A layer is linked to its blob. -/
theorem target_of_resolveLayer (h : t.Tidy Layout.standard) {digest : Digest} {target : Path}
    (hresolved : (resolveLayer ⟨Layout.standard.inMemory, n⟩ digest).outcome t = (.ok target, t)) :
    target = Layout.standard.path (.blobData digest) := by
  have hcontent := t.outcome_getContent (Layout.standard.path (.layerLink n digest))
  have hread : (orUnknown (unknownLayer ⟨Layout.standard.inMemory, n⟩ digest)
      (Layout.standard.inMemory.storage.getContent
        (layerPath ⟨Layout.standard.inMemory, n⟩ digest))).outcome t =
      (((MemoryStore.getContent (Layout.standard.path (.layerLink n digest))).outcome t).1.mapError
        fun e => if e.isNotFound then unknownLayer ⟨Layout.standard.inMemory, n⟩ digest
          else .storage e, t) := by
    rw [orUnknown, outcome_mapError]
    refine Prod.ext rfl ?_
    show ((MemoryStore.getContent (Layout.standard.path (.layerLink n digest))).outcome t).2 = t
    rw [hcontent]
    split <;> rfl
  rw [resolveLayer, outcome_bind, hread, hcontent] at hresolved
  cases hlink : t.file? (Layout.standard.path (.layerLink n digest)) with
  | none =>
    rw [hlink] at hresolved
    cases hresolved
  | some link =>
    rw [hlink, h.layer n digest link hlink] at hresolved
    simp only [Except.mapError, pathOfLink_ofText] at hresolved
    cases hresolved
    rfl

theorem asks_layerStat (h : Reflects place t s) (hu : place.IsUsable) (digest : Digest) :
    Asks (layerStat ⟨Layout.standard.inMemory, n⟩ digest) t
      (layerStat ⟨place.registry, n⟩ digest) s := by
  refine Asks.bind (asks_resolveLayer h hu digest) fun target hresolved => ?_
  rw [target_of_resolveLayer h.tidy hresolved]
  exact (Registry.asks_blobStatAt h hu digest).mapError _

theorem asks_layerExists (h : Reflects place t s) (hu : place.IsUsable) (digest : Digest) :
    Asks (layerExists ⟨Layout.standard.inMemory, n⟩ digest) t
      (layerExists ⟨place.registry, n⟩ digest) s := by
  refine Asks.bind (asks_layerStat h hu digest).attempt fun x _ => ?_
  cases x with
  | ok descriptor => exact Asks.pure _
  | error e =>
    simp only
    split
    · exact Asks.pure _
    · exact Asks.throw _

theorem asks_requireLayers (h : Reflects place t s) (hu : place.IsUsable) :
    ∀ digests : List Digest, Asks (requireLayers ⟨Layout.standard.inMemory, n⟩ digests) t
      (requireLayers ⟨place.registry, n⟩ digests) s
  | [] => Asks.pure _
  | digest :: rest =>
    Asks.bind (asks_layerStat h hu digest) fun _ _ => asks_requireLayers h hu rest

/-! ### Manifests -/

theorem asks_resolveTag (h : Reflects place t s) (hu : place.IsUsable) (tag : String) :
    Asks (resolveTag ⟨Layout.standard.inMemory, n⟩ tag) t
      (resolveTag ⟨place.registry, n⟩ tag) s := by
  refine Asks.bind (Asks.ofExcept _) fun tag _ => ?_
  refine Asks.bind (Registry.asks_readLink h hu (f := .currentLink n tag) rfl) fun x _ => ?_
  cases x with
  | none => exact Asks.throw _
  | some digest => exact Asks.pure _

theorem asks_manifestByDigest (h : Reflects place t s) (hu : place.IsUsable) (digest : Digest) :
    Asks (manifestByDigest ⟨Layout.standard.inMemory, n⟩ digest) t
      (manifestByDigest ⟨place.registry, n⟩ digest) s := by
  refine Asks.bind (Registry.asks_readLink h hu (f := .revisionLink n digest) rfl) fun x _ => ?_
  cases x with
  | none => exact Asks.throw _
  | some target =>
    exact Asks.bind ((Registry.asks_blobContent h hu target).mapError _) fun _ _ => Asks.ofExcept _

theorem asks_manifest (h : Reflects place t s) (hu : place.IsUsable) (tag : String) :
    Asks (manifest ⟨Layout.standard.inMemory, n⟩ tag) t (manifest ⟨place.registry, n⟩ tag) s :=
  Asks.bind (asks_resolveTag h hu tag) fun digest _ =>
    (asks_manifestByDigest h hu digest).mapError _

theorem asks_manifestExists (h : Reflects place t s) (hu : place.IsUsable) (tag : String) :
    Asks (manifestExists ⟨Layout.standard.inMemory, n⟩ tag) t
      (manifestExists ⟨place.registry, n⟩ tag) s := by
  refine Asks.bind (asks_resolveTag h hu tag).attempt fun x _ => ?_
  cases x with
  | error e =>
    simp only
    split
    · exact Asks.pure _
    · exact Asks.throw _
  | ok digest =>
    refine Asks.bind (Registry.asks_readLink h hu (f := .revisionLink n digest) rfl) fun y _ => ?_
    cases y with
    | none => exact Asks.pure _
    | some _ => exact Registry.asks_blobExists h hu digest

end Repository

/-! ### Uploads -/

namespace Upload

variable {u : Upload} {α : Type}

theorem asks_onStorage {a : RegistryAction MemoryStore α} {b : RegistryAction LocalStore α}
    (h : Asks a t b s) : Asks (onStorage a) (u, t) (onStorage b) (u, s) := by
  obtain ⟨x, ha, hb⟩ := h
  exact ⟨x, by rw [onStorage, outcome_zoom, ha], by rw [onStorage, outcome_zoom, hb]⟩

/-- Both handles are the same. -/
theorem asks_handle {next : Upload → UploadAction MemoryStore α}
    {next' : Upload → UploadAction LocalStore α} (h : Asks (next u) (u, t) (next' u) (u, s)) :
    Asks (handle >>= next) (u, t) (handle >>= next') (u, s) := by
  obtain ⟨x, ha, hb⟩ := h
  exact ⟨x, by rw [outcome_bind]; exact ha, by rw [outcome_bind]; exact hb⟩

theorem asks_ensureOpen : Asks (ensureOpen : UploadAction MemoryStore _) (u, t)
    (ensureOpen : UploadAction LocalStore _) (u, s) := by
  refine asks_handle ?_
  split
  · exact Asks.pure _
  · exact Asks.throw _

theorem asks_size (h : Reflects place t s) (hu : place.IsUsable) :
    Asks (size Layout.standard.inMemory) (u, t) (size place.registry) (u, s) := by
  refine Asks.bind asks_ensureOpen fun _ _ => asks_handle ?_
  exact Asks.bind (asks_onStorage
    ((h.meets_stat hu (f := .uploadData u.name u.id) rfl).orUnknown _)) fun _ _ => Asks.pure _

/-- A size that is answered is that of stored data. -/
theorem stored_of_size (h : t.LaidOut Layout.standard) {count : Nat}
    (hsize : (size Layout.standard.inMemory).outcome (u, t) = (.ok count, (u, t))) :
    ∃ bytes, t.file? (Layout.standard.path (.uploadData u.name u.id)) = some bytes ∧
      bytes.length = count := by
  have hensures : (size Layout.standard.inMemory).Ensures MemoryStore.reliable.onHandle (u, t)
      fun x _ => ∀ count, x = .ok count → ∃ bytes,
        t.file? (Layout.standard.path (.uploadData u.name u.id)) = some bytes ∧
          bytes.length = count :=
    ensures_size h (fun _ bytes hfile _ hcount => ⟨bytes, hfile, Except.ok.inj hcount⟩)
      fun _ _ _ hcount => by cases hcount
  exact (hensures (u, t) trivial rfl).2 count (congrArg Prod.fst hsize)

theorem asks_isMoved (h : Reflects place t s) (hu : place.IsUsable) (expected : Digest) :
    Asks (isMoved Layout.standard.inMemory expected) (u, t) (isMoved place.registry expected)
      (u, s) := by
  refine asks_handle (Asks.bind (asks_onStorage
    (h.meets_stat hu (f := .uploadData u.name u.id) rfl).found) fun x _ => ?_)
  cases x with
  | some _ => exact Asks.pure _
  | none => exact asks_onStorage (Registry.asks_blobExists h hu expected)

/-- An upload is resumed from what is stored of it. -/
theorem asks_resume (h : Reflects place t s) (hu : place.IsUsable) (n : RepositoryName)
    (id : UploadId) : Asks (resume ⟨Layout.standard.inMemory, n⟩ id) t
      (resume ⟨place.registry, n⟩ id) s :=
  Asks.bind ((h.meets_getContent hu (f := .uploadStartedAt n id) rfl).orUnknown _) fun _ _ =>
    Asks.bind (Asks.ofExcept _) fun _ _ => Asks.pure _

end Upload
end Registries
end ContainerRegistry
