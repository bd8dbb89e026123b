/-
# Two registries that act alike

What changes files is done alike by the registry in memory and by the one on a
file tree: it succeeds on both with the same answer, or fails on both with the
same failure, and the tree reflects the store again. Failures of storage are not
among these: a registry puts a file only where it can, and writes and moves only
data that it has found.

Key definitions: `Agree`, `Follows`, `Upload.Follows`.
Key theorems: `Agree.bind`, `Repository.mount_agrees`, `Repository.putManifest_agrees`,
`Upload.start_agrees`, `Upload.remove_agrees`.
-/
import ContainerRegistry.Proofs.Asking

namespace ContainerRegistry

open ContainerRegistry.Action

/-- Two outcomes are both answers, related to each other and to the states after
them, or both the same failure, with related states after it. -/
inductive Agree {σ τ ε α β : Type} (post : α → β → σ → τ → Prop) (kept : σ → τ → Prop) :
    Except ε α × σ → Except ε β × τ → Prop where
  | ok {x y t s} (h : post x y t s) : Agree post kept (.ok x, t) (.ok y, s)
  | error {e t s} (h : kept t s) : Agree post kept (.error e, t) (.error e, s)

/-- Two outcomes have the same answer or failure, and related states. -/
abbrev Alike {σ τ ε α : Type} (kept : σ → τ → Prop) :
    Except ε α × σ → Except ε α × τ → Prop :=
  Agree (fun x y t s => x = y ∧ kept t s) kept

namespace Agree

variable {σ τ ε δ α β γ ζ : Type} {post : α → β → σ → τ → Prop} {kept : σ → τ → Prop}
  {t : σ} {s : τ}

theorem pure {x : α} {y : β} (h : post x y t s) :
    Agree post kept ((Pure.pure x : Action σ ε α).outcome t)
      ((Pure.pure y : Action τ ε β).outcome s) :=
  .ok h

theorem throw {e : ε} (h : kept t s) :
    Agree post kept ((MonadExcept.throw e : Action σ ε α).outcome t)
      ((MonadExcept.throw e : Action τ ε β).outcome s) :=
  .error h

theorem mono {post' : α → β → σ → τ → Prop} {kept' : σ → τ → Prop} {x : Except ε α × σ}
    {y : Except ε β × τ} (h : Agree post kept x y)
    (hpost : ∀ a b t s, post a b t s → post' a b t s) (hkept : ∀ t s, kept t s → kept' t s) :
    Agree post' kept' x y := by
  cases h with
  | ok h => exact .ok (hpost _ _ _ _ h)
  | error h => exact .error (hkept _ _ h)

theorem bind {post' : γ → ζ → σ → τ → Prop} {a : Action σ ε α} {b : Action τ ε β}
    {f : α → Action σ ε γ} {g : β → Action τ ε ζ}
    (h : Agree post kept (a.outcome t) (b.outcome s))
    (hnext : ∀ x y t' s', post x y t' s' → Agree post' kept ((f x).outcome t') ((g y).outcome s')) :
    Agree post' kept ((a >>= f).outcome t) ((b >>= g).outcome s) := by
  rw [outcome_bind, outcome_bind]
  revert h
  generalize a.outcome t = x, b.outcome s = y
  intro h
  cases h with
  | ok h => exact hnext _ _ _ _ h
  | error h => exact .error h

theorem mapError (f : ε → δ) {a : Action σ ε α} {b : Action τ ε β}
    (h : Agree post kept (a.outcome t) (b.outcome s)) :
    Agree post kept ((a.mapError f).outcome t) ((b.mapError f).outcome s) := by
  rw [outcome_mapError, outcome_mapError]
  revert h
  generalize a.outcome t = x, b.outcome s = y
  intro h
  cases h with
  | ok h => exact .ok h
  | error h => exact .error h

theorem of_outcome {a : Action σ ε α} {b : Action τ ε β} {x : α} {y : β} {t' : σ} {s' : τ}
    (ha : a.outcome t = (.ok x, t')) (hb : b.outcome s = (.ok y, s')) (h : post x y t' s') :
    Agree post kept (a.outcome t) (b.outcome s) := by
  rw [ha, hb]
  exact .ok h

/-- What succeeds on both sides, whatever is answered. -/
theorem bind_ok {post' : γ → ζ → σ → τ → Prop} {a : Action σ ε α} {b : Action τ ε β}
    {f : α → Action σ ε γ} {g : β → Action τ ε ζ} {x : α} {y : β} {t' : σ} {s' : τ}
    (ha : a.outcome t = (.ok x, t')) (hb : b.outcome s = (.ok y, s'))
    (h : Agree post' kept ((f x).outcome t') ((g y).outcome s')) :
    Agree post' kept ((a >>= f).outcome t) ((b >>= g).outcome s) := by
  rw [outcome_bind, outcome_bind, ha, hb]
  exact h

/-- What only asks leaves the states as they are. -/
theorem bind_asks {post' : γ → ζ → σ → τ → Prop} {a : Action σ ε α} {b : Action τ ε α}
    {f : α → Action σ ε γ} {g : α → Action τ ε ζ} (h : Asks a t b s) (hkept : kept t s)
    (hnext : ∀ x, a.outcome t = (.ok x, t) → Agree post' kept ((f x).outcome t) ((g x).outcome s)) :
    Agree post' kept ((a >>= f).outcome t) ((b >>= g).outcome s) := by
  obtain ⟨x, ha, hb⟩ := h
  rw [outcome_bind, outcome_bind, ha, hb]
  cases x with
  | ok x => exact hnext x ha
  | error e => exact .error hkept

end Agree

theorem Asks.alike {σ τ ε α : Type} {a : Action σ ε α} {b : Action τ ε α} {t : σ} {s : τ}
    {kept : σ → τ → Prop} (h : Asks a t b s) (hkept : kept t s) :
    Alike kept (a.outcome t) (b.outcome s) := by
  obtain ⟨x, ha, hb⟩ := h
  rw [ha, hb]
  cases x with
  | ok x => exact .ok ⟨rfl, hkept⟩
  | error e => exact .error hkept

/-! ### Files -/

/-- A tree that reflects a store, and in which the files that were open before keep
their bytes. -/
def Follows (place : LocalStore.Place) (o : LocalStore) (t : MemoryStore) (s : LocalStore) : Prop :=
  Reflects place t s ∧ o.Keeps place s

section Registries

variable {place : LocalStore.Place} {o : LocalStore} {t : MemoryStore} {s : LocalStore}

theorem Follows.putContent (h : Follows place o t s) (hu : place.IsUsable) {f : Resource}
    (hf : f.isFile = true) {bytes : Bytes}
    (hlayer : ∀ n digest, f = .layerLink n digest →
      bytes = Bytes.ofText (Layout.standard.path (.blobData digest)).text)
    (hstarted : ∀ n id, f = .uploadData n id →
      ∃ time, t.file? (Layout.standard.path (.uploadStartedAt n id)) = some time) :
    Agree (fun _ _ t' s' => t' = t.put (Layout.standard.path f) bytes ∧ Follows place o t' s')
      (Follows place o)
      ((stored (Layout.standard.inMemory.storage.putContent (Layout.standard.path f)
        bytes)).outcome t)
      ((stored (place.registry.storage.putContent (Layout.standard.path f) bytes)).outcome s) := by
  obtain ⟨s', hput, hreflects, hkeeps⟩ := h.1.putContent hu hf (h.1.tidy.put hf hlayer hstarted)
  have hlocal : (place.registry.storage.putContent (Layout.standard.path f) bytes).outcome s =
      (.ok (), s') := hput
  have hmemory : (Layout.standard.inMemory.storage.putContent (Layout.standard.path f)
      bytes).outcome t = (.ok (), t.put (Layout.standard.path f) bytes) := rfl
  rw [stored, stored, outcome_mapError, outcome_mapError, hlocal, hmemory]
  exact .ok ⟨rfl, hreflects, h.2.trans hkeeps⟩

theorem Follows.refl (h : Reflects place t s) : Follows place s t s :=
  ⟨h, .refl s⟩

/-! ### Blobs, links and manifests -/

namespace Registry

theorem putBlob_agrees (h : Follows place o t s) (hu : place.IsUsable) (content : Bytes) :
    Alike (Follows place o) ((Layout.standard.inMemory.putBlob content).outcome t)
      ((place.registry.putBlob content).outcome s) := by
  rw [putBlob, putBlob]
  generalize Digest.sha256 content = digest
  refine Agree.bind_asks (asks_blobExists h.1 hu digest) h fun x _ => ?_
  cases x with
  | true =>
    simp only [Bool.not_true, Bool.false_eq_true, if_false]
    exact (asks_blobStat h.1 hu digest).alike h
  | false =>
    refine Agree.bind (h.putContent hu (f := .blobData digest) rfl (by simp) (by simp)) ?_
    rintro _ _ t' s' ⟨-, h'⟩
    exact (asks_blobStat h'.1 hu digest).alike h'

/-- A revision link and the link of a tag can be pointed at any digest. -/
theorem writeLink_agrees (h : Follows place o t s) (hu : place.IsUsable) {f : Resource}
    (hf : f.isFile = true) (hlayer : ∀ n digest, f ≠ .layerLink n digest)
    (hdata : ∀ n id, f ≠ .uploadData n id) (digest : Digest) :
    Alike (Follows place o)
      ((Layout.standard.inMemory.writeLink (Layout.standard.path f) digest).outcome t)
      ((place.registry.writeLink (Layout.standard.path f) digest).outcome s) :=
  (h.putContent hu hf (fun n d he => absurd he (hlayer n d))
    fun n id he => absurd he (hdata n id)).mono (fun _ _ _ _ h' => ⟨rfl, h'.2⟩) fun _ _ h' => h'

end Registry

namespace Repository

variable {n : RepositoryName}

theorem linkLayer_agrees (h : Follows place o t s) (hu : place.IsUsable) (digest : Digest) :
    Alike (Follows place o)
      ((linkLayer ⟨Layout.standard.inMemory, n⟩ digest
        (Layout.standard.inMemory.blobPath digest)).outcome t)
      ((linkLayer ⟨place.registry, n⟩ digest (place.registry.blobPath digest)).outcome s) := by
  refine (h.putContent hu (f := .layerLink n digest) rfl (fun n' d he => ?_) (by simp)).mono
    (fun _ _ _ _ h' => ⟨rfl, h'.2⟩) fun _ _ h' => h'
  cases he
  rfl

theorem mount_agrees (h : Follows place o t s) (hu : place.IsUsable) (digest : Digest) :
    Alike (Follows place o) ((mount ⟨Layout.standard.inMemory, n⟩ digest).outcome t)
      ((mount ⟨place.registry, n⟩ digest).outcome s) := by
  refine Agree.bind_asks (Registry.asks_blobStat h.1 hu digest) h fun descriptor _ => ?_
  refine Agree.bind (linkLayer_agrees h hu digest) ?_
  rintro _ _ t' s' ⟨-, h'⟩
  exact .pure ⟨rfl, h'⟩

theorem putManifest_agrees (h : Follows place o t s) (hu : place.IsUsable) (tag : String)
    (m : SignedManifest) :
    Alike (Follows place o) ((putManifest ⟨Layout.standard.inMemory, n⟩ tag m).outcome t)
      ((putManifest ⟨place.registry, n⟩ tag m).outcome s) := by
  refine Agree.bind_asks (Asks.ofExcept _) h fun tag _ => ?_
  have hfault : identityFault? ⟨place.registry, n⟩ tag m.manifest =
      identityFault? ⟨Layout.standard.inMemory, n⟩ tag m.manifest := rfl
  simp only [hfault]
  cases identityFault? ⟨Layout.standard.inMemory, n⟩ tag m.manifest with
  | some e => exact .throw h
  | none =>
    refine Agree.bind_asks (asks_requireLayers h.1 hu _) h fun _ _ => ?_
    refine Agree.bind (Registry.putBlob_agrees h hu _) ?_
    rintro descriptor _ t₁ s₁ ⟨rfl, h₁⟩
    refine Agree.bind (Registry.writeLink_agrees h₁ hu (f := .revisionLink n _) rfl (by simp)
      (by simp) _) ?_
    rintro _ _ t₂ s₂ ⟨-, h₂⟩
    refine Agree.bind (Registry.writeLink_agrees h₂ hu (f := .currentLink n _) rfl (by simp)
      (by simp) _) ?_
    rintro _ _ t₃ s₃ ⟨-, h₃⟩
    exact .pure ⟨rfl, h₃⟩

end Repository

/-! ### Uploads -/

namespace Upload

theorem start_agrees (h : Follows place o t s) (hu : place.IsUsable) (n : RepositoryName)
    (id : UploadId) (now : Instant) :
    Alike (Follows place o) ((start ⟨Layout.standard.inMemory, n⟩ id now).outcome t)
      ((start ⟨place.registry, n⟩ id now).outcome s) := by
  refine Agree.bind (h.putContent hu (f := .uploadStartedAt n id) rfl (by simp) (by simp)) ?_
  rintro _ _ t₁ s₁ ⟨ht₁, h₁⟩
  refine Agree.bind (h₁.putContent hu (f := .uploadData n id) rfl (by simp) fun n' id' he => ?_) ?_
  · cases he
    refine ⟨Bytes.ofText now.toOffsetText, ?_⟩
    rw [ht₁, MemoryStore.file?_put_path rfl, if_pos rfl]
  · rintro _ _ t₂ s₂ ⟨-, h₂⟩
    exact .pure ⟨rfl, h₂⟩

/-- Whether the directory of an upload was there makes no difference. -/
theorem remove_agrees (h : Follows place o t s) (hu : place.IsUsable) (n : RepositoryName)
    (id : UploadId) :
    Alike (Follows place o) ((remove Layout.standard.inMemory n id).outcome t)
      ((remove place.registry n id).outcome s) := by
  obtain ⟨x, s', hdelete, hreflects, hkeeps⟩ := h.1.delete hu n id
  have hlocal : (place.registry.storage.delete (place.registry.path (.upload n id))).outcome s =
      (x, s') := hdelete
  rw [remove, remove, outcome_bind, outcome_bind, outcome_attempt, outcome_attempt, hlocal]
  exact .ok ⟨rfl, hreflects, h.2.trans hkeeps⟩

/-- The same handle, and a tree that follows the store. -/
def Follows (place : LocalStore.Place) (o : LocalStore) (p : Upload × MemoryStore)
    (q : Upload × LocalStore) : Prop :=
  p.1 = q.1 ∧ ContainerRegistry.Follows place o p.2 q.2

variable {u : Upload} {α β : Type}

theorem onStorage_agrees {a : RegistryAction MemoryStore α} {b : RegistryAction LocalStore β}
    {post : α → β → MemoryStore → LocalStore → Prop}
    (h : Agree post (ContainerRegistry.Follows place o) (a.outcome t) (b.outcome s)) :
    Agree (fun x y p q => p.1 = u ∧ q.1 = u ∧ post x y p.2 q.2) (Follows place o)
      ((onStorage a).outcome (u, t)) ((onStorage b).outcome (u, s)) := by
  rw [onStorage, onStorage, outcome_zoom, outcome_zoom]
  revert h
  generalize a.outcome t = x, b.outcome s = y
  intro h
  cases h with
  | ok h => exact .ok ⟨rfl, rfl, h⟩
  | error h => exact .error ⟨rfl, h⟩

theorem handle_agrees {post : α → β → Upload × MemoryStore → Upload × LocalStore → Prop}
    {kept : Upload × MemoryStore → Upload × LocalStore → Prop}
    {next : Upload → UploadAction MemoryStore α} {next' : Upload → UploadAction LocalStore β}
    (h : Agree post kept ((next u).outcome (u, t)) ((next' u).outcome (u, s))) :
    Agree post kept ((handle >>= next).outcome (u, t)) ((handle >>= next').outcome (u, s)) := by
  rw [outcome_bind, outcome_bind]
  exact h

theorem change_agrees {post : α → β → Upload × MemoryStore → Upload × LocalStore → Prop}
    {kept : Upload × MemoryStore → Upload × LocalStore → Prop} (f : Upload → Upload)
    {next : Unit → UploadAction MemoryStore α} {next' : Unit → UploadAction LocalStore β}
    (h : Agree post kept ((next ()).outcome (f u, t)) ((next' ()).outcome (f u, s))) :
    Agree post kept ((change f >>= next).outcome (u, t)) ((change f >>= next').outcome (u, s)) := by
  rw [outcome_bind, outcome_bind]
  exact h

end Upload
end Registries
end ContainerRegistry
