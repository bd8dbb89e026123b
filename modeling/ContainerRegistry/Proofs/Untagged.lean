/-
# A manifest whose tag cannot be written

Putting a manifest stores the document, unless it is there, then its revision
link and then the link of the tag. Where the last of these calls is refused, the
manifest stays behind without a tag. Up to that call the fault only waits, and so
everything before happens as in memory (`Faulty.Passes`); how many calls it has to
let pass depends on whether the document was stored before.

Key definitions: `Layout.onRequest`, `Faulty.Passes`, `Faulty.unwritable`.
Key theorems: `Faulty.passes_guarded`, `Registry.outcome_putBlob_unwritable`,
`Repository.putManifest_untagged`.
-/
import ContainerRegistry.Proofs.Publish
import ContainerRegistry.Proofs.Unreliable

namespace ContainerRegistry

open ContainerRegistry.Action

/-! ### Faults that wait -/

/-- The registry on a driver in memory that fails on request. -/
abbrev Layout.onRequest (l : Layout) : Registry (Faulty MemoryStore) (Faulty.Stream Bytes) :=
  ⟨Faulty.driver MemoryStore.driver, l⟩

namespace Faulty

section Passing

variable {ε δ α β : Type} {faults : List Fault}

/-- While these faults wait an action does what another does in memory, and they wait on. -/
def Passes (faults : List Fault) (action : Action (Faulty MemoryStore) ε α)
    (model : Action MemoryStore ε α) : Prop :=
  ∀ t, action.outcome ⟨t, faults⟩ = ((model.outcome t).1, ⟨(model.outcome t).2, faults⟩)

namespace Passes

variable {action : Action (Faulty MemoryStore) ε α} {model : Action MemoryStore ε α}

theorem pure (a : α) :
    Passes faults (Pure.pure a : Action (Faulty MemoryStore) ε α) (Pure.pure a) :=
  fun _ => rfl

theorem throw (e : ε) :
    Passes faults (MonadExcept.throw e : Action (Faulty MemoryStore) ε α) (MonadExcept.throw e) :=
  fun _ => rfl

theorem ofExcept (x : Except ε α) :
    Passes faults (MonadExcept.ofExcept x : Action (Faulty MemoryStore) ε α)
      (MonadExcept.ofExcept x) := by
  cases x with
  | ok a => exact .pure a
  | error e => exact .throw e

theorem bind {next : α → Action (Faulty MemoryStore) ε β} {next' : α → Action MemoryStore ε β}
    (h : Passes faults action model) (hnext : ∀ a, Passes faults (next a) (next' a)) :
    Passes faults (action >>= next) (model >>= next') := by
  intro t
  rw [outcome_bind, outcome_bind, h t]
  rcases model.outcome t with ⟨e | a, t'⟩
  · rfl
  · exact hnext a t'

theorem mapError (f : ε → δ) (h : Passes faults action model) :
    Passes faults (action.mapError f) (model.mapError f) := by
  intro t
  rw [outcome_mapError, outcome_mapError, h t]

theorem found {call : Action (Faulty MemoryStore) StorageError α}
    {call' : Action MemoryStore StorageError α} (h : Passes faults call call') :
    Passes faults (ContainerRegistry.found call) (ContainerRegistry.found call') := by
  intro t
  rw [outcome_found, outcome_found, h t]

end Passes

end Passing

/-! ### A tag that cannot be written -/

/-- A fault that refuses to store content once it was stored so many times. -/
def unwritable (skip : Nat) : Fault :=
  ⟨.putContent, "", skip, .refuse, .io, "disk full", 0⟩

/-- The fault strikes a call that stores content once there is nothing to skip. -/
theorem strike_unwritable (method : Method) (p : Path) (skip : Nat) :
    strike method p [unwritable skip] =
      if method = .putContent then
        match skip with
        | 0 => (some (unwritable 0), [])
        | skip + 1 => (none, [unwritable skip])
      else (none, [unwritable skip]) := by
  have hoccurs : ∀ cs : List Char, occursIn [] cs = true := by
    intro cs
    cases cs <;> rfl
  have hmeets : meets method p (unwritable skip) = decide (method = .putContent) := by
    cases method <;> simp [meets, unwritable, hoccurs]
  rw [strike, hmeets]
  by_cases hmethod : method = .putContent
  · rw [if_pos (decide_eq_true hmethod), if_pos hmethod]
    cases skip <;> rfl
  · rw [if_neg (by simpa using hmethod), if_neg hmethod]
    rfl

/-- All other calls pass it by. -/
theorem passes_guarded {α : Type} {method : Method} (hmethod : method ≠ .putContent) (skip : Nat)
    (p : Path) (call : Action MemoryStore StorageError α) :
    Passes [unwritable skip] (guarded method p call) call := by
  intro t
  rw [guarded, outcome_bind, outcome_struck, strike_unwritable, if_neg hmethod]
  rfl

theorem outcome_putContent_unwritable (t : MemoryStore) (p : Path) (bytes : Bytes) (skip : Nat) :
    ((driver MemoryStore.driver).putContent p bytes).outcome ⟨t, [unwritable skip]⟩ =
      match skip with
      | 0 => (.error (failure (unwritable 0)), ⟨t, []⟩)
      | skip + 1 => (.ok (), ⟨t.put p bytes, [unwritable skip]⟩) := by
  show (guarded .putContent p (MemoryStore.putContent p bytes)).outcome _ = _
  rw [guarded, outcome_bind, outcome_struck, strike_unwritable, if_pos rfl]
  cases skip <;> rfl

end Faulty

section Untagged

open Faulty (Passes unwritable)

variable {l : Layout} {n : RepositoryName} {t : MemoryStore}

namespace Registry

theorem passes_stat (skip : Nat) (p : Path) :
    Passes [unwritable skip] (l.onRequest.storage.stat p) (l.inMemory.storage.stat p) :=
  Faulty.passes_guarded (by decide) skip p _

theorem passes_blobExists (skip : Nat) (digest : Digest) :
    Passes [unwritable skip] (l.onRequest.blobExists digest) (l.inMemory.blobExists digest) := by
  refine .bind (.found (passes_stat skip _)) fun metadata => ?_
  cases metadata with
  | none => exact .pure _
  | some metadata => exact .pure _

theorem passes_blobStatAt (skip : Nat) (digest : Digest) (p : Path) :
    Passes [unwritable skip] (l.onRequest.blobStatAt digest p)
      (l.inMemory.blobStatAt digest p) := by
  refine .bind (.mapError _ (passes_stat skip p)) fun metadata => ?_
  split
  · exact .throw _
  · exact .pure _

theorem passes_blobStat (skip : Nat) (digest : Digest) :
    Passes [unwritable skip] (l.onRequest.blobStat digest) (l.inMemory.blobStat digest) :=
  passes_blobStatAt skip digest _

/-- A document is stored before the fault strikes, unless it is there. -/
theorem outcome_putBlob_unwritable (t : MemoryStore) (document : Bytes) :
    ∃ puts size, ∀ skip, (l.onRequest.putBlob document).outcome ⟨t, [unwritable (skip + puts)]⟩ =
      (.ok ⟨Digest.sha256 document, size⟩, ⟨t.withBlob l document, [unwritable skip]⟩) := by
  have hexists : ∀ skip, (l.onRequest.blobExists (Digest.sha256 document)).outcome
      ⟨t, [unwritable skip]⟩ = (.ok (t.file? (l.path (.blobData (Digest.sha256 document)))).isSome,
        ⟨t, [unwritable skip]⟩) := by
    intro skip
    rw [passes_blobExists skip _ t, outcome_blobExists]
  have hdescribed : ∀ {t' : MemoryStore} {content : Bytes},
      t'.file? (l.path (.blobData (Digest.sha256 document))) = some content → ∀ skip,
        (l.onRequest.blobStat (Digest.sha256 document)).outcome ⟨t', [unwritable skip]⟩ =
          (.ok ⟨Digest.sha256 document, content.length⟩, ⟨t', [unwritable skip]⟩) := by
    intro t' content hcontent skip
    rw [passes_blobStat skip _ t', outcome_blobStat_stored hcontent]
  cases hblob : t.file? (l.path (.blobData (Digest.sha256 document))) with
  | some content =>
    refine ⟨0, content.length, fun skip => ?_⟩
    rw [putBlob, outcome_bind, Nat.add_zero, hexists, hblob]
    simp only [Option.isSome_some, Bool.not_true, Bool.false_eq_true, if_false,
      hdescribed hblob, MemoryStore.withBlob, hblob]
  | none =>
    have hput : (t.put (l.path (.blobData (Digest.sha256 document))) document).file?
        (l.path (.blobData (Digest.sha256 document))) = some document := by
      rw [MemoryStore.file?_put_path rfl, if_pos rfl]
    refine ⟨1, document.length, fun skip => ?_⟩
    have hcall : (stored (l.onRequest.storage.putContent
        (l.onRequest.blobPath (Digest.sha256 document)) document)).outcome
          ⟨t, [unwritable (skip + 1)]⟩ =
        (.ok (), ⟨t.put (l.path (.blobData (Digest.sha256 document))) document,
          [unwritable skip]⟩) := by
      rw [stored, outcome_mapError, Faulty.outcome_putContent_unwritable]
      rfl
    rw [putBlob, outcome_bind, hexists, hblob]
    simp only [Option.isSome_none, Bool.not_false, if_true, outcome_bind, hcall,
      hdescribed hput, MemoryStore.withBlob, hblob]

theorem outcome_writeLink_unwritable (t : MemoryStore) (p : Path) (digest : Digest) (skip : Nat) :
    (l.onRequest.writeLink p digest).outcome ⟨t, [unwritable skip]⟩ =
      match skip with
      | 0 => (.error (.storage (Faulty.failure (unwritable 0))), ⟨t, []⟩)
      | skip + 1 => (.ok (), ⟨t.put p (Bytes.ofText digest.toText), [unwritable skip]⟩) := by
  rw [writeLink, stored, outcome_mapError, Faulty.outcome_putContent_unwritable]
  cases skip <;> rfl

end Registry

namespace Repository

theorem passes_layerStat (skip : Nat) (digest : Digest) :
    Passes [unwritable skip] (layerStat ⟨l.onRequest, n⟩ digest)
      (layerStat ⟨l.inMemory, n⟩ digest) := by
  have hlink : Passes [unwritable skip]
      (l.onRequest.storage.getContent (layerPath ⟨l.onRequest, n⟩ digest))
      (l.inMemory.storage.getContent (layerPath ⟨l.inMemory, n⟩ digest)) :=
    Faulty.passes_guarded (by decide) skip _ _
  have hresolve : Passes [unwritable skip] (resolveLayer ⟨l.onRequest, n⟩ digest)
      (resolveLayer ⟨l.inMemory, n⟩ digest) :=
    .bind (.mapError _ hlink) fun _ => .ofExcept _
  exact .bind hresolve fun target => .mapError _ (Registry.passes_blobStatAt skip digest target)

theorem passes_requireLayers (skip : Nat) : ∀ layers : List Digest,
    Passes [unwritable skip] (requireLayers ⟨l.onRequest, n⟩ layers)
      (requireLayers ⟨l.inMemory, n⟩ layers)
  | [] => .pure _
  | layer :: rest => .bind (passes_layerStat skip layer) fun _ => passes_requireLayers skip rest

/-- **A manifest whose tag cannot be written** is left behind as a blob and a revision. -/
theorem putManifest_untagged {text : String} {tag : Tag} {m : SignedManifest}
    (htag : Tag.parse text = .ok tag) (h : Accepts l t n text m.manifest) :
    ∃ skip e, (putManifest ⟨l.onRequest, n⟩ text m).outcome ⟨t, [unwritable skip]⟩ =
      (.error e, ⟨(t.withBlob l m.raw).put (l.path (.revisionLink n (Digest.sha256 m.raw)))
        (Bytes.ofText (Digest.sha256 m.raw).toText), []⟩) := by
  obtain ⟨puts, size, hblob⟩ := Registry.outcome_putBlob_unwritable (l := l) t m.raw
  have hidentity : identityFault? ⟨l.onRequest, n⟩ tag m.manifest = none := by
    rw [identityFault?, if_neg (not_not_intro h.name),
      if_neg (not_not_intro (h.tag.trans (Tag.text_of_parse htag).symm))]
  have hvisible : (requireLayers ⟨l.inMemory, n⟩ m.manifest.layers).outcome t = (.ok (), t) :=
    Prod.ext ((requireLayers_ok_iff _).2 h.visible)
      ((reads_requireLayers (d := MemoryStore.reliable) _).outcome_snd t)
  have hlayers : (requireLayers ⟨l.onRequest, n⟩ m.manifest.layers).outcome
      ⟨t, [unwritable (1 + puts)]⟩ = (.ok (), ⟨t, [unwritable (1 + puts)]⟩) := by
    rw [passes_requireLayers _ _ t, hvisible]
  have hvalid : tagOf text = .ok tag := by rw [tagOf, htag]
  refine ⟨1 + puts, .storage (Faulty.failure (unwritable 0)), ?_⟩
  rw [putManifest, hvalid, outcome_bind, outcome_ofExcept]
  simp only [hidentity]
  rw [outcome_bind, hlayers]
  simp only
  rw [outcome_bind, hblob 1]
  simp only
  rw [outcome_bind, Registry.outcome_writeLink_unwritable]
  simp only
  rw [outcome_bind, Registry.outcome_writeLink_unwritable]
  rfl

end Repository
end Untagged

end ContainerRegistry
