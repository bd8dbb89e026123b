/-
# What asks leaves the store alone

Half of what a registry does only asks: it stats, opens and lists, and follows
links, and whatever the answer is or the failure, the store is the same
afterwards. That goes for a walk through the catalog as well, by induction on the
directories that may still be listed.

Key definitions: `Unreliable.registry`, `Unreliable.repository`, `Reads`.
Key theorems: `Reads.bind`, `Registry.reads_catalog`, `Repository.reads_layerStat`,
`Repository.reads_manifest`.
-/
import ContainerRegistry.Proofs.Unreliable
import ContainerRegistry.Registry.Catalog
import ContainerRegistry.Registry.Manifest

namespace ContainerRegistry

open ContainerRegistry.Action

namespace Unreliable

/-- The registry on a driver. -/
abbrev registry (d : Unreliable) (l : Layout) : Registry d.State d.Stream :=
  ⟨d.driver, l⟩

/-- A repository of the registry on a driver. -/
abbrev repository (d : Unreliable) (l : Layout) (n : RepositoryName) :
    Repository d.State d.Stream :=
  ⟨d.registry l, n⟩

end Unreliable

/-- Whatever its outcome, the action leaves the store as it is. -/
def Reads {ε α : Type} (d : Unreliable) (action : Action d.State ε α) : Prop :=
  ∀ t, action.Ensures d.view t fun _ t' => t' = t

namespace Reads

variable {d : Unreliable} {ε δ α β : Type}

theorem pure (a : α) : Reads d (Pure.pure a : Action d.State ε α) :=
  fun _ => Ensures.pure rfl

theorem throw (e : ε) : Reads d (MonadExcept.throw e : Action d.State ε α) :=
  fun _ => Ensures.throw rfl

theorem ofExcept (x : Except ε α) : Reads d (MonadExcept.ofExcept x : Action d.State ε α) :=
  fun _ => Ensures.ofExcept rfl

theorem bind {action : Action d.State ε α} {next : α → Action d.State ε β}
    (h : Reads d action) (hnext : ∀ a, Reads d (next a)) : Reads d (action >>= next) := by
  intro t
  refine Ensures.bind ((h t).mono fun x t' ht' => ?_)
  subst ht'
  cases x with
  | ok a => exact hnext a _
  | error e => rfl

theorem bind_get {next : d.State → Action d.State ε β} (h : ∀ s, Reads d (next s)) :
    Reads d (get >>= next) :=
  fun t => Ensures.bind_get fun s _ _ => h s t

theorem ite {p : Prop} [Decidable p] {x y : Action d.State ε α} (hx : Reads d x) (hy : Reads d y) :
    Reads d (if p then x else y) := by
  split
  · exact hx
  · exact hy

theorem mapError {action : Action d.State ε α} {f : ε → δ} (h : Reads d action) :
    Reads d (action.mapError f) :=
  fun t => (h t).mapError

theorem attempt {action : Action d.State ε α} (h : Reads d action) :
    Reads d (action.attempt : Action d.State δ _) :=
  fun t => (h t).attempt

theorem found {call : Action d.State StorageError α} (h : Reads d call) :
    Reads d (ContainerRegistry.found call) :=
  fun t => ensures_found (h t)

theorem orUnknown {unknown : RegistryError} {call : Action d.State StorageError α}
    (h : Reads d call) : Reads d (ContainerRegistry.orUnknown unknown call) :=
  fun t => ensures_orUnknown (h t)

/-! ### Storage calls -/

/-- What mirrors a call that changes nothing changes nothing. -/
theorem of_mirrors {fails : Prop} {read : α → β} {call : Action d.State StorageError α}
    {model : Action MemoryStore StorageError β} (h : Mirrors d.view fails read call model)
    (hmodel : ∀ t, (model.outcome t).2 = t) : Reads d call := by
  intro t
  refine (h t).mono ?_
  rintro x t' (⟨-, rfl⟩ | ⟨-, -, rfl⟩)
  · exact hmodel t
  · rfl

theorem getContent (p : Path) : Reads d (d.driver.getContent p) := by
  refine of_mirrors (d.getContent p) fun t => ?_
  rw [MemoryStore.outcome_getContent]
  split <;> rfl

theorem readStream (p : Path) (offset : Nat) : Reads d (d.driver.readStream p offset) := by
  refine of_mirrors (d.readStream p offset) fun t => ?_
  rw [MemoryStore.outcome_readStream]
  split
  · split <;> rfl
  · rfl

theorem stat (p : Path) : Reads d (d.driver.stat p) := by
  refine of_mirrors (d.stat p) fun t => ?_
  rw [MemoryStore.outcome_stat]
  split
  · rfl
  · split <;> rfl

theorem list (p : Path) : Reads d (d.driver.list p) :=
  of_mirrors (d.list p) fun t => t.outcome_list_snd p

end Reads

variable {d : Unreliable} {l : Layout}

/-! ### Blobs and links -/

namespace Registry

theorem reads_blobExists (digest : Digest) : Reads d ((d.registry l).blobExists digest) := by
  refine Reads.bind (Reads.found (Reads.stat _)) fun metadata => ?_
  cases metadata <;> exact Reads.pure _

theorem reads_blobStatAt (digest : Digest) (p : Path) :
    Reads d ((d.registry l).blobStatAt digest p) :=
  Reads.bind (Reads.orUnknown (Reads.stat _)) fun _ => Reads.ite (Reads.throw _) (Reads.pure _)

theorem reads_blobStat (digest : Digest) : Reads d ((d.registry l).blobStat digest) :=
  reads_blobStatAt digest _

theorem reads_blobOpenAt (digest : Digest) (p : Path) (offset : Nat) :
    Reads d ((d.registry l).blobOpenAt digest p offset) :=
  Reads.bind (reads_blobStatAt digest p) fun _ => Reads.ite (Reads.throw _)
    (Reads.bind (Reads.orUnknown (Reads.readStream _ _)) fun _ => Reads.pure _)

theorem reads_blobOpen (digest : Digest) (offset : Nat) :
    Reads d ((d.registry l).blobOpen digest offset) :=
  reads_blobOpenAt digest _ offset

theorem reads_blobContent (digest : Digest) : Reads d ((d.registry l).blobContent digest) :=
  Reads.orUnknown (Reads.getContent _)

theorem reads_readLink (p : Path) : Reads d ((d.registry l).readLink p) := by
  refine Reads.bind (Reads.found (Reads.getContent _)) fun content => ?_
  cases content with
  | none => exact Reads.pure _
  | some content => exact Reads.bind (Reads.ofExcept _) fun _ => Reads.pure _

end Registry

namespace Repository

variable {n : RepositoryName}

theorem reads_resolveLayer (digest : Digest) : Reads d ((d.repository l n).resolveLayer digest) :=
  Reads.bind (Reads.orUnknown (Reads.getContent _)) fun _ => Reads.ofExcept _

theorem reads_layerStat (digest : Digest) : Reads d ((d.repository l n).layerStat digest) :=
  Reads.bind (reads_resolveLayer digest) fun _ =>
    Reads.mapError (Registry.reads_blobStatAt digest _)

theorem reads_layerExists (digest : Digest) : Reads d ((d.repository l n).layerExists digest) := by
  refine Reads.bind (Reads.attempt (reads_layerStat digest)) fun x => ?_
  cases x with
  | ok _ => exact Reads.pure _
  | error e => exact Reads.ite (Reads.pure _) (Reads.throw _)

theorem reads_layerOpen (digest : Digest) (offset : Nat) :
    Reads d ((d.repository l n).layerOpen digest offset) :=
  Reads.bind (reads_resolveLayer digest) fun _ =>
    Reads.mapError (Registry.reads_blobOpenAt digest _ offset)

/-! ### Manifests -/

theorem reads_resolveTag (tag : String) : Reads d ((d.repository l n).resolveTag tag) := by
  refine Reads.bind (Reads.ofExcept _) fun tag => ?_
  refine Reads.bind (Registry.reads_readLink _) fun digest => ?_
  cases digest with
  | some digest => exact Reads.pure _
  | none => exact Reads.throw _

theorem reads_manifestByDigest (digest : Digest) :
    Reads d ((d.repository l n).manifestByDigest digest) := by
  refine Reads.bind (Registry.reads_readLink _) fun target => ?_
  cases target with
  | none => exact Reads.throw _
  | some target =>
    exact Reads.bind (Reads.mapError (Registry.reads_blobContent target)) fun _ => Reads.ofExcept _

theorem reads_manifest (tag : String) : Reads d ((d.repository l n).manifest tag) :=
  Reads.bind (reads_resolveTag tag) fun digest => Reads.mapError (reads_manifestByDigest digest)

theorem reads_manifestExists (tag : String) : Reads d ((d.repository l n).manifestExists tag) := by
  refine Reads.bind (Reads.attempt (reads_resolveTag tag)) fun x => ?_
  cases x with
  | error e => exact Reads.ite (Reads.pure _) (Reads.throw _)
  | ok digest =>
    refine Reads.bind (Registry.reads_readLink _) fun target => ?_
    cases target with
    | none => exact Reads.pure _
    | some _ => exact Registry.reads_blobExists digest

theorem reads_tags : Reads d (d.repository l n).tags :=
  Reads.bind (Reads.found (Reads.list _)) fun _ => Reads.pure _

end Repository

/-! ### The catalog -/

namespace Registry

theorem reads_anyFilled : ∀ markers : List Path, Reads d ((d.registry l).anyFilled markers)
  | [] => Reads.pure _
  | marker :: rest => by
    refine Reads.bind (Reads.found (Reads.list marker)) fun entries => ?_
    rcases entries with _ | _ | _
    · exact reads_anyFilled rest
    · exact reads_anyFilled rest
    · exact Reads.pure _

theorem reads_walk (fuel : Nat) : ∀ (pending : List Path) (names : List RepositoryName),
    Reads d ((d.registry l).walk fuel pending names) := by
  induction fuel with
  | zero => exact fun _ _ => Reads.pure _
  | succ fuel ih =>
    intro pending names
    cases pending with
    | nil => exact Reads.pure _
    | cons dir pending =>
      refine Reads.bind (Reads.found (Reads.list dir)) fun children => ?_
      cases children with
      | none => exact ih pending names
      | some children => exact Reads.bind (reads_anyFilled _) fun _ => ih _ _

theorem reads_catalog : Reads d (d.registry l).catalog :=
  Reads.bind_get fun _ => Reads.bind (reads_walk _ _ _) fun _ => Reads.pure _

end Registry

end ContainerRegistry
