/-
# A layer is visible where it was uploaded or mounted

On storage that does not fail, a repository has a layer if and only if an upload
of it was finished under the digest of the layer before, or the layer was mounted
into it, and the call succeeded: each of the two writes the link of the layer
exactly if it succeeds (`Upload.finish_links`, `Repository.outcome_mount_stored`), no other
operation writes one, and none takes one away (`World.after_links`). Where a
layer is not linked it is unknown, whoever else has stored its blob, while the
blob store answers for the blob itself.

Key definitions: `Operation.Links`, `Chronicle`, `Visibility`.
Key theorems: `Upload.finish_links`, `World.after_links`, `Chronicle.linked_iff`,
`Chronicle.visibility`.
-/
import ContainerRegistry.Proofs.Frame
import ContainerRegistry.Proofs.Lookup

namespace ContainerRegistry

open ContainerRegistry.Action

variable {l : Layout} {t : MemoryStore} {n : RepositoryName} {digest : Digest} {content : Bytes}

/-! ### What is answered about a layer -/

namespace Repository

/-- Without its link a layer is unknown. -/
theorem answers_of_no_link (h : t.file? (l.path (.layerLink n digest)) = none) :
    (layerExists ⟨l.inMemory, n⟩ digest).outcome t = (.ok false, t) ∧
      (layerStat ⟨l.inMemory, n⟩ digest).outcome t = (.error (.layerUnknown n digest), t) ∧
      ∀ offset, (layerOpen ⟨l.inMemory, n⟩ digest offset).outcome t =
        (.error (.layerUnknown n digest), t) := by
  have hcontent : layerContent l t n digest = .error (.layerUnknown n digest) := by
    rw [layerContent, MemoryStore.contentAt, h]
    rfl
  refine ⟨?_, ?_, fun offset => ?_⟩
  · rw [outcome_layerExists, hcontent]
    rfl
  · rw [outcome_layerStat, hcontent]
    rfl
  · rw [outcome_layerOpen, hcontent]
    rfl

/-- A layer with a link is answered for as its blob is. -/
theorem answers_of_link
    (hlink : t.file? (l.path (.layerLink n digest)) =
      some (Bytes.ofText (l.path (.blobData digest)).text))
    (hblob : t.file? (l.path (.blobData digest)) = some content) :
    (layerExists ⟨l.inMemory, n⟩ digest).outcome t = (.ok true, t) ∧
      (layerStat ⟨l.inMemory, n⟩ digest).outcome t = (l.inMemory.blobStat digest).outcome t ∧
      ∀ offset, (layerOpen ⟨l.inMemory, n⟩ digest offset).outcome t =
        (l.inMemory.blobOpen digest offset).outcome t := by
  have hcontent : layerContent l t n digest = .ok content := by
    rw [layerContent, MemoryStore.contentAt, hlink]
    show (pathOfLink _ _).bind _ = _
    rw [pathOfLink_ofText]
    show t.contentAt _ _ = _
    rw [MemoryStore.contentAt, hblob]
  refine ⟨?_, ?_, fun offset => ?_⟩
  · rw [outcome_layerExists, hcontent]
  · rw [outcome_layerStat, hcontent, Registry.outcome_blobStat_stored hblob]
    rfl
  · rw [outcome_layerOpen, hcontent, Registry.outcome_blobOpen, MemoryStore.contentAt, hblob]

/-- Mounting a stored blob links it. -/
theorem outcome_mount_stored
    (hblob : t.file? (l.path (.blobData digest)) = some content) :
    (mount ⟨l.inMemory, n⟩ digest).outcome t = (.ok ⟨digest, content.length⟩,
      t.put (l.path (.layerLink n digest)) (Bytes.ofText (l.path (.blobData digest)).text)) := by
  rw [mount, outcome_bind, Registry.outcome_blobStat_stored hblob]
  rfl

/-- A blob that is not stored is not mounted. -/
theorem outcome_mount_missing
    (hblob : t.file? (l.path (.blobData digest)) = none) :
    (mount ⟨l.inMemory, n⟩ digest).outcome t = (.error (.blobUnknown digest), t) := by
  rw [mount, outcome_bind, Registry.outcome_blobStat_missing hblob]

end Repository

/-- A finish links the blob, or it fails and changes nothing. -/
theorem Upload.finish_links {d : Unreliable} (hfails : ¬ d.fails) (ht : t.LaidOut l) {u : Upload}
    (htracks : u.Tracks l t) (expected : Digest) :
    (finish (d.registry l) expected).Ensures d.onHandle (u, t) fun x w =>
      ((∃ descriptor, x = .ok descriptor) ∧
        w.2.file? (l.path (.layerLink u.name expected)) =
          some (Bytes.ofText (l.path (.blobData expected)).text)) ∨
      ((∃ e, x = .error e) ∧ w.2 = t) := by
  by_cases hstate : u.state = .writing
  · cases hfile : t.file? (l.path (.uploadData u.name u.id)) with
    | some bytes =>
      refine (finish_of_file hfails ht htracks hstate hfile expected).mono ?_
      rintro x w (⟨-, herror, hstore, -⟩ | ⟨-, stored, hok, -, -, -, hlink⟩)
      · exact Or.inr ⟨⟨_, herror⟩, hstore⟩
      · exact Or.inl ⟨⟨_, hok⟩, hlink⟩
    | none =>
      refine (finish_of_absent hfails ht hstate hfile expected).mono ?_
      rintro x w (⟨-, herror, hstore⟩ | ⟨stored, -, hok, hlink⟩)
      · exact Or.inr ⟨herror, hstore⟩
      · exact Or.inl ⟨⟨_, hok⟩, hlink⟩
  · exact Ensures.bind (ensures_ensureOpen (fun hwriting => absurd hwriting hstate)
      fun _ => Or.inr ⟨⟨_, rfl⟩, rfl⟩)

/-! ### The operations that link a layer -/

/-- An operation makes a digest a layer of a repository: it finishes an upload of the
repository under the digest, or mounts it, and succeeds. -/
def Operation.Links (l : Layout) (w : World) (n : RepositoryName) (digest : Digest) :
    Operation → Prop
  | finish handle expected => expected = digest ∧ ∃ u, w.handles[handle]? = some u ∧ u.name = n ∧
    ∃ descriptor, ((Upload.finish l.inMemory expected).outcome (u, w.store)).1 = .ok descriptor
  | mount m mounted => m = n ∧ mounted = digest ∧
    ∃ descriptor, w.answer (Repository.mount ⟨l.inMemory, m⟩ mounted) = .ok descriptor
  | _ => False

variable {w : World} {op : Operation}

/-- What links a layer is about the link. -/
theorem Operation.Links.touches (h : op.Links l w n digest) :
    op.Touches w (.layerLink n digest) := by
  cases op with
  | finish handle expected =>
    obtain ⟨rfl, u, hu, rfl, -⟩ := h
    exact ⟨u, hu, Or.inr (Or.inr (Or.inr rfl))⟩
  | mount m mounted =>
    obtain ⟨rfl, rfl, -⟩ := h
    rfl
  | _ => exact h.elim

/-- A layer is linked in a store. -/
def MemoryStore.IsLinked (l : Layout) (t : MemoryStore) (n : RepositoryName) (digest : Digest) :
    Prop :=
  ∃ link, t.file? (l.path (.layerLink n digest)) = some link

theorem World.after_finish_links (hw : Reachable l w) {handle : Nat} {u : Upload}
    (hu : w.handles[handle]? = some u) :
    (w.after l MemoryStore.reliable w.store (.finish handle digest)).store.IsLinked l u.name
        digest ↔
      w.store.IsLinked l u.name digest ∨
        (Operation.finish handle digest).Links l w u.name digest := by
  have hstore : (w.after l MemoryStore.reliable w.store (.finish handle digest)).store =
      ((Upload.finish l.inMemory digest).outcome (u, w.store)).2.2 := (World.after_uses rfl hu).1
  obtain ⟨-, ⟨⟨descriptor, hok⟩, hlink⟩ | ⟨⟨e, herror⟩, hsame⟩⟩ := Upload.finish_links
    MemoryStore.not_reliable_fails hw.inv.laidOut (hw.inv.handles u (List.mem_of_getElem? hu)).2
    digest (u, w.store) trivial rfl
  · have hlinked : (w.after l MemoryStore.reliable w.store (.finish handle digest)).store.IsLinked l
        u.name digest := ⟨_, hstore ▸ hlink⟩
    exact ⟨fun _ => Or.inr ⟨rfl, u, hu, rfl, descriptor, hok⟩, fun _ => hlinked⟩
  · have hnot : ¬ (Operation.finish handle digest).Links l w u.name digest := by
      rintro ⟨-, u', hu', -, descriptor, hok⟩
      obtain rfl : u' = u := Option.some.inj (hu'.symm.trans hu)
      cases herror.symm.trans hok
    rw [hstore.trans hsame, or_iff_left hnot]

theorem World.after_mount_links :
    (w.after l MemoryStore.reliable w.store (.mount n digest)).store.IsLinked l n digest ↔
      w.store.IsLinked l n digest ∨ (Operation.mount n digest).Links l w n digest := by
  have hstore : (w.after l MemoryStore.reliable w.store (.mount n digest)).store =
      ((Repository.mount ⟨l.inMemory, n⟩ digest).outcome w.store).2 := rfl
  cases hblob : w.store.file? (l.path (.blobData digest)) with
  | some content =>
    have hmount := Repository.outcome_mount_stored (n := n) hblob
    have hlinked : (w.after l MemoryStore.reliable w.store (.mount n digest)).store.IsLinked l n
        digest := by
      rw [hstore, hmount]
      exact ⟨_, (MemoryStore.file?_put_path rfl _ _).trans (if_pos rfl)⟩
    exact ⟨fun _ => Or.inr ⟨rfl, rfl, _, congrArg Prod.fst hmount⟩, fun _ => hlinked⟩
  | none =>
    have hmount := Repository.outcome_mount_missing (n := n) hblob
    have hnot : ¬ (Operation.mount n digest).Links l w n digest := by
      rintro ⟨-, -, descriptor, hok⟩
      cases (congrArg Prod.fst hmount).symm.trans hok
    rw [hstore, hmount, or_iff_left hnot]

/-- **An operation adds the link that it makes, and keeps all others.** -/
theorem World.after_links (hw : Reachable l w) (op : Operation) (n : RepositoryName)
    (digest : Digest) :
    (w.after l MemoryStore.reliable w.store op).store.IsLinked l n digest ↔
      w.store.IsLinked l n digest ∨ op.Links l w n digest := by
  by_cases htouches : op.Touches w (.layerLink n digest)
  · cases op with
    | finish handle expected =>
      obtain ⟨u, hu, hf⟩ := htouches
      obtain ⟨rfl, rfl⟩ : n = u.name ∧ digest = expected := by simpa using hf
      exact after_finish_links hw hu
    | mount m mounted =>
      obtain ⟨rfl, rfl⟩ := Resource.layerLink.inj htouches
      exact after_mount_links
    | _ => simp [Operation.Touches] at htouches
  · have hsame := World.after_touches (d := MemoryStore.reliable) hw.inv.laidOut trivial rfl
      (f := .layerLink n digest) rfl htouches
    have hnot : ¬ op.Links l w n digest := fun h => htouches h.touches
    rw [MemoryStore.IsLinked, hsame, or_iff_left hnot, MemoryStore.IsLinked]

/-! ### Chronicles -/

/-- The worlds that operations lead to on storage that does not fail, and what was done on
the way: each operation, with the world that it was done in. -/
inductive Chronicle (l : Layout) : World → List (World × Operation) → Prop where
  | empty : Chronicle l World.empty []
  | step {w : World} {past : List (World × Operation)} (chronicle : Chronicle l w past)
      (op : Operation) (fresh : op.IsFresh w) :
      Chronicle l (w.after l MemoryStore.reliable w.store op) (past ++ [(w, op)])

/-- What is answered about layers follows from what was finished and mounted. -/
structure Visibility (l : Layout) (w : World) (past : List (World × Operation)) : Prop where
  /-- A repository has a layer when it was uploaded or mounted before. -/
  exists_iff : ∀ n digest, w.answer (Repository.layerExists ⟨l.inMemory, n⟩ digest) = .ok true ↔
    ∃ e ∈ past, e.2.Links l e.1 n digest
  /-- Then it is answered for as the blob is, which is stored. -/
  visible : ∀ n digest, (∃ e ∈ past, e.2.Links l e.1 n digest) →
    w.answer (l.inMemory.blobExists digest) = .ok true ∧
      w.answer (Repository.layerStat ⟨l.inMemory, n⟩ digest) =
        w.answer (l.inMemory.blobStat digest) ∧
      ∀ offset, w.answer (Repository.layerOpen ⟨l.inMemory, n⟩ digest offset) =
        w.answer (l.inMemory.blobOpen digest offset)
  /-- Otherwise it is unknown, whether or not the blob is stored. -/
  hidden : ∀ n digest, (¬ ∃ e ∈ past, e.2.Links l e.1 n digest) →
    w.answer (Repository.layerExists ⟨l.inMemory, n⟩ digest) = .ok false ∧
      w.answer (Repository.layerStat ⟨l.inMemory, n⟩ digest) = .error (.layerUnknown n digest) ∧
      ∀ offset, w.answer (Repository.layerOpen ⟨l.inMemory, n⟩ digest offset) =
        .error (.layerUnknown n digest)
  /-- The blob store answers for a blob that is stored, whoever stored it. -/
  stored : ∀ digest content, w.store.file? (l.path (.blobData digest)) = some content →
    w.answer (l.inMemory.blobExists digest) = .ok true ∧
      w.answer (l.inMemory.blobStat digest) = .ok ⟨digest, content.length⟩ ∧
      ∀ offset ≤ content.length, w.answer (l.inMemory.blobOpen digest offset) =
        .ok ⟨⟨digest, content.length⟩, offset, some (content.drop offset)⟩
  /-- It knows no other. -/
  missing : ∀ digest, w.store.file? (l.path (.blobData digest)) = none →
    w.answer (l.inMemory.blobExists digest) = .ok false ∧
      w.answer (l.inMemory.blobStat digest) = .error (.blobUnknown digest) ∧
      ∀ offset, w.answer (l.inMemory.blobOpen digest offset) = .error (.blobUnknown digest)
  /-- A layer can be mounted when its blob is stored. -/
  mount_iff : ∀ n digest,
    (∃ descriptor, w.answer (Repository.mount ⟨l.inMemory, n⟩ digest) = .ok descriptor) ↔
      w.answer (l.inMemory.blobExists digest) = .ok true

namespace Chronicle

variable {past : List (World × Operation)}

theorem reachable (h : Chronicle l w past) : Reachable l w := by
  induction h with
  | empty => exact .empty
  | step _ op fresh ih => exact ih.inMemory op fresh

/-- **The links of layers are what was finished and mounted.** -/
theorem linked_iff (h : Chronicle l w past) (n : RepositoryName) (digest : Digest) :
    w.store.IsLinked l n digest ↔ ∃ e ∈ past, e.2.Links l e.1 n digest := by
  induction h with
  | empty =>
    constructor
    · rintro ⟨link, hlink⟩
      exact absurd hlink (MemoryStore.file?_empty_ne _ _)
    · rintro ⟨e, he, -⟩
      cases he
  | step chronicle op _ ih =>
    rw [World.after_links chronicle.reachable, ih]
    simp only [List.mem_append, List.mem_singleton, or_and_right, exists_or, exists_eq_left]

/-- **Layers are visible where they were uploaded or mounted**, and nowhere else. -/
theorem visibility (h : Chronicle l w past) : Visibility l w past := by
  have hvisible : ∀ n digest, (∃ e ∈ past, e.2.Links l e.1 n digest) →
      ∃ content, w.store.file? (l.path (.blobData digest)) = some content ∧
        w.store.file? (l.path (.layerLink n digest)) =
          some (Bytes.ofText (l.path (.blobData digest)).text) := by
    intro n digest hpast
    obtain ⟨link, hlink⟩ := (h.linked_iff n digest).2 hpast
    obtain ⟨rfl, content, hblob⟩ := h.reachable.linksPoint.layer n digest link hlink
    exact ⟨content, hblob, hlink⟩
  have hhidden : ∀ n digest, (¬ ∃ e ∈ past, e.2.Links l e.1 n digest) →
      w.store.file? (l.path (.layerLink n digest)) = none := by
    intro n digest hpast
    refine Option.eq_none_iff_forall_ne_some.2 fun link hlink => hpast ?_
    exact (h.linked_iff n digest).1 ⟨link, hlink⟩
  constructor
  case exists_iff =>
    intro n digest
    constructor
    · intro hexists
      refine Classical.byContradiction fun hpast => ?_
      have hfalse := congrArg Prod.fst (Repository.answers_of_no_link (hhidden n digest hpast)).1
      cases hfalse.symm.trans hexists
    · intro hpast
      obtain ⟨content, hblob, hlink⟩ := hvisible n digest hpast
      exact congrArg Prod.fst (Repository.answers_of_link hlink hblob).1
  case visible =>
    intro n digest hpast
    obtain ⟨content, hblob, hlink⟩ := hvisible n digest hpast
    obtain ⟨-, hstat, hopen⟩ := Repository.answers_of_link hlink hblob
    refine ⟨?_, congrArg Prod.fst hstat, fun offset => congrArg Prod.fst (hopen offset)⟩
    rw [World.answer, Registry.outcome_blobExists, hblob]
    rfl
  case hidden =>
    intro n digest hpast
    obtain ⟨hexists, hstat, hopen⟩ := Repository.answers_of_no_link (hhidden n digest hpast)
    exact ⟨congrArg Prod.fst hexists, congrArg Prod.fst hstat,
      fun offset => congrArg Prod.fst (hopen offset)⟩
  case stored =>
    intro digest content hblob
    refine ⟨?_, congrArg Prod.fst (Registry.outcome_blobStat_stored hblob),
      fun offset hoffset => ?_⟩
    · rw [World.answer, Registry.outcome_blobExists, hblob]
      rfl
    · rw [World.answer, Registry.outcome_blobOpen_stored hblob, if_neg (Nat.not_lt.2 hoffset)]
  case missing =>
    intro digest hblob
    refine ⟨?_, congrArg Prod.fst (Registry.outcome_blobStat_missing hblob),
      fun offset => congrArg Prod.fst (Registry.outcome_blobOpen_missing hblob offset)⟩
    rw [World.answer, Registry.outcome_blobExists, hblob]
    rfl
  case mount_iff =>
    intro n digest
    rw [World.answer, World.answer, Registry.outcome_blobExists]
    cases hblob : w.store.file? (l.path (.blobData digest)) with
    | some content => simp [Repository.outcome_mount_stored hblob]
    | none => simp [Repository.outcome_mount_missing hblob]

/-- Pushing content goes into a chronicle as three operations. -/
theorem exists_run_pushing (h : Chronicle l w past) (n : RepositoryName) (id : UploadId)
    (hfresh : (n, id) ∉ w.drawn) (content : Bytes) (algorithm : Algorithm) :
    ∃ past', Chronicle l
      (w.run l (Operation.pushing w.handles.length n id content algorithm)) past' := by
  have hstart := h.step (.start n id ⟨0, 0, 0⟩) fun key hkey => List.mem_singleton.1 hkey ▸ hfresh
  have hwrite := hstart.step (.write w.handles.length 0 (.ofBytes content))
    fun key hkey => by cases hkey
  exact ⟨_, hwrite.step (.finish w.handles.length (Digest.ofBytes algorithm content))
    fun key hkey => by cases hkey⟩

/-- A byte is pushed to a repository, and is a layer there. -/
theorem visibility_pushed : ∃ w past, Chronicle default w past ∧
    (∃ e ∈ past, e.2.Links default e.1 ⟨"team/one", by decide⟩ (Digest.ofBytes .sha256 [1])) ∧
    Visibility default w past := by
  have hfresh : ((⟨"team/one", by decide⟩, ⟨"00000000-0000-0000-0000-000000000001", by decide⟩) :
      RepositoryName × UploadId) ∉ World.empty.drawn := by simp [World.empty]
  obtain ⟨w, hrun, -, -, -, -, hlink⟩ :=
    Reachable.run_pushing (l := default) .empty _ _ hfresh [1] .sha256
  obtain ⟨past, h⟩ := Chronicle.empty.exists_run_pushing (l := default) _ _ hfresh [1] .sha256
  rw [← hrun] at h
  exact ⟨w, past, h, (h.linked_iff _ _).1 ⟨_, hlink⟩, visibility h⟩

end Chronicle
end ContainerRegistry
