/-
# Operations change only the files that they are about

Each operation is about a few files: an upload's, a blob, a link
(`Operation.Touches`). Whatever it answers and however its storage calls fail,
every other file is afterwards what it was before, and on storage that does not
fail so is every stored blob (`MemoryStore.IsWritable`). The reason is that each of
its calls is about one of these files, so that it is enough to look at calls one by
one: a condition on the store that each of them keeps is kept by all of them
together (`Action.Keeps`).

Key definitions: `Action.Keeps`, `MemoryStore.DiffersIn`,
`MemoryStore.IsWritable`, `Operation.Touches`.
Key theorems: `Action.Keeps.bind`, `MemoryStore.DiffersIn.put`,
`Session.act_differsIn`, `World.after_touches`, `World.after_blob`.
-/
import ContainerRegistry.Proofs.World

namespace ContainerRegistry

namespace Action

variable {σ ω ε α β : Type}

/-- Whatever its outcome, the action keeps a condition on what is seen of the state. -/
def Keeps (v : View σ ω) (cond : ω → Prop) (action : Action σ ε α) : Prop :=
  ∀ w, cond w → action.Ensures v w fun _ w' => cond w'

namespace Keeps

variable {v : View σ ω} {cond : ω → Prop}

theorem pure (a : α) : Keeps v cond (Pure.pure a : Action σ ε α) :=
  fun _ hw => Ensures.pure hw

theorem throw (e : ε) : Keeps v cond (MonadExcept.throw e : Action σ ε α) :=
  fun _ hw => Ensures.throw hw

theorem ofExcept (x : Except ε α) : Keeps v cond (MonadExcept.ofExcept x : Action σ ε α) :=
  fun _ hw => Ensures.ofExcept hw

theorem bind {action : Action σ ε α} {next : α → Action σ ε β} (h : Keeps v cond action)
    (hnext : ∀ a, Keeps v cond (next a)) : Keeps v cond (action >>= next) := by
  intro w hw
  refine Ensures.bind ((h w hw).mono fun x w' hw' => ?_)
  cases x with
  | ok a => exact hnext a w' hw'
  | error e => exact hw'

theorem bind_get {next : σ → Action σ ε β} (h : ∀ s, Keeps v cond (next s)) :
    Keeps v cond (get >>= next) :=
  fun w hw => Ensures.bind_get fun s _ _ => h s w hw

theorem ite {p : Prop} [Decidable p] {x y : Action σ ε α} (hx : Keeps v cond x)
    (hy : Keeps v cond y) : Keeps v cond (if p then x else y) := by
  split
  · exact hx
  · exact hy

theorem stored {call : Action σ StorageError α} (h : Keeps v cond call) :
    Keeps v cond (ContainerRegistry.stored call) :=
  fun w hw => ensures_stored (h w hw)

theorem orUnknown {unknown : RegistryError} {call : Action σ StorageError α}
    (h : Keeps v cond call) : Keeps v cond (ContainerRegistry.orUnknown unknown call) :=
  fun w hw => ensures_orUnknown (h w hw)

theorem found {call : Action σ StorageError α} (h : Keeps v cond call) :
    Keeps v cond (ContainerRegistry.found call) :=
  fun w hw => ensures_found (h w hw)

end Keeps
end Action

open ContainerRegistry.Action

/-- What only asks keeps every condition on the store. -/
theorem Reads.keeps {d : Unreliable} {ε α : Type} {action : Action d.State ε α}
    (h : Reads d action) (cond : MemoryStore → Prop) : Keeps d.view cond action :=
  fun t ht => (h t).mono fun _ _ hsame => hsame ▸ ht

/-! ### Stores that differ in some files -/

/-- A store is laid out, and differs from another at most in the files of some
resources. -/
structure MemoryStore.DiffersIn (l : Layout) (among : Resource → Prop) (s t : MemoryStore) :
    Prop where
  laidOut : t.LaidOut l
  file? : ∀ f : Resource, f.isFile = true → ¬ among f → t.file? (l.path f) = s.file? (l.path f)

namespace MemoryStore.DiffersIn

variable {l : Layout} {among : Resource → Prop} {s t : MemoryStore}

theorem refl (hs : s.LaidOut l) : DiffersIn l among s s :=
  ⟨hs, fun _ _ _ => rfl⟩

theorem put (h : DiffersIn l among s t) {a : Resource} (ha : a.isFile = true) (hmem : among a)
    (bytes : Bytes) : DiffersIn l among s (t.put (l.path a) bytes) where
  laidOut := h.laidOut.put ha bytes
  file? f hf hnot := by
    have hne : f ≠ a := fun e => hnot (e ▸ hmem)
    rw [MemoryStore.file?_put_path ha, if_neg hne]
    exact h.file? f hf hnot

theorem move (h : DiffersIn l among s t) {a b : Resource} (ha : a.isFile = true)
    (hb : b.isFile = true) (hab : a ≠ b) (hmema : among a) (hmemb : among b) {bytes : Bytes}
    (hfile : t.file? (l.path a) = some bytes) :
    DiffersIn l among s (t.move (l.path a) (l.path b)) where
  laidOut := h.laidOut.move ha hb hab hfile
  file? f hf hnot := by
    have hneb : f ≠ b := fun e => hnot (e ▸ hmemb)
    have hnea : f ≠ a := fun e => hnot (e ▸ hmema)
    rw [h.laidOut.file?_move ha hb hab hfile, if_neg hneb, if_neg hnea]
    exact h.file? f hf hnot

theorem remove (h : DiffersIn l among s t) {n : RepositoryName} {id : UploadId}
    (hdata : among (.uploadData n id)) (hstarted : among (.uploadStartedAt n id)) :
    DiffersIn l among s (t.remove (l.path (.upload n id))) where
  laidOut := h.laidOut.remove _
  file? f hf hnot := by
    have hne : ¬ (f = .uploadData n id ∨ f = .uploadStartedAt n id) := by
      rintro (rfl | rfl)
      · exact hnot hdata
      · exact hnot hstarted
    rw [MemoryStore.file?_remove_upload n id hf, if_neg hne]
    exact h.file? f hf hnot

/-- A file that is missing now may differ, or it was missing before. -/
theorem among_of_missing (h : DiffersIn l among s t) {fails : Prop} {f : Resource}
    (hf : f.isFile = true) (hamong : fails ∨ s.file? (l.path f) = none → among f)
    (hmissing : t.file? (l.path f) = none ∨ fails) : among f := by
  refine Classical.byContradiction fun hnot => ?_
  rcases hmissing with hnone | hfails
  · exact hnot (hamong (Or.inr ((h.file? f hf hnot).symm.trans hnone)))
  · exact hnot (hamong (Or.inl hfails))

end MemoryStore.DiffersIn

/-- A file that may still be written: every file, but a blob only until it is stored. -/
def MemoryStore.IsWritable (l : Layout) (s : MemoryStore) (f : Resource) : Prop :=
  ∀ digest, f = .blobData digest → s.file? (l.path f) = none

/-- What belongs to a repository is not a blob. -/
theorem MemoryStore.IsWritable.of_owner {l : Layout} {s : MemoryStore} {f : Resource}
    {n : RepositoryName} (h : f.owner? = some n) : s.IsWritable l f := by
  rintro digest rfl
  cases h

open MemoryStore (DiffersIn)

/-! ### Calls on files that may change -/

namespace Unreliable

variable {d : Unreliable} {l : Layout} {among : Resource → Prop} {s : MemoryStore}

theorem keeps_putContent {a : Resource} (ha : a.isFile = true) (hmem : among a) (bytes : Bytes) :
    Keeps d.view (DiffersIn l among s) (d.driver.putContent (l.path a) bytes) :=
  fun _ ht => putContent_path (ht.put ha hmem bytes) fun _ _ => ht

theorem keeps_writeStream {a : Resource} (ha : a.isFile = true) (hmem : among a) (offset : Nat)
    (source : Source) :
    Keeps d.view (DiffersIn l among s) (d.driver.writeStream (l.path a) offset source) := by
  intro t ht
  refine (d.writeStream _ _ _ t).mono ?_
  rintro x t' (⟨-, rfl⟩ | ⟨n, -, -, rfl, -⟩)
  · exact ht
  · exact ht.put ha hmem _

theorem keeps_rename {a b : Resource} (ha : a.isFile = true) (hb : b.isFile = true) (hab : a ≠ b)
    (hmema : among a) (hmemb : among b) :
    Keeps d.view (DiffersIn l among s) (d.driver.rename (l.path a) (l.path b)) :=
  fun _ ht => rename_path ht.laidOut ha (fun _ hfile => ht.move ha hb hab hmema hmemb hfile)
    (fun _ _ => ht) fun _ _ => ht

end Unreliable

namespace Upload

variable {d : Unreliable} {l : Layout} {among : Resource → Prop} {s : MemoryStore}
  {n : RepositoryName} {id : UploadId} {α β : Type}

theorem keeps_remove (hdata : among (.uploadData n id)) (hstarted : among (.uploadStartedAt n id)) :
    Keeps d.view (DiffersIn l among s) (remove (d.registry l) n id) :=
  fun _ ht => ensures_remove (ht.remove hdata hstarted) ht

theorem keeps_start (hdata : among (.uploadData n id)) (hstarted : among (.uploadStartedAt n id))
    (now : Instant) : Keeps d.view (DiffersIn l among s) (start (d.repository l n) id now) :=
  .bind (.stored (Unreliable.keeps_putContent rfl hstarted _)) fun _ =>
    .bind (.stored (Unreliable.keeps_putContent rfl hdata _)) fun _ => .pure _

/-! ### Actions on a handle -/

/-- The handle is on a certain upload, and the store differs in some files at most. -/
def Within (n : RepositoryName) (id : UploadId) (l : Layout) (among : Resource → Prop)
    (s : MemoryStore) (w : Upload × MemoryStore) : Prop :=
  (w.1.name = n ∧ w.1.id = id) ∧ DiffersIn l among s w.2

theorem keeps_onStorage {action : RegistryAction d.State α}
    (h : Keeps d.view (DiffersIn l among s) action) :
    Keeps d.onHandle (Within n id l among s) (onStorage action) :=
  fun ⟨_, t⟩ hw => ensures_onStorage ((h t hw.2).mono fun _ _ ht' => ⟨hw.1, ht'⟩)

theorem keeps_change {f : Upload → Upload}
    (hf : ∀ u : Upload, (f u).name = u.name ∧ (f u).id = u.id) :
    Keeps d.onHandle (Within n id l among s) (change f) := by
  rintro ⟨u, t⟩ ⟨⟨hname, hid⟩, ht⟩
  exact ensures_change ⟨⟨(hf u).1.trans hname, (hf u).2.trans hid⟩, ht⟩

/-- What is done with the handle at hand. -/
theorem keeps_bind_handle {next : Upload → UploadAction d.State β}
    (h : ∀ u : Upload, u.name = n → u.id = id →
      Keeps d.onHandle (Within n id l among s) (next u)) :
    Keeps d.onHandle (Within n id l among s) (handle >>= next) := by
  rintro ⟨u, t⟩ hw
  exact Ensures.bind (ensures_handle (h u hw.1.1 hw.1.2 (u, t) hw))

theorem keeps_ensureOpen :
    Keeps d.onHandle (Within n id l among s) (ensureOpen : UploadAction d.State Unit) :=
  keeps_bind_handle fun _ _ _ => .ite (.pure _) (.throw _)

theorem keeps_size : Keeps d.onHandle (Within n id l among s) (size (d.registry l)) :=
  .bind keeps_ensureOpen fun _ => keeps_bind_handle fun _ _ _ =>
    .bind (keeps_onStorage (.orUnknown ((Reads.stat _).keeps _))) fun _ => .pure _

theorem keeps_catchUp (size : Nat) :
    Keeps d.onHandle (Within n id l among s) (catchUp (d.registry l) size) := by
  have hshrink : ∀ u : Upload, (shrink size u).name = u.name ∧ (shrink size u).id = u.id := by
    intro u
    unfold shrink
    split <;> exact ⟨rfl, rfl⟩
  refine .bind (keeps_change hshrink) fun _ => keeps_bind_handle fun u _ _ => .ite (.pure _) ?_
  refine .bind (keeps_onStorage (.orUnknown ((Reads.readStream _ _).keeps _))) fun stream =>
    .bind_get fun p => .bind (keeps_change fun _ => ⟨rfl, rfl⟩) fun _ => ?_
  cases ((d.registry l).storage.pull stream (some (size - u.hashed)) p.2).failure with
  | none => exact .pure _
  | some e => exact .throw _

theorem keeps_write (hdata : among (.uploadData n id)) (offset : Nat) (source : Source) :
    Keeps d.onHandle (Within n id l among s) (write (d.registry l) offset source) := by
  refine .bind keeps_size fun size => .ite (.throw _) (.bind (keeps_catchUp size) fun _ =>
    keeps_bind_handle fun u hname hid => .bind (keeps_onStorage (.stored ?_)) fun transfer => ?_)
  · rw [dataPath, Registry.path, hname, hid]
    exact Unreliable.keeps_writeStream rfl hdata offset source
  · split
    · exact .bind (keeps_change fun _ => ⟨rfl, rfl⟩) fun _ => .pure _
    · exact .pure _

theorem keeps_actualDigest (algorithm : Algorithm) :
    Keeps d.onHandle (Within n id l among s) (actualDigest (d.registry l) algorithm) := by
  refine keeps_bind_handle fun u _ _ => .ite (.pure _) (keeps_bind_handle fun v _ _ => ?_)
  refine .bind (keeps_onStorage (.orUnknown ((Reads.readStream _ _).keeps _))) fun stream =>
    .bind_get fun p => ?_
  simp only
  cases ((d.registry l).storage.pull stream none p.2).failure with
  | none => exact .pure _
  | some e => exact .throw _

theorem keeps_isMoved (expected : Digest) :
    Keeps d.onHandle (Within n id l among s) (isMoved (d.registry l) expected) := by
  refine keeps_bind_handle fun u _ _ =>
    .bind (keeps_onStorage (.found ((Reads.stat _).keeps _))) fun metadata => ?_
  cases metadata with
  | some _ => exact .pure _
  | none => exact keeps_onStorage ((Registry.reads_blobExists expected).keeps _)

/-- Bytes are moved into the blob store only when the blob seems to be missing. -/
theorem keeps_settle {expected : Digest} (hdata : among (.uploadData n id))
    (hblob : d.fails ∨ s.file? (l.path (.blobData expected)) = none → among (.blobData expected)) :
    Keeps d.onHandle (Within n id l among s) (settle (d.registry l) expected) := by
  refine .bind keeps_size fun size => .bind (keeps_catchUp size) fun _ =>
    .bind (keeps_actualDigest _) fun actual => .ite (.throw _) ?_
  rintro ⟨u, t⟩ hw
  refine Ensures.bind (ensures_onStorage (Registry.ensures_blobExists hw.2.laidOut
    (fun _ _ => Ensures.pure hw) (fun hmissing => ?_) fun _ _ => hw))
  have hmem : among (.blobData expected) := hw.2.among_of_missing rfl hblob hmissing
  refine keeps_bind_handle (fun u hname hid => keeps_onStorage (.stored ?_)) (u, t) hw
  rw [dataPath, Registry.path, hname, hid]
  exact Unreliable.keeps_rename (b := .blobData expected) rfl rfl (by simp) hdata hmem

theorem keeps_commit {expected : Digest} (hdata : among (.uploadData n id))
    (hstarted : among (.uploadStartedAt n id)) (hlink : among (.layerLink n expected)) :
    Keeps d.onHandle (Within n id l among s) (commit (d.registry l) expected) := by
  refine keeps_bind_handle fun u hname hid => ?_
  rw [hname, hid]
  refine .bind (keeps_onStorage (.stored (Unreliable.keeps_putContent rfl hlink _))) fun _ =>
    .bind (keeps_onStorage (keeps_remove hdata hstarted)) fun _ =>
      .bind (keeps_change fun _ => ⟨rfl, rfl⟩) fun _ =>
        keeps_onStorage ((Registry.reads_blobStat expected).keeps _)

theorem keeps_finish {expected : Digest} (hdata : among (.uploadData n id))
    (hstarted : among (.uploadStartedAt n id))
    (hblob : d.fails ∨ s.file? (l.path (.blobData expected)) = none → among (.blobData expected))
    (hlink : among (.layerLink n expected)) :
    Keeps d.onHandle (Within n id l among s) (finish (d.registry l) expected) :=
  .bind keeps_ensureOpen fun _ => .bind (keeps_isMoved expected) fun _ =>
    .ite (keeps_commit hdata hstarted hlink) (.bind (keeps_settle hdata hblob) fun _ =>
      keeps_commit hdata hstarted hlink)

theorem keeps_cancel (hdata : among (.uploadData n id))
    (hstarted : among (.uploadStartedAt n id)) :
    Keeps d.onHandle (Within n id l among s) (cancel (d.registry l)) := by
  refine keeps_bind_handle fun u hname hid => ?_
  cases u.state with
  | cancelled => exact .pure _
  | finished => exact .throw _
  | writing =>
    simp only [hname, hid]
    exact .bind (keeps_onStorage (keeps_remove hdata hstarted)) fun _ =>
      keeps_change fun _ => ⟨rfl, rfl⟩

end Upload

/-! ### Layers and manifests -/

namespace Repository

variable {d : Unreliable} {l : Layout} {among : Resource → Prop} {s : MemoryStore}
  {n : RepositoryName}

theorem keeps_mount {digest : Digest} (hlink : among (.layerLink n digest)) :
    Keeps d.view (DiffersIn l among s) ((d.repository l n).mount digest) :=
  .bind ((Registry.reads_blobStat digest).keeps _) fun _ =>
    .bind (.stored (Unreliable.keeps_putContent rfl hlink _)) fun _ => .pure _

theorem reads_requireLayers (layers : List Digest) :
    Reads d ((d.repository l n).requireLayers layers) := by
  induction layers with
  | nil => exact Reads.pure _
  | cons digest rest ih => exact Reads.bind (reads_layerStat digest) fun _ => ih

/-- The blob of a manifest is described by the digest of its document. -/
theorem keeps_putBlob {content : Bytes}
    (hblob : d.fails ∨ s.file? (l.path (.blobData (Digest.sha256 content))) = none →
      among (.blobData (Digest.sha256 content)))
    (t : MemoryStore) (ht : DiffersIn l among s t) :
    ((d.registry l).putBlob content).Ensures d.view t fun x t' => DiffersIn l among s t' ∧
      ∀ descriptor, x = .ok descriptor → descriptor.digest = Digest.sha256 content := by
  have hstat : ∀ t', DiffersIn l among s t' →
      ((d.registry l).blobStat (Digest.sha256 content)).Ensures d.view t' fun x t' =>
        DiffersIn l among s t' ∧
          ∀ descriptor, x = .ok descriptor → descriptor.digest = Digest.sha256 content := by
    intro t' ht'
    refine Registry.ensures_blobStat ht'.laidOut (fun _ _ => ⟨ht', fun descriptor h => ?_⟩)
      fun _ _ => ⟨ht', fun _ h => by cases h⟩
    cases h
    rfl
  refine Ensures.bind (Registry.ensures_blobExists ht.laidOut (fun _ _ => hstat t ht) ?absent
    fun _ _ => ⟨ht, fun _ h => by cases h⟩)
  intro hmissing
  have hmem := ht.among_of_missing rfl hblob hmissing
  exact Ensures.bind (ensures_stored (Unreliable.putContent_path (hstat _ (ht.put rfl hmem _))
    fun _ _ => ⟨ht, fun _ h => by cases h⟩))

theorem keeps_putManifest {text : String} {m : SignedManifest}
    (hblob : d.fails ∨ s.file? (l.path (.blobData m.digest)) = none → among (.blobData m.digest))
    (hrevision : among (.revisionLink n m.digest))
    (hcurrent : ∀ tag, Tag.parse text = .ok tag → among (.currentLink n tag)) :
    Keeps d.view (DiffersIn l among s) ((d.repository l n).putManifest text m) := by
  intro t ht
  refine Ensures.bind (Ensures.ofExcept ?_)
  unfold tagOf
  cases htag : Tag.parse text with
  | error e => exact ht
  | ok tag =>
    simp only [Then]
    cases (d.repository l n).identityFault? tag m.manifest with
    | some e => exact Ensures.throw ht
    | none =>
      refine Ensures.bind ((reads_requireLayers m.manifest.layers t).mono ?_)
      rintro x t₁ rfl
      cases x with
      | error e => exact ht
      | ok _ =>
        refine Ensures.bind ((keeps_putBlob hblob t₁ ht).mono ?_)
        rintro x t₂ ⟨ht₂, hdigest⟩
        cases x with
        | error e => exact ht₂
        | ok descriptor =>
          simp only [Then, hdigest descriptor rfl]
          exact Keeps.bind (.stored (Unreliable.keeps_putContent rfl hrevision _))
            (fun _ => .bind (.stored (Unreliable.keeps_putContent rfl (hcurrent tag htag) _))
              fun _ => .pure _) t₂ ht₂

end Repository

/-! ### Operations -/

/-- The files that an operation is about. -/
def Operation.Touches (w : World) : Operation → Resource → Prop
  | start n id _, f | cancelUpload n id, f => f = .uploadData n id ∨ f = .uploadStartedAt n id
  | write handle _ _, f =>
    ∃ u, w.handles[handle]? = some u ∧ f = .uploadData u.name u.id
  | finish handle expected, f =>
    ∃ u, w.handles[handle]? = some u ∧
      (f = .uploadData u.name u.id ∨ f = .uploadStartedAt u.name u.id ∨ f = .blobData expected ∨
        f = .layerLink u.name expected)
  | cancel handle, f =>
    ∃ u, w.handles[handle]? = some u ∧
      (f = .uploadData u.name u.id ∨ f = .uploadStartedAt u.name u.id)
  | mount n digest, f => f = .layerLink n digest
  | putManifest n text document, f =>
    ∃ m, SignedManifest.parse document = .ok m ∧ (f = .blobData m.digest ∨
      f = .revisionLink n m.digest ∨ ∃ tag, Tag.parse text = .ok tag ∧ f = .currentLink n tag)
  | _, _ => False

namespace Session

variable {d : Unreliable} {l : Layout} {w : World} {s : d.State} {α : Type}
  {among : Resource → Prop}

theorem asks_differsIn (hw : w.store.LaidOut l) (hs : d.view.admits s)
    (hst : d.view.look s = w.store) {action : RegistryAction d.State α}
    (h : Keeps d.view (DiffersIn l among w.store) action) :
    DiffersIn l among w.store (d.view.look (asks ⟨s, w.handles⟩ action).storage) :=
  (h w.store (.refl hw) s hs hst).2

theorem asks_reads_differsIn (hw : w.store.LaidOut l) (hs : d.view.admits s)
    (hst : d.view.look s = w.store) {action : RegistryAction d.State α} (h : Reads d action) :
    DiffersIn l among w.store (d.view.look (asks ⟨s, w.handles⟩ action).storage) :=
  asks_differsIn hw hs hst (h.keeps _)

theorem opens_differsIn (hw : w.store.LaidOut l) (hs : d.view.admits s)
    (hst : d.view.look s = w.store) {action : RegistryAction d.State Upload}
    (h : Keeps d.view (DiffersIn l among w.store) action) :
    DiffersIn l among w.store (d.view.look (opens ⟨s, w.handles⟩ action).storage) := by
  have hdiffers := (h w.store (.refl hw) s hs hst).2
  unfold opens
  rcases ho : action.outcome s with ⟨_ | u, s'⟩
  all_goals
    rw [ho] at hdiffers
    exact hdiffers

theorem uses_differsIn (hw : w.store.LaidOut l) (hs : d.view.admits s)
    (hst : d.view.look s = w.store) {handle : Nat} {action : UploadAction d.State α}
    (h : ∀ u, w.handles[handle]? = some u →
      Keeps d.onHandle (Upload.Within u.name u.id l among w.store) action) :
    DiffersIn l among w.store (d.view.look (uses ⟨s, w.handles⟩ handle action).storage) := by
  simp only [uses]
  cases hu : w.handles[handle]? with
  | none =>
    rw [hst]
    exact .refl hw
  | some u =>
    have hwithin : Upload.Within u.name u.id l among w.store (u, w.store) :=
      ⟨⟨rfl, rfl⟩, .refl hw⟩
    exact ((h u hu _ hwithin) (u, s) hs (by simp [Unreliable.onHandle, hst])).2.2

/-- **An operation changes only the files that it is about**, however its storage
calls fail, and stored blobs not at all if none fails. -/
theorem act_differsIn (hw : w.store.LaidOut l) (hs : d.view.admits s)
    (hst : d.view.look s = w.store) (op : Operation) :
    DiffersIn l (fun f => op.Touches w f ∧ (d.fails ∨ w.store.IsWritable l f)) w.store
      (d.view.look (act (d.registry l) ⟨s, w.handles⟩ op).storage) := by
  cases op with
  | start n id now =>
    exact opens_differsIn hw hs hst
      (Upload.keeps_start ⟨Or.inl rfl, Or.inr (.of_owner rfl)⟩
        ⟨Or.inr rfl, Or.inr (.of_owner rfl)⟩ now)
  | resume n id =>
    exact opens_differsIn hw hs hst (.bind (.orUnknown ((Reads.getContent _).keeps _)) fun _ =>
      .bind (.ofExcept _) fun _ => .pure _)
  | size handle => exact uses_differsIn hw hs hst fun _ _ => Upload.keeps_size
  | write handle offset source =>
    exact uses_differsIn hw hs hst fun u hu =>
      Upload.keeps_write ⟨⟨u, hu, rfl⟩, Or.inr (.of_owner rfl)⟩ offset source
  | finish handle expected =>
    exact uses_differsIn hw hs hst fun u hu =>
      Upload.keeps_finish ⟨⟨u, hu, Or.inl rfl⟩, Or.inr (.of_owner rfl)⟩
        ⟨⟨u, hu, Or.inr (Or.inl rfl)⟩, Or.inr (.of_owner rfl)⟩
        (fun h => ⟨⟨u, hu, Or.inr (Or.inr (Or.inl rfl))⟩, h.imp_right fun hnone _ _ => hnone⟩)
        ⟨⟨u, hu, Or.inr (Or.inr (Or.inr rfl))⟩, Or.inr (.of_owner rfl)⟩
  | cancel handle =>
    exact uses_differsIn hw hs hst fun u hu => Upload.keeps_cancel
      ⟨⟨u, hu, Or.inl rfl⟩, Or.inr (.of_owner rfl)⟩ ⟨⟨u, hu, Or.inr rfl⟩, Or.inr (.of_owner rfl)⟩
  | cancelUpload n id =>
    exact asks_differsIn hw hs hst
      (Upload.keeps_remove ⟨Or.inl rfl, Or.inr (.of_owner rfl)⟩
        ⟨Or.inr rfl, Or.inr (.of_owner rfl)⟩)
  | mount n digest =>
    exact asks_differsIn hw hs hst (Repository.keeps_mount ⟨rfl, Or.inr (.of_owner rfl)⟩)
  | putManifest n text document =>
    simp only [act]
    cases hparsed : SignedManifest.parse document with
    | error e =>
      show DiffersIn l _ w.store (d.view.look s)
      rw [hst]
      exact .refl hw
    | ok m =>
      exact asks_differsIn hw hs hst (Repository.keeps_putManifest
        (fun h => ⟨⟨m, hparsed, Or.inl rfl⟩, h.imp_right fun hnone _ _ => hnone⟩)
        ⟨⟨m, hparsed, Or.inr (Or.inl rfl)⟩, Or.inr (.of_owner rfl)⟩
        fun tag htag => ⟨⟨m, hparsed, Or.inr (Or.inr ⟨tag, htag, rfl⟩)⟩, Or.inr (.of_owner rfl)⟩)
  | deleteManifest n reference => exact asks_reads_differsIn hw hs hst (Reads.throw _)
  | blobExists digest => exact asks_reads_differsIn hw hs hst (Registry.reads_blobExists digest)
  | blobStat digest => exact asks_reads_differsIn hw hs hst (Registry.reads_blobStat digest)
  | blobOpen digest offset =>
    exact asks_reads_differsIn hw hs hst (Registry.reads_blobOpen digest offset)
  | layerExists n digest =>
    exact asks_reads_differsIn hw hs hst (Repository.reads_layerExists digest)
  | layerStat n digest => exact asks_reads_differsIn hw hs hst (Repository.reads_layerStat digest)
  | layerOpen n digest offset =>
    exact asks_reads_differsIn hw hs hst (Repository.reads_layerOpen digest offset)
  | resolveTag n tag => exact asks_reads_differsIn hw hs hst (Repository.reads_resolveTag tag)
  | manifest n tag => exact asks_reads_differsIn hw hs hst (Repository.reads_manifest tag)
  | manifestByDigest n digest =>
    exact asks_reads_differsIn hw hs hst (Repository.reads_manifestByDigest digest)
  | manifestExists n tag =>
    exact asks_reads_differsIn hw hs hst (Repository.reads_manifestExists tag)
  | tags n => exact asks_reads_differsIn hw hs hst Repository.reads_tags
  | catalog => exact asks_reads_differsIn hw hs hst Registry.reads_catalog

end Session

/-- What an operation leaves in a file that it is not about. -/
theorem World.after_touches {d : Unreliable} {l : Layout} {w : World} {s : d.State}
    (hw : w.store.LaidOut l) (hs : d.view.admits s) (hst : d.view.look s = w.store)
    {op : Operation} {f : Resource} (hf : f.isFile = true) (hnot : ¬ op.Touches w f) :
    (w.after l d s op).store.file? (l.path f) = w.store.file? (l.path f) :=
  (Session.act_differsIn hw hs hst op).file? f hf fun h => hnot h.1

/-- **A stored blob is written once**: on storage that does not fail, no operation writes over
it. -/
theorem World.after_blob {d : Unreliable} (hd : ¬ d.fails) {l : Layout} {w : World} {s : d.State}
    (hw : w.store.LaidOut l) (hs : d.view.admits s) (hst : d.view.look s = w.store)
    {op : Operation} {digest : Digest} {content : Bytes}
    (hblob : w.store.file? (l.path (.blobData digest)) = some content) :
    (w.after l d s op).store.file? (l.path (.blobData digest)) = some content := by
  refine ((Session.act_differsIn hw hs hst op).file? (.blobData digest) rfl ?_).trans hblob
  rintro ⟨-, hfails | hwritable⟩
  · exact hd hfails
  · cases (hwritable digest rfl).symm.trans hblob

end ContainerRegistry
