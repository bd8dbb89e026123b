/-
# What holds in every reachable world

Whatever an operation is and however its storage calls fail, it has one of three
effects: it starts an upload, it appends to one, or it edits the store without
writing into any upload (`Effect`). The invariant of a world ties the store to
the handles and to what the observer wrote down: blobs have the contents that
their digests name, the bytes of an upload are those that landed in it, and every
handle has hashed a prefix of them. Each effect preserves it, so it holds in
every reachable world.

Key definitions: `Effect`, `World.Inv`.
Key theorems: `Session.act_effect`, `World.Inv.next`, `Reachable.inv`.
-/
import ContainerRegistry.Proofs.Finish
import ContainerRegistry.Proofs.Session

namespace ContainerRegistry

open ContainerRegistry.Action

/-- What an operation that writes into no upload sets out to do. -/
def Operation.quietly (l : Layout) (w : World) (op : Operation) : Intent :=
  ⟨fun _ _ => False, fun content => content ∈ op.offers l w⟩

/-- What an operation does to a world. -/
inductive Effect (l : Layout) (w : World) (op : Operation) : MemoryStore → List Upload → Prop where
  /-- No upload is written into. -/
  | quiet {t' : MemoryStore} {handles' : List Upload} (draws : op.draws = [])
      (edits : Edits l (op.quietly l w) w.store t')
      (handles : ∀ u ∈ handles', (u.name, u.id) ∈ w.drawn ∧ u.Tracks l w.store) :
      Effect l w op t' handles'
  /-- An upload is started, as far as storage lets it. -/
  | started {n id now} {t' : MemoryStore} {handles' : List Upload} (start : op = .start n id now)
      (edits : Edits l ⟨fun n' id' => n' = n ∧ id' = id, fun _ => False⟩ w.store t')
      (data : ∀ bytes, t'.file? (l.path (.uploadData n id)) = some bytes → bytes = [])
      (handles : ∀ u ∈ handles', u ∈ w.handles ∨ u = Upload.opened id n now) :
      Effect l w op t' handles'
  /-- A part of a source is appended to an upload. -/
  | wrote {handle offset source u u' bytes count}
      (write : op = .write handle offset source) (opened : w.handles[handle]? = some u)
      (data : w.store.file? (l.path (.uploadData u.name u.id)) = some bytes)
      (bound : count ≤ source.bytes.length) (same : Upload.Same u u')
      (covers : u'.Covers (bytes ++ source.bytes.take count)) :
      Effect l w op (w.store.put (l.path (.uploadData u.name u.id))
        (bytes ++ source.bytes.take count)) (w.handles.set handle u')

/-- What ties a world together. -/
structure World.Inv (l : Layout) (w : World) : Prop where
  laidOut : w.store.LaidOut l
  /-- A blob has the content that its digest names, which was offered for it. -/
  addressed : w.store.Addressed l fun content => content ∈ w.offered
  /-- Only an upload that was started has files. -/
  drawn : ∀ n id f bytes, f = .uploadData n id ∨ f = .uploadStartedAt n id →
    w.store.file? (l.path f) = some bytes → (n, id) ∈ w.drawn
  /-- A handle is on an upload that was started, and tracks it. -/
  handles : ∀ u ∈ w.handles, (u.name, u.id) ∈ w.drawn ∧ u.Tracks l w.store
  /-- The bytes of an upload are those that landed. -/
  landed : ∀ n id bytes, w.store.file? (l.path (.uploadData n id)) = some bytes →
    bytes = w.landedIn n id
  /-- Bytes land only in uploads that were started. -/
  landed_drawn : ∀ e ∈ w.landed, e.1 ∈ w.drawn

variable {l : Layout} {w : World} {op : Operation} {t' : MemoryStore} {handles' : List Upload}

/-! ### Effects of operations -/

/-- Every effect is a number of edits. -/
theorem Effect.edits (h : Effect l w op t' handles') (hw : w.Inv l) :
    Edits l ⟨fun _ _ => True, fun content => content ∈ op.offers l w⟩ w.store t' := by
  cases h with
  | quiet _ edits _ => exact edits.mono (fun _ _ _ => trivial) fun _ h => h
  | started _ edits _ _ => exact edits.mono (fun _ _ _ => trivial) fun _ h => h.elim
  | wrote => exact .single (Edit.put hw.laidOut rfl (.data trivial))

namespace Session

variable {d : Unreliable} {s : d.State} {α : Type}

/-- An action on the storage alone that only edits the store. -/
theorem asks_effect (hw : w.Inv l) (hs : d.view.admits s) (hst : d.view.look s = w.store)
    (hdraws : op.draws = []) {action : RegistryAction d.State α}
    (h : action.Ensures d.view w.store fun _ t' => Edits l (op.quietly l w) w.store t') :
    Effect l w op (d.view.look (asks ⟨s, w.handles⟩ action).storage)
      (asks ⟨s, w.handles⟩ action).handles :=
  .quiet hdraws (h s hs hst).2 hw.handles

/-- An action that only asks. -/
theorem asks_reads (hw : w.Inv l) (hs : d.view.admits s) (hst : d.view.look s = w.store)
    (hdraws : op.draws = []) {action : RegistryAction d.State α} (h : Reads d action) :
    Effect l w op (d.view.look (asks ⟨s, w.handles⟩ action).storage)
      (asks ⟨s, w.handles⟩ action).handles :=
  asks_effect hw hs hst hdraws ((h w.store).mono fun _ _ ht' => ht' ▸ .refl)

/-- An action on a handle that writes into no upload. -/
theorem uses_effect (hw : w.Inv l) (hs : d.view.admits s) (hst : d.view.look s = w.store)
    (hdraws : op.draws = []) (handle : Nat) {action : UploadAction d.State α}
    (h : ∀ u, w.handles[handle]? = some u → action.Ensures d.onHandle (u, w.store) fun _ =>
      Upload.Kept l (op.quietly l w) w.store u) :
    Effect l w op (d.view.look (uses ⟨s, w.handles⟩ handle action).storage)
      (uses ⟨s, w.handles⟩ handle action).handles := by
  simp only [uses]
  cases hu : w.handles[handle]? with
  | none => exact .quiet hdraws (hst ▸ .refl) hw.handles
  | some u =>
    obtain ⟨-, hedits, hname, hid, htracks⟩ := h u hu (u, s) hs (by simp [Unreliable.onHandle, hst])
    refine .quiet hdraws hedits fun v hv => ?_
    rcases List.mem_or_eq_of_mem_set hv with hv | rfl
    · exact hw.handles v hv
    · refine ⟨?_, htracks⟩
      have hdrawn := (hw.handles u (List.mem_of_getElem? hu)).1
      rw [← hname, ← hid] at hdrawn
      exact hdrawn

/-- A start is of an upload that has no files yet. -/
theorem start_effect (hw : w.Inv l) (hs : d.view.admits s) (hst : d.view.look s = w.store)
    {n : RepositoryName} {id : UploadId} {now : Instant}
    (hfresh : (Operation.start n id now).IsFresh w) :
    Effect l w (.start n id now)
      (d.view.look (act (d.registry l) ⟨s, w.handles⟩ (.start n id now)).storage)
      (act (d.registry l) ⟨s, w.handles⟩ (.start n id now)).handles := by
  have hnone : w.store.file? (l.path (.uploadData n id)) = none := by
    refine Option.eq_none_iff_forall_ne_some.2 fun bytes hbytes => ?_
    exact hfresh (n, id) List.mem_cons_self (hw.drawn n id _ bytes (Or.inl rfl) hbytes)
  obtain ⟨-, hedits, hdata, hopened⟩ := Upload.start_edits
    (i := ⟨fun n' id' => n' = n ∧ id' = id, fun _ => False⟩) hw.laidOut now ⟨rfl, rfl⟩ hnone
    s hs hst
  simp only [act, opens]
  rcases ho : (Upload.start (d.repository l n) id now).outcome s with ⟨e | u, s'⟩
  · simp only [ho] at hedits hdata hopened ⊢
    exact .started rfl hedits hdata fun u hu => Or.inl hu
  · simp only [ho] at hedits hdata hopened ⊢
    refine .started rfl hedits hdata fun v hv => ?_
    rcases List.mem_append.1 hv with hv | hv
    · exact Or.inl hv
    · rw [List.mem_singleton.1 hv]
      exact Or.inr (hopened u rfl)

theorem resume_effect (hw : w.Inv l) (hs : d.view.admits s) (hst : d.view.look s = w.store)
    (n : RepositoryName) (id : UploadId) :
    Effect l w (.resume n id)
      (d.view.look (act (d.registry l) ⟨s, w.handles⟩ (.resume n id)).storage)
      (act (d.registry l) ⟨s, w.handles⟩ (.resume n id)).handles := by
  obtain ⟨-, hsame, hopened⟩ := Upload.resume_reads (l := l) (t := w.store) n id s hs hst
  simp only [act, opens]
  rcases ho : (Upload.resume (d.repository l n) id).outcome s with ⟨e | u, s'⟩
  · simp only [ho] at hsame ⊢
    exact .quiet rfl (hsame ▸ .refl) hw.handles
  · simp only [ho] at hsame hopened ⊢
    refine .quiet rfl (hsame ▸ .refl) fun v hv => ?_
    rcases List.mem_append.1 hv with hv | hv
    · exact hw.handles v hv
    · rw [List.mem_singleton.1 hv]
      obtain ⟨⟨started, rfl⟩, content, hcontent⟩ := hopened u rfl
      exact ⟨hw.drawn n id _ content (Or.inr rfl) hcontent,
        fun bytes _ => .opened id n started bytes⟩

theorem write_effect (hw : w.Inv l) (hs : d.view.admits s) (hst : d.view.look s = w.store)
    (handle offset : Nat) (source : Source) :
    Effect l w (.write handle offset source)
      (d.view.look (uses ⟨s, w.handles⟩ handle (Upload.write (d.registry l) offset source)).storage)
      (uses ⟨s, w.handles⟩ handle (Upload.write (d.registry l) offset source)).handles := by
  simp only [uses]
  cases hu : w.handles[handle]? with
  | none => exact .quiet rfl (hst ▸ .refl) hw.handles
  | some u =>
    obtain ⟨hdrawn, htracks⟩ := hw.handles u (List.mem_of_getElem? hu)
    obtain ⟨-, hsame, hstore⟩ := Upload.write_covers hw.laidOut htracks offset source (u, s) hs
      (by simp [Unreliable.onHandle, hst])
    rcases hstore with ⟨hkept, htracks'⟩ | ⟨bytes, count, hdata, hbound, hput, hcovers⟩
    · refine .quiet rfl (hkept ▸ .refl) fun v hv => ?_
      rcases List.mem_or_eq_of_mem_set hv with hv | rfl
      · exact hw.handles v hv
      · refine ⟨?_, htracks'⟩
        rw [← hsame.name, ← hsame.id] at hdrawn
        exact hdrawn
    · have heffect : Effect l w (.write handle offset source) _ _ :=
        .wrote rfl hu hdata hbound hsame hcovers
      rw [← hput] at heffect
      exact heffect

/-- **An operation starts an upload, appends to one, or edits the store quietly.** -/
theorem act_effect (hw : w.Inv l) (hs : d.view.admits s) (hst : d.view.look s = w.store)
    (hfresh : op.IsFresh w) :
    Effect l w op (d.view.look (act (d.registry l) ⟨s, w.handles⟩ op).storage)
      (act (d.registry l) ⟨s, w.handles⟩ op).handles := by
  cases op with
  | start n id now => exact start_effect hw hs hst hfresh
  | resume n id => exact resume_effect hw hs hst n id
  | write handle offset source => exact write_effect hw hs hst handle offset source
  | size handle =>
    refine uses_effect hw hs hst rfl handle fun u hu => ?_
    have htracks := (hw.handles u (List.mem_of_getElem? hu)).2
    exact Upload.ensures_size hw.laidOut (fun _ _ _ => ⟨.refl, rfl, rfl, htracks⟩)
      fun _ _ => ⟨.refl, rfl, rfl, htracks⟩
  | finish handle expected =>
    refine uses_effect hw hs hst rfl handle fun u hu => ?_
    refine Upload.finish_edits hw.laidOut (hw.handles u (List.mem_of_getElem? hu)).2 ?_ expected
    intro bytes hbytes
    simp only [Operation.quietly, Operation.offers, hu, hbytes]
    exact List.mem_singleton_self bytes
  | cancel handle =>
    exact uses_effect hw hs hst rfl handle fun u hu =>
      Upload.cancel_edits hw.laidOut (hw.handles u (List.mem_of_getElem? hu)).2
  | cancelUpload n id =>
    exact asks_effect hw hs hst rfl (Upload.remove_edits hw.laidOut n id)
  | mount n digest =>
    exact asks_effect hw hs hst rfl (Repository.mount_edits hw.laidOut digest)
  | putManifest n tag document =>
    simp only [act]
    cases hparsed : SignedManifest.parse document with
    | error e => exact .quiet rfl (hst ▸ .refl) hw.handles
    | ok m =>
      obtain rfl := SignedManifest.raw_of_parse hparsed
      refine asks_effect hw hs hst rfl (Repository.putManifest_edits hw.laidOut tag hparsed ?_)
      simp only [Operation.quietly, Operation.offers, hparsed]
      exact List.mem_singleton_self _
  | deleteManifest n reference => exact asks_reads hw hs hst rfl (Reads.throw _)
  | blobExists digest => exact asks_reads hw hs hst rfl (Registry.reads_blobExists digest)
  | blobStat digest => exact asks_reads hw hs hst rfl (Registry.reads_blobStat digest)
  | blobOpen digest offset => exact asks_reads hw hs hst rfl (Registry.reads_blobOpen digest offset)
  | layerExists n digest => exact asks_reads hw hs hst rfl (Repository.reads_layerExists digest)
  | layerStat n digest => exact asks_reads hw hs hst rfl (Repository.reads_layerStat digest)
  | layerOpen n digest offset =>
    exact asks_reads hw hs hst rfl (Repository.reads_layerOpen digest offset)
  | resolveTag n tag => exact asks_reads hw hs hst rfl (Repository.reads_resolveTag tag)
  | manifest n tag => exact asks_reads hw hs hst rfl (Repository.reads_manifest tag)
  | manifestByDigest n digest =>
    exact asks_reads hw hs hst rfl (Repository.reads_manifestByDigest digest)
  | manifestExists n tag => exact asks_reads hw hs hst rfl (Repository.reads_manifestExists tag)
  | tags n => exact asks_reads hw hs hst rfl Repository.reads_tags
  | catalog => exact asks_reads hw hs hst rfl Registry.reads_catalog

end Session

/-! ### The invariant -/

/-- Edits that write into no upload leave its files as they are or remove them. -/
theorem Edits.quiet_file (h : Edits l (op.quietly l w) w.store t') {n : RepositoryName}
    {id : UploadId} {f : Resource} (hf : f = .uploadData n id ∨ f = .uploadStartedAt n id)
    {bytes : Bytes} (hfile : t'.file? (l.path f) = some bytes) :
    w.store.file? (l.path f) = some bytes := by
  rcases Edits.upload_file h (fun h => h.elim) hf with hsame | hgone
  · exact hsame ▸ hfile
  · cases hgone.symm.trans hfile

/-- A start writes into its own upload only. -/
theorem Edits.started_file {n n' : RepositoryName} {id id' : UploadId}
    (h : Edits l ⟨fun n'' id'' => n'' = n ∧ id'' = id, fun _ => False⟩ w.store t')
    (hother : (n', id') ≠ (n, id)) {f : Resource}
    (hf : f = .uploadData n' id' ∨ f = .uploadStartedAt n' id') {bytes : Bytes}
    (hfile : t'.file? (l.path f) = some bytes) : w.store.file? (l.path f) = some bytes := by
  rcases Edits.upload_file h (fun h => hother (Prod.ext h.1 h.2)) hf with hsame | hgone
  · exact hsame ▸ hfile
  · cases hgone.symm.trans hfile

namespace World

theorem inv_empty : World.empty.Inv l where
  laidOut := MemoryStore.laidOut_empty
  addressed _ _ h := absurd h (MemoryStore.file?_empty_ne _ _)
  drawn _ _ _ _ _ h := absurd h (MemoryStore.file?_empty_ne _ _)
  handles _ h := by cases h
  landed _ _ _ h := absurd h (MemoryStore.file?_empty_ne _ _)
  landed_drawn _ h := by cases h

/-- What landed in an upload grows by what an operation adds to it. -/
theorem landedIn_next (n : RepositoryName) (id : UploadId) :
    (w.next l op t' handles').landedIn n id = w.landedIn n id ++
      ((op.lands l w t').filter fun e => e.1 = (n, id)).flatMap Prod.snd := by
  simp [landedIn, next, List.filter_append]

/-- Bytes land in the upload of a handle. -/
theorem Inv.lands_drawn (hw : w.Inv l) : ∀ e ∈ op.lands l w t', e.1 ∈ w.drawn := by
  intro e he
  cases op with
  | write handle offset source =>
    simp only [Operation.lands] at he
    cases hu : w.handles[handle]? with
    | none => simp [hu] at he
    | some u =>
      simp only [hu, List.mem_singleton] at he
      rw [he]
      exact (hw.handles u (List.mem_of_getElem? hu)).1
  | _ => cases he

/-- In a store that is edited quietly, nothing lands. -/
theorem landedIn_quiet (h : Edits l (op.quietly l w) w.store t') (n : RepositoryName)
    (id : UploadId) : (w.next l op t' handles').landedIn n id = w.landedIn n id := by
  have hnil : ∀ e ∈ op.lands l w t', e.2 = [] := by
    intro e he
    cases op with
    | write handle offset source =>
      simp only [Operation.lands] at he
      cases hu : w.handles[handle]? with
      | none => simp [hu] at he
      | some u =>
        simp only [hu, List.mem_singleton] at he
        have hsize : t'.dataSize l u ≤ w.store.dataSize l u := by
          cases hfile : t'.file? (l.path (.uploadData u.name u.id)) with
          | none => simp [MemoryStore.dataSize, hfile]
          | some bytes => simp [MemoryStore.dataSize, hfile, Edits.quiet_file h (Or.inl rfl) hfile]
        rw [he, Nat.sub_eq_zero_of_le hsize, List.take_zero]
    | _ => cases he
  have hnone : ((op.lands l w t').filter fun e => e.1 = (n, id)).flatMap Prod.snd = [] := by
    rw [List.flatMap_eq_nil_iff]
    exact fun e he => hnil e (List.mem_filter.1 he).1
  rw [landedIn_next, hnone, List.append_nil]

/-- Nothing has landed in an upload that was not started. -/
theorem Inv.landedIn_eq_nil (hw : w.Inv l) {n : RepositoryName} {id : UploadId}
    (hfresh : (n, id) ∉ w.drawn) : w.landedIn n id = [] := by
  rw [landedIn, List.flatMap_eq_nil_iff]
  intro e he
  obtain ⟨hmem, hkey⟩ := List.mem_filter.1 he
  have hkey' : e.1 = (n, id) := by simpa using hkey
  exact absurd (hkey' ▸ hw.landed_drawn e hmem) hfresh

/-- What an operation offers is offered from then on. -/
theorem Inv.next_addressed (hw : w.Inv l) (h : Effect l w op t' handles') :
    t'.Addressed l fun content => content ∈ op.offers l w ++ w.offered :=
  (h.edits hw).addressed (fun _ hc => List.mem_append_left _ hc)
    fun digest content hfile =>
      ⟨(hw.addressed digest content hfile).1,
        List.mem_append_right _ (hw.addressed digest content hfile).2⟩

theorem Inv.next_landed_drawn (hw : w.Inv l) :
    ∀ e ∈ w.landed ++ op.lands l w t', e.1 ∈ op.draws ++ w.drawn := by
  intro e he
  refine List.mem_append_right _ ?_
  rcases List.mem_append.1 he with he | he
  · exact hw.landed_drawn e he
  · exact hw.lands_drawn e he

/-- Quiet edits preserve the invariant. -/
theorem Inv.next_quiet (hw : w.Inv l) (hdraws : op.draws = [])
    (hedits : Edits l (op.quietly l w) w.store t')
    (hhandles : ∀ u ∈ handles', (u.name, u.id) ∈ w.drawn ∧ u.Tracks l w.store) :
    (w.next l op t' handles').Inv l where
  laidOut := hedits.laidOut hw.laidOut
  addressed := hw.next_addressed (.quiet hdraws hedits hhandles)
  drawn n id f bytes hf hfile :=
    List.mem_append_right _ (hw.drawn n id f bytes hf (hedits.quiet_file hf hfile))
  handles u hu :=
    ⟨List.mem_append_right _ (hhandles u hu).1,
      fun bytes hfile => (hhandles u hu).2 bytes (hedits.quiet_file (Or.inl rfl) hfile)⟩
  landed n id bytes hfile := by
    rw [landedIn_quiet hedits]
    exact hw.landed n id bytes (hedits.quiet_file (Or.inl rfl) hfile)
  landed_drawn := hw.next_landed_drawn

/-- Starting an upload preserves the invariant: its identifier is new, so no handle
and no bytes are of it yet. -/
theorem Inv.next_started (hw : w.Inv l) {n : RepositoryName} {id : UploadId} {now : Instant}
    (hfresh : (n, id) ∉ w.drawn)
    (hedits : Edits l ⟨fun n' id' => n' = n ∧ id' = id, fun _ => False⟩ w.store t')
    (hdata : ∀ bytes, t'.file? (l.path (.uploadData n id)) = some bytes → bytes = [])
    (hhandles : ∀ u ∈ handles', u ∈ w.handles ∨ u = Upload.opened id n now) :
    (w.next l (.start n id now) t' handles').Inv l where
  laidOut := hedits.laidOut hw.laidOut
  addressed := hw.next_addressed (.started rfl hedits hdata hhandles)
  drawn n' id' f bytes hf hfile := by
    by_cases hkey : (n', id') = (n, id)
    · rw [hkey]
      exact List.mem_cons_self
    · exact List.mem_cons_of_mem _ (hw.drawn n' id' f bytes hf (hedits.started_file hkey hf hfile))
  handles u hu := by
    rcases hhandles u hu with hold | rfl
    · obtain ⟨hdrawn, htracks⟩ := hw.handles u hold
      refine ⟨List.mem_cons_of_mem _ hdrawn, fun bytes hfile => htracks bytes ?_⟩
      exact hedits.started_file (fun hkey => hfresh (hkey ▸ hdrawn)) (Or.inl rfl) hfile
    · exact ⟨List.mem_cons_self, fun bytes _ => .opened id n now bytes⟩
  landed n' id' bytes hfile := by
    have hsame : (w.next l (.start n id now) t' handles').landedIn n' id' = w.landedIn n' id' := by
      rw [landedIn_next]
      exact List.append_nil _
    rw [hsame]
    by_cases hkey : (n', id') = (n, id)
    · obtain ⟨rfl, rfl⟩ := Prod.mk.inj hkey
      rw [hw.landedIn_eq_nil hfresh]
      exact hdata bytes hfile
    · exact hw.landed n' id' bytes (hedits.started_file hkey (Or.inl rfl) hfile)
  landed_drawn := hw.next_landed_drawn

/-- Appending to an upload preserves the invariant: what other handles have hashed
of it is still a prefix. -/
theorem Inv.next_wrote (hw : w.Inv l) {handle offset count : Nat} {source : Source}
    {u u' : Upload} {bytes : Bytes} (hopened : w.handles[handle]? = some u)
    (hdata : w.store.file? (l.path (.uploadData u.name u.id)) = some bytes)
    (hbound : count ≤ source.bytes.length) (hsame : Upload.Same u u')
    (hcovers : u'.Covers (bytes ++ source.bytes.take count)) :
    (w.next l (.write handle offset source) (w.store.put (l.path (.uploadData u.name u.id))
      (bytes ++ source.bytes.take count)) (w.handles.set handle u')).Inv l := by
  obtain ⟨hdrawn, -⟩ := hw.handles u (List.mem_of_getElem? hopened)
  have heffect : Effect l w (.write handle offset source) _ _ :=
    .wrote rfl hopened hdata hbound hsame hcovers
  -- a file of an upload is the one that was written, or it is as it was
  have hfiles : ∀ f, (w.store.put (l.path (.uploadData u.name u.id))
      (bytes ++ source.bytes.take count)).file? (l.path f) =
        if f = .uploadData u.name u.id then some (bytes ++ source.bytes.take count)
        else w.store.file? (l.path f) :=
    fun f => MemoryStore.file?_put_path rfl f _
  have hlands : (Operation.write handle offset source).lands l w
      (w.store.put (l.path (.uploadData u.name u.id)) (bytes ++ source.bytes.take count)) =
        [((u.name, u.id), source.bytes.take count)] := by
    simp only [Operation.lands, hopened, MemoryStore.dataSize, hfiles, hdata, if_true,
      Option.getD_some, List.length_append, List.length_take]
    rw [Nat.add_sub_cancel_left, Nat.min_eq_left hbound]
  constructor
  case laidOut => exact (heffect.edits hw).laidOut hw.laidOut
  case addressed => exact hw.next_addressed heffect
  case landed_drawn => exact hw.next_landed_drawn
  case drawn =>
    intro n id f bytes' hf hfile
    simp only [next, hfiles] at hfile
    by_cases hwritten : f = .uploadData u.name u.id
    · rcases hf with rfl | rfl
      · obtain ⟨rfl, rfl⟩ := Resource.uploadData.inj hwritten
        exact hdrawn
      · cases hwritten
    · rw [if_neg hwritten] at hfile
      exact hw.drawn n id f bytes' hf hfile
  case handles =>
    intro v hv
    rcases List.mem_or_eq_of_mem_set hv with hv | rfl
    · obtain ⟨hvdrawn, htracks⟩ := hw.handles v hv
      refine ⟨hvdrawn, fun bytes' hfile => ?_⟩
      simp only [next, hfiles] at hfile
      by_cases hwritten : Resource.uploadData v.name v.id = .uploadData u.name u.id
      · rw [if_pos hwritten] at hfile
        rw [← Option.some.inj hfile]
        rw [← hwritten] at hdata
        exact (htracks bytes hdata).append _
      · rw [if_neg hwritten] at hfile
        exact htracks bytes' hfile
    · refine ⟨by rw [hsame.name, hsame.id]; exact hdrawn, fun bytes' hfile => ?_⟩
      simp only [next, hfiles] at hfile
      rw [if_pos (by rw [hsame.name, hsame.id])] at hfile
      rw [← Option.some.inj hfile]
      exact hcovers
  case landed =>
    intro n id bytes' hfile
    rw [landedIn_next, hlands]
    simp only [next, hfiles] at hfile
    by_cases hwritten : Resource.uploadData n id = .uploadData u.name u.id
    · rw [if_pos hwritten] at hfile
      obtain ⟨rfl, rfl⟩ := Resource.uploadData.inj hwritten
      rw [← Option.some.inj hfile, ← hw.landed _ _ bytes hdata]
      simp
    · rw [if_neg hwritten] at hfile
      have hkey : ¬ (u.name, u.id) = (n, id) := by
        intro hkey
        obtain ⟨rfl, rfl⟩ := Prod.mk.inj hkey
        exact hwritten rfl
      rw [List.filter_cons_of_neg (by simpa using hkey), List.filter_nil, List.flatMap_nil,
        List.append_nil]
      exact hw.landed n id bytes' hfile

/-- **Every operation preserves the invariant.** -/
theorem Inv.next (hw : w.Inv l) (hfresh : op.IsFresh w) (h : Effect l w op t' handles') :
    (w.next l op t' handles').Inv l := by
  cases h with
  | quiet draws edits handles => exact hw.next_quiet draws edits handles
  | started start edits data handles =>
    subst start
    exact hw.next_started (hfresh _ List.mem_cons_self) edits data handles
  | wrote write opened data bound same covers =>
    subst write
    exact hw.next_wrote opened data bound same covers

end World

/-- **The invariant holds in every reachable world.** -/
theorem Reachable.inv (h : Reachable l w) : w.Inv l := by
  induction h with
  | empty => exact World.inv_empty
  | step _ d s admitted stored op fresh ih =>
    exact ih.next fresh (Session.act_effect ih admitted stored fresh)

end ContainerRegistry
