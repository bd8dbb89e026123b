/-
# The life of an upload

On storage that does not fail, an upload lives from its start until a handle on it is
finished or cancelled, or it is cancelled by its identifier (`IsOpen`). What is on storage
follows this history exactly: an open upload has its two files, of which the start time is
the one that its handles bear, and any other has none (`Chronicle.registered`). So an
upload can be resumed exactly while it is open, and a handle that still writes on one that
is not finds nothing to write to. A handle that was finished or cancelled stays as it is for
good, and does not touch the store any more.

Key definitions: `Operation.Retires`, `IsOpen`, `Upload.Ages`, `FilesFollow`, `Registered`,
`Lifecycle`.
Key theorems: `isOpen_concat`, `World.after_handle`, `World.after_unretired`,
`World.after_retires`, `FilesFollow.step`, `Chronicle.registered`, `Chronicle.lifecycle`.
-/
import ContainerRegistry.Proofs.Instant
import ContainerRegistry.Proofs.Outcome
import ContainerRegistry.Proofs.Visibility

namespace ContainerRegistry

open ContainerRegistry.Action

variable {l : Layout} {w : World} {past : List (World × Operation)} {op : Operation}
  {n : RepositoryName} {id : UploadId}

namespace Operation

/-- An operation starts an upload. -/
def Starts (n : RepositoryName) (id : UploadId) : Operation → Prop
  | start m i _ => m = n ∧ i = id
  | _ => False

/-- An operation ends an upload: a handle on it is finished or cancelled, or it is cancelled
by its identifier, and the call succeeds. -/
def Retires (l : Layout) (w : World) (n : RepositoryName) (id : UploadId) : Operation → Prop
  | finish handle expected => ∃ u, w.handles[handle]? = some u ∧ (u.name = n ∧ u.id = id) ∧
    ∃ descriptor, ((Upload.finish l.inMemory expected).outcome (u, w.store)).1 = .ok descriptor
  | cancel handle => ∃ u, w.handles[handle]? = some u ∧ (u.name = n ∧ u.id = id) ∧
    ((Upload.cancel l.inMemory).outcome (u, w.store)).1 = .ok ()
  | cancelUpload m i => m = n ∧ i = id
  | _ => False

/-- The clock that an upload is started by shows a time that can be written down. -/
def IsDated : Operation → Prop
  | start _ _ now => now.IsCivil
  | _ => True

theorem Starts.not_retires (h : op.Starts n id) : ¬ op.Retires l w n id := by
  cases op with
  | start => exact fun hretires => hretires
  | _ => exact h.elim

end Operation

/-- An upload was started, and since then no handle on it has been finished or cancelled, nor
was it cancelled by its identifier. -/
def IsOpen (l : Layout) (past : List (World × Operation)) (n : RepositoryName) (id : UploadId) :
    Prop :=
  ∃ before e after, past = before ++ e :: after ∧ e.2.Starts n id ∧
    ∀ e' ∈ after, ¬ e'.2.Retires l e'.1 n id

theorem not_isOpen_nil : ¬ IsOpen l [] n id := by
  rintro ⟨before, e, after, hpast, -⟩
  simp at hpast

/-- With one more operation, an upload is open if it is started, or it was open and is not
retired. -/
theorem isOpen_concat : IsOpen l (past ++ [(w, op)]) n id ↔
    op.Starts n id ∨ (IsOpen l past n id ∧ ¬ op.Retires l w n id) := by
  constructor
  · rintro ⟨before, e, after, hpast, hstarts, hkept⟩
    rcases List.eq_nil_or_concat after with rfl | ⟨after', x, rfl⟩
    · obtain ⟨-, hlast⟩ := List.append_inj' hpast rfl
      obtain rfl : (w, op) = e := List.singleton_inj.1 hlast
      exact Or.inl hstarts
    · rw [List.concat_eq_append] at hpast hkept
      rw [← List.cons_append, ← List.append_assoc] at hpast
      obtain ⟨hinit, hlast⟩ := List.append_inj' hpast rfl
      obtain rfl : (w, op) = x := List.singleton_inj.1 hlast
      refine Or.inr ⟨⟨before, e, after', hinit, hstarts, fun e' he' => ?_⟩, ?_⟩
      · exact hkept e' (List.mem_append_left _ he')
      · exact hkept _ (List.mem_append_right _ (List.mem_singleton_self _))
  · rintro (hstarts | ⟨⟨before, e, after, rfl, hstarts, hkept⟩, hnot⟩)
    · exact ⟨past, (w, op), [], rfl, hstarts, fun _ h => absurd h List.not_mem_nil⟩
    · refine ⟨before, e, after ++ [(w, op)], by simp, hstarts, fun e' he' => ?_⟩
      rcases List.mem_append.1 he' with he' | he'
      · exact hkept e' he'
      · rw [List.mem_singleton.1 he']
        exact hnot

/-! ### What is done with a handle, case by case -/

namespace Upload

variable {t : MemoryStore} {u : Upload}

theorem size_cases (ht : t.LaidOut l) (u : Upload) :
    ∃ x, (size l.inMemory).outcome (u, t) = (x, (u, t)) := by
  by_cases hstate : u.state = .writing
  · cases hfile : t.file? (l.path (.uploadData u.name u.id)) with
    | some bytes => exact ⟨_, outcome_size_stored ht hstate hfile⟩
    | none => exact ⟨_, outcome_size_gone ht hstate hfile⟩
  · exact ⟨_, outcome_size_closed _ hstate⟩

/-- A write leaves the store as it is, or appends to the upload. -/
theorem write_cases (ht : t.LaidOut l) (htracks : u.Tracks l t) (offset : Nat) (source : Source) :
    ∃ x v t', (write l.inMemory offset source).outcome (u, t) = (x, (v, t')) ∧ Same u v ∧
      (u.state ≠ .writing → v = u) ∧ (t' = t ∨ ∃ bytes more,
        t.file? (l.path (.uploadData u.name u.id)) = some bytes ∧
          t' = t.put (l.path (.uploadData u.name u.id)) (bytes ++ more)) := by
  by_cases hstate : u.state = .writing
  · cases hfile : t.file? (l.path (.uploadData u.name u.id)) with
    | none =>
      exact ⟨_, u, t, outcome_write_gone ht hstate hfile offset source, .refl u, fun _ => rfl,
        Or.inl rfl⟩
    | some bytes =>
      by_cases hoffset : offset = bytes.length
      · have hwrite := outcome_write_stored ht hstate hfile (htracks bytes hfile) source
        rw [← hoffset] at hwrite
        cases hfailure : source.failure with
        | some e =>
          rw [hfailure] at hwrite
          exact ⟨_, _, t, hwrite, same_caught bytes u, fun h => absurd hstate h, Or.inl rfl⟩
        | none =>
          rw [hfailure] at hwrite
          exact ⟨_, _, _, hwrite, (same_caught bytes u).trans (same_hash _ _),
            fun h => absurd hstate h, Or.inr ⟨bytes, _, rfl, rfl⟩⟩
      · exact ⟨_, u, t, outcome_write_offset ht hstate hfile hoffset source, .refl u, fun _ => rfl,
          Or.inl rfl⟩
  · exact ⟨_, u, t, outcome_write_closed _ hstate offset source, .refl u, fun _ => rfl, Or.inl rfl⟩

/-- A finish succeeds and retires the upload, or fails and leaves the store as it is. -/
theorem finish_cases (ht : t.LaidOut l) (htracks : u.Tracks l t) (expected : Digest) :
    (∃ (descriptor : Descriptor) (v : Upload) (s : MemoryStore),
      (finish l.inMemory expected).outcome (u, t) =
        (.ok descriptor, ({ v with state := .finished }, s.committed l u.name u.id expected)) ∧
      u.state = .writing ∧ Same u v ∧ s.LaidOut l) ∨
    ∃ e v, (finish l.inMemory expected).outcome (u, t) = (.error e, (v, t)) ∧ Same u v ∧
      (u.state ≠ .writing → v = u) := by
  by_cases hstate : u.state = .writing
  · cases hfile : t.file? (l.path (.uploadData u.name u.id)) with
    | some bytes =>
      have hcovers := htracks bytes hfile
      by_cases hdigest : Digest.ofBytes expected.algorithm bytes = expected
      · exact Or.inl ⟨_, _, _, outcome_finish_match ht hstate hfile hcovers hdigest, hstate,
          same_caught bytes u, ht.settled hfile expected⟩
      · exact Or.inr ⟨_, _, outcome_finish_mismatch ht hstate hfile hcovers hdigest,
          same_caught bytes u, fun h => absurd hstate h⟩
    | none =>
      cases hblob : t.file? (l.path (.blobData expected)) with
      | some content =>
        exact Or.inl ⟨_, u, t, outcome_finish_moved ht hstate hfile hblob, hstate, .refl u, ht⟩
      | none =>
        exact Or.inr ⟨_, u, outcome_finish_gone ht hstate hfile hblob, .refl u, fun _ => rfl⟩
  · exact Or.inr ⟨_, u, outcome_finish_closed _ hstate expected, .refl u, fun _ => rfl⟩

/-- A handle that does not write any more is not changed by a cancel, nor is the store. -/
theorem cancel_closed (hstate : u.state ≠ .writing) :
    ∃ x, (cancel l.inMemory).outcome (u, t) = (x, (u, t)) := by
  cases hclosed : u.state with
  | writing => exact absurd hclosed hstate
  | cancelled => exact ⟨_, outcome_cancel_cancelled _ hclosed⟩
  | finished => exact ⟨_, outcome_cancel_finished _ hclosed⟩

end Upload

/-! ### What becomes of handles -/

/-- What an operation makes of a handle: it stays on its upload, stays as it is once it is
closed, and is closed only when its upload is retired. -/
structure Upload.Ages (l : Layout) (w : World) (op : Operation) (u u' : Upload) : Prop where
  name : u'.name = u.name
  id : u'.id = u.id
  started : u'.started = u.started
  closed : u.state ≠ .writing → u' = u
  retires : u'.state ≠ .writing → u.state = .writing → op.Retires l w u.name u.id

namespace Upload.Ages

variable {u u' : Upload}

theorem refl (u : Upload) : Ages l w op u u :=
  ⟨rfl, rfl, rfl, fun _ => rfl, fun h h' => absurd h' h⟩

theorem of_same (h : Same u u') (hclosed : u.state ≠ .writing → u' = u) : Ages l w op u u' :=
  ⟨h.name, h.id, h.started, hclosed, fun hshut hopen => absurd (h.state.trans hopen) hshut⟩

end Upload.Ages

/-- What an operation does with the handles: it leaves them, opens one or uses one. -/
inductive Handling (l : Layout) (w : World) (op : Operation) : List Upload → Prop where
  | kept : Handling l w op w.handles
  | started {n id now} (start : op = .start n id now) :
      Handling l w op (w.handles ++ [Upload.opened id n now])
  | resumed {n id u} (resume : op = .resume n id)
      (answer : w.answer (Upload.resume ⟨l.inMemory, n⟩ id) = .ok u) :
      Handling l w op (w.handles ++ [u])
  | used {handle : Nat} {u u' : Upload} (opened : w.handles[handle]? = some u)
      (ages : Upload.Ages l w op u u') : Handling l w op (w.handles.set handle u')

namespace World

variable {handle i : Nat} {u u' : Upload}

/-- An operation uses a handle, if there is one of that number. -/
theorem handling_uses {α : Type} {action : UploadAction MemoryStore α}
    (hact : Session.act l.inMemory ⟨w.store, w.handles⟩ op =
      Session.uses ⟨w.store, w.handles⟩ handle action)
    (h : ∀ u, w.handles[handle]? = some u → ∃ x u' t,
      action.outcome (u, w.store) = (x, (u', t)) ∧ Upload.Ages l w op u u') :
    Handling l w op (w.after l MemoryStore.reliable w.store op).handles := by
  cases hu : w.handles[handle]? with
  | none =>
    have hsame : (w.after l MemoryStore.reliable w.store op).handles = w.handles := by
      show (Session.act l.inMemory ⟨w.store, w.handles⟩ op).handles = _
      rw [hact, Session.uses]
      simp only [hu]
    rw [hsame]
    exact .kept
  | some u =>
    obtain ⟨x, u', t, houtcome, hages⟩ := h u hu
    rw [(after_outcome hact hu houtcome).2]
    exact .used hu hages

theorem handling_resume (n : RepositoryName) (id : UploadId) : Handling l w (.resume n id)
    (w.after l MemoryStore.reliable w.store (.resume n id)).handles := by
  show Handling l w _ (Session.opens ⟨w.store, w.handles⟩
    (Upload.resume ⟨l.inMemory, n⟩ id)).handles
  rw [Session.opens]
  rcases ho : (Upload.resume ⟨l.inMemory, n⟩ id).outcome w.store with ⟨e | u, t⟩
  · exact .kept
  · exact .resumed rfl (congrArg Prod.fst ho)

/-- **What is done with the handles**, whatever is done. -/
theorem after_handling (hw : Reachable l w) (op : Operation) :
    Handling l w op (w.after l MemoryStore.reliable w.store op).handles := by
  have ht := hw.inv.laidOut
  have htracks : ∀ {handle : Nat} {u : Upload}, w.handles[handle]? = some u → u.Tracks l w.store :=
    fun hu => (hw.inv.handles _ (List.mem_of_getElem? hu)).2
  cases op with
  | start n id now => exact .started rfl
  | resume n id => exact handling_resume n id
  | size handle =>
    refine handling_uses rfl fun u _ => ?_
    obtain ⟨x, hsize⟩ := Upload.size_cases ht u
    exact ⟨x, u, w.store, hsize, .refl u⟩
  | write handle offset source =>
    refine handling_uses rfl fun u hu => ?_
    obtain ⟨x, v, t, hwrite, hsame, hclosed, -⟩ :=
      Upload.write_cases ht (htracks hu) offset source
    exact ⟨x, v, t, hwrite, .of_same hsame hclosed⟩
  | finish handle expected =>
    refine handling_uses rfl fun u hu => ?_
    rcases Upload.finish_cases ht (htracks hu) expected with
      ⟨descriptor, v, s, hfinish, hstate, hsame, -⟩ | ⟨e, v, hfinish, hsame, hclosed⟩
    · exact ⟨_, _, _, hfinish, hsame.name, hsame.id, hsame.started, fun h => absurd hstate h,
        fun _ _ => ⟨u, hu, ⟨rfl, rfl⟩, descriptor, congrArg Prod.fst hfinish⟩⟩
    · exact ⟨_, v, _, hfinish, .of_same hsame hclosed⟩
  | cancel handle =>
    refine handling_uses rfl fun u hu => ?_
    by_cases hstate : u.state = .writing
    · have hcancel := Upload.outcome_cancel_writing (l := l) (t := w.store) hstate
      exact ⟨_, _, _, hcancel, rfl, rfl, rfl, fun h => absurd hstate h,
        fun _ _ => ⟨u, hu, ⟨rfl, rfl⟩, congrArg Prod.fst hcancel⟩⟩
    · obtain ⟨x, hcancel⟩ := Upload.cancel_closed (l := l) (t := w.store) hstate
      exact ⟨x, u, w.store, hcancel, .refl u⟩
  | putManifest n tag document =>
    show Handling l w _ (Session.act l.inMemory ⟨w.store, w.handles⟩ _).handles
    simp only [Session.act]
    cases SignedManifest.parse document <;> exact .kept
  | _ => exact .kept

/-- **What becomes of a handle**, whatever is done. -/
theorem after_handle (hw : Reachable l w) (op : Operation) (hu : w.handles[i]? = some u) :
    ∃ u', (w.after l MemoryStore.reliable w.store op).handles[i]? = some u' ∧
      Upload.Ages l w op u u' := by
  have hbound : i < w.handles.length := (List.getElem?_eq_some_iff.1 hu).1
  have hopened : ∀ v, (w.handles ++ [v])[i]? = some u := fun v => by
    rw [List.getElem?_append_left hbound, hu]
  have hhandling := after_handling hw op
  revert hhandling
  generalize (w.after l MemoryStore.reliable w.store op).handles = handles'
  intro hhandling
  cases hhandling with
  | kept => exact ⟨u, hu, .refl u⟩
  | started _ => exact ⟨u, hopened _, .refl u⟩
  | resumed _ _ => exact ⟨u, hopened _, .refl u⟩
  | @used handle v v' hv hages =>
    by_cases hi : handle = i
    · subst hi
      obtain rfl : v = u := Option.some.inj (hv.symm.trans hu)
      exact ⟨v', List.getElem?_set_self hbound, hages⟩
    · exact ⟨u, (List.getElem?_set_ne hi).trans hu, .refl u⟩

/-- Where a handle comes from. -/
theorem of_mem_after (hw : Reachable l w) (op : Operation)
    (hu' : u' ∈ (w.after l MemoryStore.reliable w.store op).handles) :
    (∃ u ∈ w.handles, Upload.Ages l w op u u') ∨
      (∃ n id now, op = .start n id now ∧ u' = Upload.opened id n now) ∨
      ∃ n id, op = .resume n id ∧ w.answer (Upload.resume ⟨l.inMemory, n⟩ id) = .ok u' := by
  have hhandling := after_handling hw op
  revert hhandling hu'
  generalize (w.after l MemoryStore.reliable w.store op).handles = handles'
  intro hu' hhandling
  cases hhandling with
  | kept => exact Or.inl ⟨u', hu', .refl u'⟩
  | @started n id now hstart =>
    rcases List.mem_append.1 hu' with hold | hnew
    · exact Or.inl ⟨u', hold, .refl u'⟩
    · exact Or.inr (Or.inl ⟨n, id, now, hstart, List.mem_singleton.1 hnew⟩)
  | @resumed n id v hresume hanswer =>
    rcases List.mem_append.1 hu' with hold | hnew
    · exact Or.inl ⟨u', hold, .refl u'⟩
    · rw [List.mem_singleton.1 hnew]
      exact Or.inr (Or.inr ⟨n, id, hresume, hanswer⟩)
  | @used handle v v' hv hages =>
    rcases List.mem_or_eq_of_mem_set hu' with hold | rfl
    · exact Or.inl ⟨u', hold, .refl u'⟩
    · exact Or.inl ⟨v, List.mem_of_getElem? hv, hages⟩

end World

/-! ### What becomes of the files of an upload -/

/-- The upload that a file belongs to. -/
def Resource.upload? : Resource → Option (RepositoryName × UploadId)
  | uploadData n id | uploadStartedAt n id => some (n, id)
  | _ => none

/-- The upload whose files an operation is about. -/
def Operation.upload? (w : World) : Operation → Option (RepositoryName × UploadId)
  | start n id _ | cancelUpload n id => some (n, id)
  | write handle _ _ | finish handle _ | cancel handle =>
    w.handles[handle]?.map fun u => (u.name, u.id)
  | _ => none

/-- An operation is about no other upload's files. -/
theorem Operation.Touches.upload {f : Resource} (h : op.Touches w f)
    (hf : f.upload? = some (n, id)) : op.upload? w = some (n, id) := by
  cases op with
  | start m i now | cancelUpload m i =>
    rcases h with rfl | rfl <;> exact hf
  | write handle offset source =>
    obtain ⟨u, hu, rfl⟩ := h
    rw [Operation.upload?, hu]
    exact hf
  | cancel handle =>
    obtain ⟨u, hu, rfl | rfl⟩ := h <;> rw [Operation.upload?, hu] <;> exact hf
  | finish handle expected =>
    obtain ⟨u, hu, rfl | rfl | rfl | rfl⟩ := h
    · rw [Operation.upload?, hu]
      exact hf
    · rw [Operation.upload?, hu]
      exact hf
    · cases hf
    · cases hf
  | mount m digest =>
    obtain rfl : f = _ := h
    cases hf
  | putManifest m text document =>
    obtain ⟨m, -, rfl | rfl | ⟨tag, -, rfl⟩⟩ := h <;> cases hf
  | _ => exact h.elim

namespace World

/-- What is not about an upload leaves its files alone. -/
theorem after_apart (hw : Reachable l w) (hop : op.upload? w ≠ some (n, id)) {f : Resource}
    (hf : f.upload? = some (n, id)) :
    (w.after l MemoryStore.reliable w.store op).store.file? (l.path f) =
      w.store.file? (l.path f) := by
  have hfile : f.isFile = true := by
    cases f with
    | uploadData | uploadStartedAt => rfl
    | _ => cases hf
  exact after_touches (d := MemoryStore.reliable) hw.inv.laidOut trivial rfl hfile
    fun h => hop (h.upload hf)

theorem after_start (w : World) (n : RepositoryName) (id : UploadId) (now : Instant) :
    (w.after l MemoryStore.reliable w.store (.start n id now)).store.file?
        (l.path (.uploadStartedAt n id)) = some (Bytes.ofText now.toOffsetText) ∧
      (w.after l MemoryStore.reliable w.store (.start n id now)).store.file?
        (l.path (.uploadData n id)) = some [] := by
  have hstore : (w.after l MemoryStore.reliable w.store (.start n id now)).store =
      (w.store.put (l.path (.uploadStartedAt n id)) (Bytes.ofText now.toOffsetText)).put
        (l.path (.uploadData n id)) [] := rfl
  rw [hstore]
  constructor
  · rw [MemoryStore.file?_put_path rfl, if_neg (by simp), MemoryStore.file?_put_path rfl,
      if_pos rfl]
  · rw [MemoryStore.file?_put_path rfl, if_pos rfl]

/-- **An upload that is not started or retired keeps its files**; its bytes may only be added to. -/
theorem after_unretired (hw : Reachable l w) (hstarts : ¬ op.Starts n id)
    (hretires : ¬ op.Retires l w n id) :
    (w.after l MemoryStore.reliable w.store op).store.file? (l.path (.uploadStartedAt n id)) =
        w.store.file? (l.path (.uploadStartedAt n id)) ∧
      ((∃ bytes, (w.after l MemoryStore.reliable w.store op).store.file?
          (l.path (.uploadData n id)) = some bytes) ↔
        ∃ bytes, w.store.file? (l.path (.uploadData n id)) = some bytes) := by
  have ht := hw.inv.laidOut
  have hsame : (w.after l MemoryStore.reliable w.store op).store = w.store →
      (w.after l MemoryStore.reliable w.store op).store.file? (l.path (.uploadStartedAt n id)) =
        w.store.file? (l.path (.uploadStartedAt n id)) ∧
      ((∃ bytes, (w.after l MemoryStore.reliable w.store op).store.file?
          (l.path (.uploadData n id)) = some bytes) ↔
        ∃ bytes, w.store.file? (l.path (.uploadData n id)) = some bytes) := fun h => by
    rw [h]
    exact ⟨rfl, Iff.rfl⟩
  by_cases hop : op.upload? w = some (n, id)
  · cases op with
    | start m i now => exact absurd (Prod.mk.inj (Option.some.inj hop)) hstarts
    | cancelUpload m i => exact absurd (Prod.mk.inj (Option.some.inj hop)) hretires
    | write handle offset source =>
      obtain ⟨u, hu, hkey⟩ := Option.map_eq_some_iff.1 hop
      obtain ⟨rfl, rfl⟩ := Prod.mk.inj hkey
      obtain ⟨x, v, t, hwrite, -, -, rfl | ⟨bytes, more, hfile, rfl⟩⟩ := Upload.write_cases ht
        (hw.inv.handles u (List.mem_of_getElem? hu)).2 offset source
      · exact hsame (after_outcome rfl hu hwrite).1
      · rw [(after_outcome rfl hu hwrite).1, MemoryStore.file?_put_path rfl,
          MemoryStore.file?_put_path rfl, if_neg (by simp), if_pos rfl, hfile]
        exact ⟨rfl, ⟨fun _ => ⟨_, rfl⟩, fun _ => ⟨_, rfl⟩⟩⟩
    | finish handle expected =>
      obtain ⟨u, hu, hkey⟩ := Option.map_eq_some_iff.1 hop
      rcases Upload.finish_cases ht (hw.inv.handles u (List.mem_of_getElem? hu)).2 expected with
        ⟨descriptor, v, s, hfinish, -⟩ | ⟨e, v, hfinish, -⟩
      · exact absurd ⟨u, hu, Prod.mk.inj hkey, descriptor, congrArg Prod.fst hfinish⟩ hretires
      · exact hsame (after_outcome rfl hu hfinish).1
    | cancel handle =>
      obtain ⟨u, hu, hkey⟩ := Option.map_eq_some_iff.1 hop
      by_cases hstate : u.state = .writing
      · exact absurd ⟨u, hu, Prod.mk.inj hkey, congrArg Prod.fst
          (Upload.outcome_cancel_writing (l := l) (t := w.store) hstate)⟩ hretires
      · obtain ⟨x, hcancel⟩ := Upload.cancel_closed (l := l) (t := w.store) hstate
        exact hsame (after_outcome rfl hu hcancel).1
    | _ => cases hop
  · rw [after_apart hw hop rfl, after_apart hw hop rfl]
    exact ⟨rfl, Iff.rfl⟩

/-- **An upload that is retired has no files**, if those of closed handles have none. -/
theorem after_retires (hw : Reachable l w)
    (hclosed : ∀ u ∈ w.handles, u.state ≠ .writing → ∀ f : Resource,
      f.upload? = some (u.name, u.id) → w.store.file? (l.path f) = none)
    (h : op.Retires l w n id) {f : Resource} (hf : f.upload? = some (n, id)) :
    (w.after l MemoryStore.reliable w.store op).store.file? (l.path f) = none := by
  have ht := hw.inv.laidOut
  have hfiles : f.isFile = true ∧ (f = .uploadData n id ∨ f = .uploadStartedAt n id) := by
    cases f with
    | uploadData | uploadStartedAt =>
      obtain ⟨rfl, rfl⟩ := Prod.mk.inj (Option.some.inj hf)
      exact ⟨rfl, by simp⟩
    | _ => cases hf
  cases op with
  | finish handle expected =>
    obtain ⟨u, hu, ⟨rfl, rfl⟩, descriptor, hok⟩ := h
    rcases Upload.finish_cases ht (hw.inv.handles u (List.mem_of_getElem? hu)).2 expected with
      ⟨descriptor, v, s, hfinish, -, -, hs⟩ | ⟨e, v, hfinish, -⟩
    · rw [(after_outcome rfl hu hfinish).1, hs.file?_committed hfiles.1, if_pos hfiles.2]
    · rw [hfinish] at hok
      cases hok
  | cancel handle =>
    obtain ⟨u, hu, ⟨rfl, rfl⟩, hok⟩ := h
    by_cases hstate : u.state = .writing
    · rw [(after_outcome rfl hu (Upload.outcome_cancel_writing hstate)).1,
        ht.file?_retired hfiles.1, if_pos hfiles.2]
    · obtain ⟨x, hcancel⟩ := Upload.cancel_closed (l := l) (t := w.store) hstate
      rw [(after_outcome rfl hu hcancel).1]
      exact hclosed u (List.mem_of_getElem? hu) hstate f hf
  | cancelUpload m i =>
    obtain ⟨rfl, rfl⟩ := h
    have hstore : (w.after l MemoryStore.reliable w.store (.cancelUpload m i)).store =
        ((Repository.cancelUpload ⟨l.inMemory, m⟩ i).outcome w.store).2 := rfl
    rw [hstore, Repository.cancelUpload, Upload.outcome_remove, ht.file?_retired hfiles.1,
      if_pos hfiles.2]
  | _ => exact h.elim

end World

/-- A handle that is resumed has the start time that is stored. -/
theorem Upload.resume_ok {t : MemoryStore} {u : Upload}
    (h : ((resume ⟨l.inMemory, n⟩ id).outcome t).1 = .ok u) :
    ∃ content started, t.file? (l.path (.uploadStartedAt n id)) = some content ∧
      startOfContent (l.path (.uploadStartedAt n id)) content = .ok started ∧
      u = opened id n started := by
  cases hfile : t.file? (l.path (.uploadStartedAt n id)) with
  | none =>
    rw [outcome_resume_unknown hfile] at h
    cases h
  | some content =>
    rw [outcome_resume_stored hfile] at h
    cases hstarted : startOfContent (l.path (.uploadStartedAt n id)) content with
    | error e =>
      rw [hstarted] at h
      cases h
    | ok started =>
      rw [hstarted] at h
      exact ⟨content, started, rfl, hstarted, (Except.ok.inj h).symm⟩

/-! ### Storage follows what was done -/

/-- An upload has files while it is open and at no other time, whatever its start time is. -/
structure FilesFollow (l : Layout) (w : World) (past : List (World × Operation)) : Prop where
  held : ∀ n id, IsOpen l past n id →
    ∃ content, w.store.file? (l.path (.uploadStartedAt n id)) = some content
  shut : ∀ n id, ¬ IsOpen l past n id → ∀ f : Resource, f.upload? = some (n, id) →
    w.store.file? (l.path f) = none
  /-- A handle is not closed as long as its upload is open. -/
  closed : ∀ u ∈ w.handles, u.state ≠ .writing → ¬ IsOpen l past u.name u.id

theorem filesFollow_empty : FilesFollow l World.empty [] where
  held _ _ h := absurd h not_isOpen_nil
  shut _ _ _ _ _ := Option.eq_none_iff_forall_ne_some.2 fun _ => MemoryStore.file?_empty_ne _ _
  closed _ h := absurd h List.not_mem_nil

/-- A started upload is new. -/
theorem World.not_mem_of_starts (hw : Reachable l w) (hfresh : op.IsFresh w)
    (hstarts : op.Starts n id) : ∀ u ∈ w.handles, ¬ (u.name = n ∧ u.id = id) := by
  rintro u hu ⟨rfl, rfl⟩
  cases op with
  | start m i now =>
    obtain ⟨rfl, rfl⟩ := hstarts
    exact hfresh _ List.mem_cons_self (hw.inv.handles u hu).1
  | _ => exact hstarts.elim

namespace FilesFollow

/-- The files of an upload with a closed handle are gone. -/
theorem gone_of_closed (h : FilesFollow l w past) : ∀ u ∈ w.handles, u.state ≠ .writing →
    ∀ f : Resource, f.upload? = some (u.name, u.id) → w.store.file? (l.path f) = none :=
  fun u hu hstate => h.shut _ _ (h.closed u hu hstate)

/-- **The files of uploads go on following what is done.** -/
theorem step (hw : Reachable l w) (h : FilesFollow l w past) (hfresh : op.IsFresh w) :
    FilesFollow l (w.after l MemoryStore.reliable w.store op) (past ++ [(w, op)]) := by
  constructor
  case held =>
    intro n id hopen
    by_cases hstarts : op.Starts n id
    · cases op with
      | start m i now =>
        obtain ⟨rfl, rfl⟩ := hstarts
        exact ⟨_, (World.after_start (l := l) w m i now).1⟩
      | _ => exact hstarts.elim
    · obtain ⟨hopen, hretires⟩ := (isOpen_concat.1 hopen).resolve_left hstarts
      obtain ⟨content, hcontent⟩ := h.held n id hopen
      exact ⟨content, (World.after_unretired hw hstarts hretires).1.trans hcontent⟩
  case shut =>
    intro n id hshut f hf
    rw [isOpen_concat, not_or, not_and, not_not] at hshut
    by_cases hretires : op.Retires l w n id
    · exact World.after_retires hw h.gone_of_closed hretires hf
    · have hnone := h.shut n id fun hopen => hretires (hshut.2 hopen)
      obtain ⟨hstarted, hdata⟩ := World.after_unretired hw hshut.1 hretires
      cases f with
      | uploadStartedAt m i =>
        obtain ⟨rfl, rfl⟩ := Prod.mk.inj (Option.some.inj hf)
        exact hstarted.trans (hnone _ rfl)
      | uploadData m i =>
        obtain ⟨rfl, rfl⟩ := Prod.mk.inj (Option.some.inj hf)
        refine Option.eq_none_iff_forall_ne_some.2 fun bytes hbytes => ?_
        obtain ⟨bytes', hbytes'⟩ := hdata.1 ⟨bytes, hbytes⟩
        cases (hnone (.uploadData m i) rfl).symm.trans hbytes'
      | _ => cases hf
  case closed =>
    intro u' hu' hstate hopen
    rcases World.of_mem_after hw op hu' with ⟨u, hu, hages⟩ | ⟨m, i, now, rfl, rfl⟩ |
      ⟨m, i, rfl, hanswer⟩
    · rw [isOpen_concat, hages.name, hages.id] at hopen
      by_cases hwriting : u.state = .writing
      · have hretires := hages.retires hstate hwriting
        rcases hopen with hstarts | ⟨-, hnot⟩
        · exact hstarts.not_retires hretires
        · exact hnot hretires
      · rcases hopen with hstarts | ⟨hopen, -⟩
        · exact World.not_mem_of_starts hw hfresh hstarts u hu ⟨rfl, rfl⟩
        · exact h.closed u hu hwriting hopen
    · exact hstate rfl
    · obtain ⟨content, started, -, -, rfl⟩ := Upload.resume_ok hanswer
      exact hstate rfl

end FilesFollow

/-- Storage and handles agree with what was done. -/
structure Registered (l : Layout) (w : World) (past : List (World × Operation)) : Prop where
  /-- An open upload has its files, and its handles bear its start time. -/
  opened : ∀ n id, IsOpen l past n id → ∃ now : Instant, now.IsCivil ∧
    w.store.file? (l.path (.uploadStartedAt n id)) = some (Bytes.ofText now.toOffsetText) ∧
    (∃ bytes, w.store.file? (l.path (.uploadData n id)) = some bytes) ∧
    ∀ u ∈ w.handles, u.name = n → u.id = id → u.started = now
  /-- Any other has no files. -/
  shut : ∀ n id, ¬ IsOpen l past n id → ∀ f : Resource, f.upload? = some (n, id) →
    w.store.file? (l.path f) = none
  /-- A handle is not closed as long as its upload is open. -/
  closed : ∀ u ∈ w.handles, u.state ≠ .writing → ¬ IsOpen l past u.name u.id

theorem registered_empty : Registered l World.empty [] where
  opened _ _ h := absurd h not_isOpen_nil
  shut := filesFollow_empty.shut
  closed := filesFollow_empty.closed

namespace Registered

theorem filesFollow (h : Registered l w past) : FilesFollow l w past where
  held n id hopen := by
    obtain ⟨now, -, hstarted, -⟩ := h.opened n id hopen
    exact ⟨_, hstarted⟩
  shut := h.shut
  closed := h.closed

/-- The start of an upload writes its files, and its first handle bears the time. -/
theorem opened_of_starts (hw : Reachable l w) (hfresh : op.IsFresh w) (hdated : op.IsDated)
    (hstarts : op.Starts n id) : ∃ now : Instant, now.IsCivil ∧
      (w.after l MemoryStore.reliable w.store op).store.file? (l.path (.uploadStartedAt n id)) =
        some (Bytes.ofText now.toOffsetText) ∧
      (∃ bytes, (w.after l MemoryStore.reliable w.store op).store.file?
        (l.path (.uploadData n id)) = some bytes) ∧
      ∀ u ∈ (w.after l MemoryStore.reliable w.store op).handles, u.name = n → u.id = id →
        u.started = now := by
  have hnew := World.not_mem_of_starts hw hfresh hstarts
  cases op with
  | start m i now =>
    obtain ⟨rfl, rfl⟩ := hstarts
    obtain ⟨hstarted, hdata⟩ := World.after_start (l := l) w m i now
    refine ⟨now, hdated, hstarted, ⟨_, hdata⟩, fun u' hu' hname hid => ?_⟩
    rcases World.of_mem_after hw _ hu' with
      ⟨u, hu, hages⟩ | ⟨n, id, now', hop, rfl⟩ | ⟨n, id, hop, -⟩
    · exact absurd ⟨hages.name.symm.trans hname, hages.id.symm.trans hid⟩ (hnew u hu)
    · cases hop
      rfl
    · cases hop
  | _ => exact hstarts.elim

/-- An upload that stays open keeps its files, and new handles on it bear the stored time. -/
theorem opened_of_kept (hw : Reachable l w) (h : Registered l w past) (hopen : IsOpen l past n id)
    (hstarts : ¬ op.Starts n id) (hretires : ¬ op.Retires l w n id) : ∃ now : Instant, now.IsCivil ∧
      (w.after l MemoryStore.reliable w.store op).store.file? (l.path (.uploadStartedAt n id)) =
        some (Bytes.ofText now.toOffsetText) ∧
      (∃ bytes, (w.after l MemoryStore.reliable w.store op).store.file?
        (l.path (.uploadData n id)) = some bytes) ∧
      ∀ u ∈ (w.after l MemoryStore.reliable w.store op).handles, u.name = n → u.id = id →
        u.started = now := by
  obtain ⟨now, hcivil, hstarted, hdata, hhandles⟩ := h.opened n id hopen
  obtain ⟨hstarted', hdata'⟩ := World.after_unretired hw hstarts hretires
  refine ⟨now, hcivil, hstarted'.trans hstarted, hdata'.2 hdata, fun u' hu' hname hid => ?_⟩
  rcases World.of_mem_after hw op hu' with ⟨u, hu, hages⟩ | ⟨m, i, now', rfl, rfl⟩ |
    ⟨m, i, rfl, hanswer⟩
  · exact hages.started.trans (hhandles u hu (hages.name.symm.trans hname)
      (hages.id.symm.trans hid))
  · exact absurd ⟨hname, hid⟩ hstarts
  · obtain ⟨content, started, hcontent, hread, rfl⟩ := Upload.resume_ok hanswer
    obtain ⟨rfl, rfl⟩ : m = n ∧ i = id := ⟨hname, hid⟩
    obtain rfl : content = _ := Option.some.inj (hcontent.symm.trans hstarted)
    exact Except.ok.inj (hread.symm.trans (Instant.startOfContent_ofText hcivil _))

/-- **Storage goes on agreeing with what is done.** -/
theorem step (hw : Reachable l w) (h : Registered l w past) (hfresh : op.IsFresh w)
    (hdated : op.IsDated) :
    Registered l (w.after l MemoryStore.reliable w.store op) (past ++ [(w, op)]) := by
  have filesFollow := h.filesFollow
  constructor
  case opened =>
    intro n id hopen
    rcases isOpen_concat.1 hopen with hstarts | ⟨hopen, hretires⟩
    · exact opened_of_starts hw hfresh hdated hstarts
    · by_cases hstarts : op.Starts n id
      · exact opened_of_starts hw hfresh hdated hstarts
      · exact opened_of_kept hw h hopen hstarts hretires
  case shut => exact (filesFollow.step hw hfresh).shut
  case closed => exact (filesFollow.step hw hfresh).closed

end Registered

/-- An upload's life, as a client sees it. -/
structure Lifecycle (l : Layout) (w : World) (past : List (World × Operation)) : Prop where
  /-- An upload can be resumed while it is open. -/
  resumable : ∀ n id, (∃ u, w.answer (Upload.resume ⟨l.inMemory, n⟩ id) = .ok u) ↔
    IsOpen l past n id
  /-- Otherwise it is unknown. -/
  unknown : ∀ n id, ¬ IsOpen l past n id →
    w.answer (Upload.resume ⟨l.inMemory, n⟩ id) = .error (.uploadUnknown id)
  /-- No file of it is left then. -/
  gone : ∀ n id, ¬ IsOpen l past n id → w.store.occupied (l.path (.upload n id)) = false
  /-- A handle that still writes finds it unknown, and changes nothing. -/
  retired : ∀ u ∈ w.handles, u.state = .writing → ¬ IsOpen l past u.name u.id →
    (Upload.size l.inMemory).outcome (u, w.store) = (.error (.uploadUnknown u.id), (u, w.store)) ∧
      ∀ offset source, (Upload.write l.inMemory offset source).outcome (u, w.store) =
        (.error (.uploadUnknown u.id), (u, w.store))
  /-- A handle that was finished or cancelled at some time is still as it was then. -/
  settled : ∀ e ∈ past, ∀ (handle : Nat) (u : Upload), e.1.handles[handle]? = some u →
    u.state ≠ .writing → w.handles[handle]? = some u
  /-- It is refused everything that needs a handle that writes, and touches nothing. -/
  closed : ∀ u ∈ w.handles, u.state ≠ .writing →
    (Upload.size l.inMemory).outcome (u, w.store) = (.error .layerClosed, (u, w.store)) ∧
      (∀ offset source, (Upload.write l.inMemory offset source).outcome (u, w.store) =
        (.error .layerClosed, (u, w.store))) ∧
      ∀ expected, (Upload.finish l.inMemory expected).outcome (u, w.store) =
        (.error .layerClosed, (u, w.store))
  /-- Cancelling again is harmless. -/
  cancelled : ∀ u ∈ w.handles, u.state = .cancelled →
    (Upload.cancel l.inMemory).outcome (u, w.store) = (.ok (), (u, w.store))
  /-- What is finished cannot be cancelled. -/
  finished : ∀ u ∈ w.handles, u.state = .finished →
    (Upload.cancel l.inMemory).outcome (u, w.store) = (.error .layerClosed, (u, w.store))

namespace Chronicle

/-- The files of uploads follow what was done. -/
theorem filesFollow (h : Chronicle l w past) : FilesFollow l w past := by
  induction h with
  | empty => exact filesFollow_empty
  | step chronicle op fresh ih => exact ih.step chronicle.reachable fresh

/-- **Storage agrees with what was done.** -/
theorem registered (h : Chronicle l w past) (hdated : ∀ e ∈ past, e.2.IsDated) :
    Registered l w past := by
  induction h with
  | empty => exact registered_empty
  | @step w past chronicle op fresh ih =>
    have hold := ih fun e he => hdated e (List.mem_append_left _ he)
    exact hold.step chronicle.reachable fresh
      (hdated (w, op) (List.mem_append_right _ (List.mem_singleton_self _)))

/-- A handle that is closed stays as it is. -/
theorem closed_stays (h : Chronicle l w past) : ∀ e ∈ past, ∀ (handle : Nat) (u : Upload),
    e.1.handles[handle]? = some u → u.state ≠ .writing → w.handles[handle]? = some u := by
  induction h with
  | empty => exact fun e he => absurd he List.not_mem_nil
  | @step w past chronicle op fresh ih =>
    intro e he handle u hu hstate
    have hold : w.handles[handle]? = some u := by
      rcases List.mem_append.1 he with he | he
      · exact ih e he handle u hu hstate
      · rw [List.mem_singleton.1 he] at hu
        exact hu
    obtain ⟨u', hu', hages⟩ := World.after_handle chronicle.reachable op hold
    rw [hu', hages.closed hstate]

/-- **The life of an upload**, from its start until it is finished or cancelled. -/
theorem lifecycle (h : Chronicle l w past) (hdated : ∀ e ∈ past, e.2.IsDated) :
    Lifecycle l w past := by
  have hregistered := h.registered hdated
  have ht := h.reachable.inv.laidOut
  have hunknown : ∀ n id, ¬ IsOpen l past n id →
      w.answer (Upload.resume ⟨l.inMemory, n⟩ id) = .error (.uploadUnknown id) := by
    intro n id hshut
    have hnone := hregistered.shut n id hshut (.uploadStartedAt n id) rfl
    exact congrArg Prod.fst (Upload.outcome_resume_unknown hnone)
  constructor
  case resumable =>
    intro n id
    constructor
    · rintro ⟨u, hu⟩
      refine Classical.byContradiction fun hshut => ?_
      cases (hunknown n id hshut).symm.trans hu
    · intro hopen
      obtain ⟨now, hcivil, hstarted, -⟩ := hregistered.opened n id hopen
      have hresume := Upload.outcome_resume_stored hstarted
      rw [Instant.startOfContent_ofText hcivil] at hresume
      exact ⟨_, congrArg Prod.fst hresume⟩
  case unknown => exact hunknown
  case gone =>
    intro n id hshut
    refine Bool.eq_false_iff.2 fun hoccupied => ?_
    obtain ⟨f, bytes, hf, hbeneath, hbytes⟩ := (ht.occupied_iff _).1 hoccupied
    rcases Resource.file_beneath_upload hf hbeneath with rfl | rfl
    · cases (hregistered.shut n id hshut _ rfl).symm.trans hbytes
    · cases (hregistered.shut n id hshut _ rfl).symm.trans hbytes
  case retired =>
    intro u hu hstate hshut
    have hgone := hregistered.shut _ _ hshut (.uploadData u.name u.id) rfl
    exact ⟨Upload.outcome_size_gone ht hstate hgone, Upload.outcome_write_gone ht hstate hgone⟩
  case settled => exact h.closed_stays
  case closed =>
    intro u _ hstate
    exact ⟨Upload.outcome_size_closed _ hstate, Upload.outcome_write_closed _ hstate,
      Upload.outcome_finish_closed _ hstate⟩
  case cancelled => exact fun u _ hstate => Upload.outcome_cancel_cancelled _ hstate
  case finished => exact fun u _ hstate => Upload.outcome_cancel_finished _ hstate

/-- An upload is cancelled by its identifier, while a handle on it still writes. -/
theorem lifecycle_cancelled : ∃ w past, Chronicle default w past ∧ (∀ e ∈ past, e.2.IsDated) ∧
    (∃ u ∈ w.handles, u.state = .writing ∧ ¬ IsOpen default past u.name u.id) ∧
    Lifecycle default w past := by
  obtain ⟨n, id⟩ : RepositoryName × UploadId :=
    (⟨"team/one", by decide⟩, ⟨"00000000-0000-0000-0000-000000000001", by decide⟩)
  have hstart := Chronicle.empty.step (l := default) (.start n id ⟨0, 0, 0⟩)
    (fun _ _ => List.not_mem_nil)
  have hcancel := hstart.step (.cancelUpload n id) fun key hkey => absurd hkey List.not_mem_nil
  have hdated : ∀ e ∈ [] ++ [(World.empty, Operation.start n id ⟨0, 0, 0⟩)] ++
      [(World.empty.after default MemoryStore.reliable World.empty.store (.start n id ⟨0, 0, 0⟩),
        Operation.cancelUpload n id)], e.2.IsDated := by
    simp [Operation.IsDated, Instant.isCivil_epoch]
  refine ⟨_, _, hcancel, hdated, ⟨Upload.opened id n ⟨0, 0, 0⟩, List.mem_singleton_self _, rfl, ?_⟩,
    lifecycle hcancel hdated⟩
  rw [isOpen_concat]
  rintro (hstarts | ⟨-, hnot⟩)
  · exact hstarts
  · exact hnot ⟨rfl, rfl⟩

end Chronicle
end ContainerRegistry
