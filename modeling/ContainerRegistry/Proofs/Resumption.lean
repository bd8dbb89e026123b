/-
# A handle may be dropped and its upload resumed

All that a handle knows beyond what is on storage is how much of the stored bytes it has
hashed, and it catches up on the rest before it needs their digest. So two handles that
differ in nothing else are answered the same and change storage the same way
(`Upload.Coincide`), and after each operation they again differ in nothing else. It makes no
difference what happens to the upload in between, by other handles, by its identifier or by
what else is done in the registry: a client that goes on with a resumed handle sees what it
would have seen with the old one.

Key definitions: `Upload.Coincide`, `Client.Twins`, `Client.IsOf`, `Request.Fresh`,
`Client.Interchangeable`.
Key theorems: `Client.Twins.act`, `Client.Twins.run`, `Chronicle.resume_open`,
`Chronicle.resume_interchangeable`.
-/
import ContainerRegistry.Proofs.Client
import ContainerRegistry.Proofs.Lifecycle

namespace ContainerRegistry

open ContainerRegistry.Action

variable {l : Layout}

/-! ### Handles that differ in what they have hashed -/

namespace Upload

variable {α : Type} {t : MemoryStore} {u v : Upload} {bytes : Bytes}

/-- The same answer and the same storage, with handles that differ in what they have hashed
at most. -/
structure Coincide (x y : Except RegistryError α × Upload × MemoryStore) : Prop where
  answer : y.1 = x.1
  handle : Same x.2.1 y.2.1
  storage : y.2.2 = x.2.2

theorem Coincide.kept (h : Same u v) (x : Except RegistryError α) :
    Coincide (x, (u, t)) (x, (v, t)) :=
  ⟨rfl, h, rfl⟩

/-- Handles that have caught up coincide in all that follows. -/
theorem Coincide.of_eq {x y : Except RegistryError α × Upload × MemoryStore} (h : x = y) :
    Coincide x y :=
  h ▸ ⟨rfl, .refl _, rfl⟩

theorem Same.file? (h : Same u v) (t : MemoryStore) :
    t.file? (l.path (.uploadData v.name v.id)) = t.file? (l.path (.uploadData u.name u.id)) := by
  rw [h.name, h.id]

theorem size_coincide (ht : t.LaidOut l) (h : Same u v) :
    Coincide ((size l.inMemory).outcome (u, t)) ((size l.inMemory).outcome (v, t)) := by
  by_cases hstate : u.state = .writing
  · have hstate' := h.state.trans hstate
    cases hfile : t.file? (l.path (.uploadData u.name u.id)) with
    | some bytes =>
      rw [outcome_size_stored ht hstate hfile,
        outcome_size_stored ht hstate' ((h.file? t).trans hfile)]
      exact .kept h _
    | none =>
      rw [outcome_size_gone ht hstate hfile,
        outcome_size_gone ht hstate' ((h.file? t).trans hfile), h.id]
      exact .kept h _
  · rw [outcome_size_closed _ hstate, outcome_size_closed _ (h.state ▸ hstate)]
    exact .kept h _

theorem write_coincide (ht : t.LaidOut l) (h : Same u v) (hu : u.Tracks l t) (hv : v.Tracks l t)
    (offset : Nat) (source : Source) :
    Coincide ((write l.inMemory offset source).outcome (u, t))
      ((write l.inMemory offset source).outcome (v, t)) := by
  by_cases hstate : u.state = .writing
  · have hstate' := h.state.trans hstate
    cases hfile : t.file? (l.path (.uploadData u.name u.id)) with
    | none =>
      rw [outcome_write_gone ht hstate hfile,
        outcome_write_gone ht hstate' ((h.file? t).trans hfile), h.id]
      exact .kept h _
    | some bytes =>
      have hfile' := (h.file? t).trans hfile
      by_cases hoffset : offset = bytes.length
      · rw [hoffset, outcome_write_stored ht hstate hfile (hu bytes hfile),
          outcome_write_stored ht hstate' hfile' (hv bytes hfile'),
          caught_eq h (hu bytes hfile) (hv bytes hfile'), h.name, h.id]
        exact .of_eq rfl
      · rw [outcome_write_offset ht hstate hfile hoffset,
          outcome_write_offset ht hstate' hfile' hoffset]
        exact .kept h _
  · rw [outcome_write_closed _ hstate, outcome_write_closed _ (h.state ▸ hstate)]
    exact .kept h _

theorem finish_coincide (ht : t.LaidOut l) (h : Same u v) (hu : u.Tracks l t) (hv : v.Tracks l t)
    (expected : Digest) :
    Coincide ((finish l.inMemory expected).outcome (u, t))
      ((finish l.inMemory expected).outcome (v, t)) := by
  by_cases hstate : u.state = .writing
  · have hstate' := h.state.trans hstate
    cases hfile : t.file? (l.path (.uploadData u.name u.id)) with
    | some bytes =>
      have hfile' := (h.file? t).trans hfile
      have hcaught := caught_eq h (hu bytes hfile) (hv bytes hfile')
      by_cases hdigest : Digest.ofBytes expected.algorithm bytes = expected
      · rw [outcome_finish_match ht hstate hfile (hu bytes hfile) hdigest,
          outcome_finish_match ht hstate' hfile' (hv bytes hfile') hdigest, hcaught, h.name, h.id]
        exact .of_eq rfl
      · rw [outcome_finish_mismatch ht hstate hfile (hu bytes hfile) hdigest,
          outcome_finish_mismatch ht hstate' hfile' (hv bytes hfile') hdigest, hcaught]
        exact .of_eq rfl
    | none =>
      have hfile' := (h.file? t).trans hfile
      cases hblob : t.file? (l.path (.blobData expected)) with
      | some content =>
        rw [outcome_finish_moved ht hstate hfile hblob,
          outcome_finish_moved ht hstate' hfile' hblob, h.name, h.id]
        exact ⟨rfl, ⟨rfl, rfl, h.started, rfl⟩, rfl⟩
      | none =>
        rw [outcome_finish_gone ht hstate hfile hblob,
          outcome_finish_gone ht hstate' hfile' hblob, h.id]
        exact .kept h _
  · rw [outcome_finish_closed _ hstate, outcome_finish_closed _ (h.state ▸ hstate)]
    exact .kept h _

theorem cancel_coincide (h : Same u v) :
    Coincide ((cancel l.inMemory).outcome (u, t)) ((cancel l.inMemory).outcome (v, t)) := by
  cases hstate : u.state with
  | writing =>
    rw [outcome_cancel_writing hstate, outcome_cancel_writing (h.state.trans hstate), h.name, h.id]
    exact ⟨rfl, ⟨rfl, rfl, h.started, rfl⟩, rfl⟩
  | finished =>
    rw [outcome_cancel_finished _ hstate, outcome_cancel_finished _ (h.state.trans hstate)]
    exact .kept h _
  | cancelled =>
    rw [outcome_cancel_cancelled _ hstate, outcome_cancel_cancelled _ (h.state.trans hstate)]
    exact .kept h _

end Upload

/-! ### Clients that differ in one handle -/

namespace Request

/-- The uploads that a request starts. -/
def draws : Request → List (RepositoryName × UploadId)
  | operation op => op.draws
  | _ => []

/-- Every upload that is started has an identifier that its repository has not seen before. -/
def Fresh : List (RepositoryName × UploadId) → List Request → Prop
  | _, [] => True
  | drawn, q :: rest => (∀ key ∈ q.draws, key ∉ drawn) ∧ Fresh (q.draws ++ drawn) rest

end Request

namespace Client

variable {c c' : Client MemoryStore Bytes} {handle : Nat} {op : Operation} {q : Request}
  {drawn : List (RepositoryName × UploadId)}

/-- A client has the storage and the handles of a world. -/
def IsOf (l : Layout) (drawn : List (RepositoryName × UploadId)) (c : Client MemoryStore Bytes) :
    Prop :=
  ∃ w : World, w.Inv l ∧ w.drawn = drawn ∧ c.session = ⟨w.store, w.handles⟩

namespace IsOf

theorem laidOut (h : c.IsOf l drawn) : c.storage.LaidOut l := by
  obtain ⟨w, hw, -, hsession⟩ := h
  have hstorage : c.storage = w.store := congrArg Session.storage hsession
  exact hstorage ▸ hw.laidOut

theorem tracks (h : c.IsOf l drawn) {i : Nat} {u : Upload} (hu : c.handles[i]? = some u) :
    u.Tracks l c.storage := by
  obtain ⟨w, hw, -, hsession⟩ := h
  have hstorage : c.storage = w.store := congrArg Session.storage hsession
  have hhandles : c.handles = w.handles := congrArg Session.handles hsession
  rw [hhandles] at hu
  exact hstorage ▸ (hw.handles u (List.mem_of_getElem? hu)).2

/-- A request with fresh identifiers leads on to a world. -/
theorem step (h : c.IsOf l drawn) (hfresh : ∀ key ∈ q.draws, key ∉ drawn) :
    (c.step l.inMemory q).2.IsOf l (q.draws ++ drawn) := by
  obtain ⟨w, hw, rfl, hsession⟩ := h
  have hkept : ∀ c' : Client MemoryStore Bytes, c'.session = c.session → c'.IsOf l w.drawn :=
    fun c' hc' => ⟨w, hw, rfl, hc'.trans hsession⟩
  have hpulls : ∀ (reader : Nat)
      (pull : BlobReader Bytes → MemoryStore → Except RegistryError Bytes × BlobReader Bytes),
      (c.pulls reader pull).2.session = c.session := by
    intro reader pull
    simp only [pulls]
    cases c.readers[reader]? <;> rfl
  cases q with
  | operation op =>
    have hfresh' : op.IsFresh w := hfresh
    refine ⟨w.after l MemoryStore.reliable w.store op, ?_, rfl, ?_⟩
    · exact hw.next hfresh' (Session.act_effect hw trivial rfl hfresh')
    · rw [session_step, hsession]
      rfl
  | repository name => exact hkept _ rfl
  | read reader count => exact hkept _ (hpulls reader _)
  | readUpTo reader count => exact hkept _ (hpulls reader _)
  | readToEnd reader => exact hkept _ (hpulls reader _)
  | close reader =>
    refine hkept _ ?_
    simp only [Client.step]
    cases c.readers[reader]? <;> rfl

end IsOf

/-- Two clients on the same storage with the same readers, and with the same handles but for
one, which differ in what they have hashed at most. -/
structure Twins (handle : Nat) (c c' : Client MemoryStore Bytes) : Prop where
  storage : c'.storage = c.storage
  readers : c'.readers = c.readers
  handles : ∃ u u', c.handles[handle]? = some u ∧ Upload.Same u u' ∧
    c'.handles = c.handles.set handle u'

/-- The same answer, to clients that are twins then. -/
structure Interchangeable (handle : Nat) (x y : Answer × Client MemoryStore Bytes) : Prop where
  answer : y.1 = x.1
  twins : Twins handle x.2 y.2

namespace Twins

variable {α : Type}

theorem asks (h : Twins handle c c') (action : RegistryAction MemoryStore α) (reply : α → Reply) :
    Interchangeable handle (c.asks action reply) (c'.asks action reply) := by
  simp only [Client.asks, h.storage]
  exact ⟨rfl, rfl, h.readers, h.handles⟩

theorem opens (h : Twins handle c c') (action : RegistryAction MemoryStore (BlobReader Bytes)) :
    Interchangeable handle (c.opens action) (c'.opens action) := by
  simp only [Client.opens, h.storage]
  cases action.outcome c.storage with
  | mk x s =>
    cases x with
    | error e => exact ⟨rfl, rfl, h.readers, h.handles⟩
    | ok b => exact ⟨rfl, rfl, congrArg (· ++ [b]) h.readers, h.handles⟩

/-- A new handle is the same for both. -/
theorem starts (h : Twins handle c c') (action : RegistryAction MemoryStore Upload) :
    Interchangeable handle (c.starts action) (c'.starts action) := by
  simp only [Client.starts, h.storage]
  cases action.outcome c.storage with
  | mk x s =>
    cases x with
    | error e => exact ⟨rfl, rfl, h.readers, h.handles⟩
    | ok v =>
      obtain ⟨u, u', hu, hsame, hhandles⟩ := h.handles
      have hbound : handle < c.handles.length := (List.getElem?_eq_some_iff.1 hu).1
      refine ⟨rfl, rfl, h.readers, u, u', ?_, hsame, ?_⟩
      · exact (List.getElem?_append_left hbound).trans hu
      · show c'.handles ++ [v] = (c.handles ++ [v]).set handle u'
        rw [hhandles, List.set_append_left _ _ hbound]

/-- What is done with the handle in which they differ coincides; any other is the same. -/
theorem uses (h : Twins handle c c') (hc : c.IsOf l drawn) (hc' : c'.IsOf l drawn) (i : Nat)
    {action : UploadAction MemoryStore α} (reply : α → Reply)
    (hcoincide : ∀ u v : Upload, u.Same v → u.Tracks l c.storage → v.Tracks l c.storage →
      Upload.Coincide (action.outcome (u, c.storage)) (action.outcome (v, c.storage))) :
    Interchangeable handle (c.uses i action reply) (c'.uses i action reply) := by
  obtain ⟨u, u', hu, hsame, hhandles⟩ := h.handles
  have hbound : handle < c.handles.length := (List.getElem?_eq_some_iff.1 hu).1
  simp only [Client.uses]
  by_cases hi : handle = i
  · subst hi
    have hu' : c'.handles[handle]? = some u' := by
      rw [hhandles, List.getElem?_set_self hbound]
    obtain ⟨hanswer, hnext, hstorage⟩ :=
      hcoincide u u' hsame (hc.tracks hu) (h.storage ▸ hc'.tracks hu')
    rw [hu, hu', h.storage]
    refine ⟨congrArg (Except.map reply) hanswer, hstorage, h.readers, _, _, ?_, hnext, ?_⟩
    · exact List.getElem?_set_self hbound
    · show c'.handles.set handle _ = (c.handles.set handle _).set handle _
      rw [hhandles, List.set_set, List.set_set]
  · have hother : c'.handles[i]? = c.handles[i]? := by
      rw [hhandles, List.getElem?_set_ne hi]
    rw [hother, h.storage]
    cases c.handles[i]? with
    | none => exact ⟨rfl, h⟩
    | some v =>
      refine ⟨rfl, rfl, h.readers, u, u', ?_, hsame, ?_⟩
      · exact (List.getElem?_set_ne (Ne.symm hi)).trans hu
      · show c'.handles.set i _ = (c.handles.set i _).set handle _
        rw [hhandles, List.set_comm _ _ hi]

theorem pulls (h : Twins handle c c') (reader : Nat)
    (pull : BlobReader Bytes → MemoryStore → Except RegistryError Bytes × BlobReader Bytes) :
    Interchangeable handle (c.pulls reader pull) (c'.pulls reader pull) := by
  simp only [Client.pulls, h.storage, h.readers]
  cases c.readers[reader]? with
  | none => exact ⟨rfl, h⟩
  | some b => exact ⟨rfl, rfl, rfl, h.handles⟩

/-- **Twins are told the same**, whatever they have done, and remain twins. -/
theorem act (h : Twins handle c c') (hc : c.IsOf l drawn) (hc' : c'.IsOf l drawn) (op : Operation) :
    Interchangeable handle (c.act l.inMemory op) (c'.act l.inMemory op) := by
  have ht := hc.laidOut
  cases op with
  | start n id now => exact h.starts (Upload.start ⟨l.inMemory, n⟩ id now)
  | resume n id => exact h.starts (Upload.resume ⟨l.inMemory, n⟩ id)
  | size i => exact h.uses hc hc' i _ fun _ _ hsame _ _ => Upload.size_coincide ht hsame
  | write i offset source =>
    exact h.uses hc hc' i _ fun _ _ hsame hu hv =>
      Upload.write_coincide ht hsame hu hv offset source
  | finish i expected =>
    exact h.uses hc hc' i _ fun _ _ hsame hu hv => Upload.finish_coincide ht hsame hu hv expected
  | cancel i => exact h.uses hc hc' i _ fun _ _ hsame _ _ => Upload.cancel_coincide hsame
  | putManifest n tag document =>
    simp only [Client.act]
    cases SignedManifest.parse document with
    | error e => exact ⟨rfl, h⟩
    | ok m => exact h.asks _ _
  | blobOpen digest offset => exact h.opens _
  | layerOpen n digest offset => exact h.opens _
  | _ => exact h.asks _ _

theorem step (h : Twins handle c c') (hc : c.IsOf l drawn) (hc' : c'.IsOf l drawn) (q : Request) :
    Interchangeable handle (c.step l.inMemory q) (c'.step l.inMemory q) := by
  cases q with
  | repository name => exact ⟨rfl, h⟩
  | operation op => exact h.act hc hc' op
  | read reader count => exact h.pulls reader _
  | readUpTo reader count => exact h.pulls reader _
  | readToEnd reader => exact h.pulls reader _
  | close reader =>
    simp only [Client.step, h.readers]
    cases c.readers[reader]? with
    | none => exact ⟨rfl, h⟩
    | some b => exact ⟨rfl, h.storage, rfl, h.handles⟩

/-- **Twins are told the same for good.** -/
theorem run (h : Twins handle c c') (hc : c.IsOf l drawn) (hc' : c'.IsOf l drawn)
    {requests : List Request} (hfresh : Request.Fresh drawn requests) :
    List.Forall₂ (Interchangeable handle) (c.run l.inMemory requests)
      (c'.run l.inMemory requests) := by
  induction requests generalizing c c' drawn with
  | nil => exact .nil
  | cons q rest ih =>
    obtain ⟨hdraws, hrest⟩ := hfresh
    have hstep := h.step hc hc' q
    exact .cons hstep (ih hstep.twins (hc.step hdraws) (hc'.step hdraws) hrest)

end Twins
end Client

/-! ### Resuming -/

namespace Chronicle

variable {w : World} {past : List (World × Operation)} {handle : Nat} {u : Upload}
  {n : RepositoryName} {id : UploadId}

/-- An upload with anything on storage is open. -/
theorem isOpen_of_occupied (h : Chronicle l w past) (hdated : ∀ e ∈ past, e.2.IsDated)
    (hoccupied : w.store.occupied (l.path (.upload n id)) = true) : IsOpen l past n id := by
  refine Classical.byContradiction fun hshut => ?_
  obtain ⟨f, bytes, hf, hbeneath, hbytes⟩ := (h.reachable.inv.laidOut.occupied_iff _).1 hoccupied
  have hnone : w.store.file? (l.path f) = none := by
    refine (h.registered hdated).shut n id hshut f ?_
    rcases Resource.file_beneath_upload hf hbeneath with rfl | rfl <;> rfl
  cases hnone.symm.trans hbytes

/-- An open upload is resumed with the start time that its handles bear. -/
theorem resume_open (h : Chronicle l w past) (hdated : ∀ e ∈ past, e.2.IsDated)
    (hu : u ∈ w.handles) (hopen : IsOpen l past u.name u.id) :
    (Upload.resume ⟨l.inMemory, u.name⟩ u.id).outcome w.store =
      (.ok (Upload.opened u.id u.name u.started), w.store) := by
  obtain ⟨now, hcivil, hstarted, -, hhandles⟩ := (h.registered hdated).opened _ _ hopen
  rw [Upload.outcome_resume_stored hstarted, Instant.startOfContent_ofText hcivil,
    hhandles u hu rfl rfl]
  rfl

/-- In a world, a handle may be put in the place of another on the same upload. -/
theorem isOf_set (h : Chronicle l w past) (hu : w.handles[handle]? = some u)
    (readers : List (BlobReader Bytes)) :
    Client.IsOf l w.drawn
      ⟨w.store, w.handles.set handle (Upload.opened u.id u.name u.started), readers⟩ := by
  have hw := h.reachable.inv
  refine ⟨{ w with handles := w.handles.set handle (Upload.opened u.id u.name u.started) },
    ⟨hw.laidOut, hw.addressed, hw.drawn, fun v hv => ?_, hw.landed, hw.landed_drawn⟩, rfl, rfl⟩
  rcases List.mem_or_eq_of_mem_set hv with hv | rfl
  · exact hw.handles v hv
  · exact ⟨(hw.handles u (List.mem_of_getElem? hu)).1, fun bytes _ => .opened _ _ _ bytes⟩

/-- **A handle may be dropped and its upload resumed**, as long as anything of it is on
storage: whatever is asked from then on is answered the same, and leaves the same behind. -/
theorem resume_interchangeable (h : Chronicle l w past) (hdated : ∀ e ∈ past, e.2.IsDated)
    (hu : w.handles[handle]? = some u) (hwriting : u.state = .writing)
    (hstored : w.store.occupied (l.path (.upload u.name u.id)) = true) :
    ∃ u', (Upload.resume ⟨l.inMemory, u.name⟩ u.id).outcome w.store = (.ok u', w.store) ∧
      Upload.Same u u' ∧ ∀ readers requests, Request.Fresh w.drawn requests →
        List.Forall₂ (Client.Interchangeable handle)
          (Client.run l.inMemory ⟨w.store, w.handles, readers⟩ requests)
          (Client.run l.inMemory ⟨w.store, w.handles.set handle u', readers⟩ requests) := by
  have hopen := h.isOpen_of_occupied hdated hstored
  have hsame : Upload.Same u (Upload.opened u.id u.name u.started) := ⟨rfl, rfl, rfl, hwriting.symm⟩
  refine ⟨_, h.resume_open hdated (List.mem_of_getElem? hu) hopen, hsame, ?_⟩
  intro readers requests hfresh
  have htwins : Client.Twins handle ⟨w.store, w.handles, readers⟩
      ⟨w.store, w.handles.set handle (Upload.opened u.id u.name u.started), readers⟩ :=
    ⟨rfl, rfl, u, _, hu, hsame, rfl⟩
  exact htwins.run ⟨w, h.reachable.inv, rfl, rfl⟩ (h.isOf_set hu readers) hfresh

/-- A handle that has hashed three bytes is dropped for one that has hashed none. -/
theorem resume_interchangeable_written : ∃ (w : World) (past : List (World × Operation))
    (u : Upload), Chronicle default w past ∧ (∀ e ∈ past, e.2.IsDated) ∧
      w.handles[0]? = some u ∧ u.state = .writing ∧ u.hashed = 3 ∧
      w.store.occupied ((default : Layout).path (.upload u.name u.id)) = true ∧
      ∃ u', (Upload.resume ⟨(default : Layout).inMemory, u.name⟩ u.id).outcome w.store =
          (.ok u', w.store) ∧
        Upload.Same u u' ∧ ∀ readers requests, Request.Fresh w.drawn requests →
          List.Forall₂ (Client.Interchangeable 0)
            (Client.run (default : Layout).inMemory ⟨w.store, w.handles, readers⟩ requests)
            (Client.run (default : Layout).inMemory ⟨w.store, w.handles.set 0 u', readers⟩
              requests) := by
  obtain ⟨n, id⟩ : RepositoryName × UploadId :=
    (⟨"team/one", by decide⟩, ⟨"00000000-0000-0000-0000-000000000001", by decide⟩)
  have hstart := Chronicle.empty.step (l := default) (.start n id ⟨0, 0, 0⟩)
    (fun _ _ => List.not_mem_nil)
  have hchronicle := hstart.step (.write 0 0 (.ofBytes [1, 2, 3])) fun _ hkey =>
    absurd hkey List.not_mem_nil
  have hdated : ∀ e ∈ [] ++ [(World.empty, Operation.start n id ⟨0, 0, 0⟩)] ++
      [(World.empty.after default MemoryStore.reliable World.empty.store (.start n id ⟨0, 0, 0⟩),
        Operation.write 0 0 (.ofBytes [1, 2, 3]))], e.2.IsDated := by
    simp [Operation.IsDated, Instant.isCivil_epoch]
  have hwrite := Upload.outcome_write_stored hstart.reachable.inv.laidOut
    (u := Upload.opened id n ⟨0, 0, 0⟩) rfl (World.after_start World.empty n id ⟨0, 0, 0⟩).2
    (.opened id n ⟨0, 0, 0⟩ []) (.ofBytes [1, 2, 3])
  obtain ⟨hstore, hhandles⟩ := @World.after_outcome _ _ _ (.write 0 0 (.ofBytes [1, 2, 3])) 0
    _ _ _ _ _ rfl rfl hwrite
  have hu := congrArg (·[0]?) hhandles
  have hstored := (hchronicle.reachable.inv.laidOut.occupied_iff _).2
    ⟨.uploadData n id, _, rfl, Resource.upload_isPrefix_data n id, by
      rw [hstore, MemoryStore.file?_put_path rfl]
      exact if_pos rfl⟩
  exact ⟨_, _, _, hchronicle, hdated, hu, rfl, rfl, hstored,
    resume_interchangeable hchronicle hdated hu rfl hstored⟩

end Chronicle
end ContainerRegistry
