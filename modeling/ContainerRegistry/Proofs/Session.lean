/-
# Histories of a registry

A session is a storage and the handles that were opened on its uploads; an
operation is anything that a client may ask of the registry, and acts on the
session whether it succeeds or fails. A world is a session seen by an observer
who also writes down which uploads were started, which bytes landed in them and
which contents were offered for storing. The reachable worlds are those that
operations lead to from an empty store, each of them on any unreliable driver,
with identifiers that are drawn anew for each upload.

Key definitions: `Operation`, `Session`, `Session.act`, `World`, `World.after`,
`Reachable`.
-/
import ContainerRegistry.Proofs.Unreliable
import ContainerRegistry.Registry.Catalog
import ContainerRegistry.Registry.Manifest
import ContainerRegistry.Registry.Upload

namespace ContainerRegistry

/-- What a client may ask of a registry. Handles go by their number. -/
inductive Operation where
  | start (n : RepositoryName) (id : UploadId) (now : Instant)
  | resume (n : RepositoryName) (id : UploadId)
  | size (handle : Nat)
  | write (handle : Nat) (offset : Nat) (source : Source)
  | finish (handle : Nat) (expected : Digest)
  | cancel (handle : Nat)
  | cancelUpload (n : RepositoryName) (id : UploadId)
  | mount (n : RepositoryName) (digest : Digest)
  | putManifest (n : RepositoryName) (tag : String) (document : Bytes)
  | deleteManifest (n : RepositoryName) (reference : String)
  | blobExists (digest : Digest)
  | blobStat (digest : Digest)
  | blobOpen (digest : Digest) (offset : Nat)
  | layerExists (n : RepositoryName) (digest : Digest)
  | layerStat (n : RepositoryName) (digest : Digest)
  | layerOpen (n : RepositoryName) (digest : Digest) (offset : Nat)
  | resolveTag (n : RepositoryName) (tag : String)
  | manifest (n : RepositoryName) (tag : String)
  | manifestByDigest (n : RepositoryName) (digest : Digest)
  | manifestExists (n : RepositoryName) (tag : String)
  | tags (n : RepositoryName)
  | catalog

/-- A storage, and the handles that were opened on its uploads. -/
structure Session (σ : Type) where
  storage : σ
  handles : List Upload

namespace Session

variable {σ ρ α : Type}

/-- An action that opens a handle. -/
def opens (x : Session σ) (action : RegistryAction σ Upload) : Session σ :=
  match action.outcome x.storage with
  | (.ok u, s) => ⟨s, x.handles ++ [u]⟩
  | (.error _, s) => ⟨s, x.handles⟩

/-- An action on the storage alone. -/
def asks (x : Session σ) (action : RegistryAction σ α) : Session σ :=
  ⟨(action.outcome x.storage).2, x.handles⟩

/-- An action on a handle, if there is one of that number. -/
def uses (x : Session σ) (handle : Nat) (action : UploadAction σ α) : Session σ :=
  match x.handles[handle]? with
  | none => x
  | some u =>
    let after := (action.outcome (u, x.storage)).2
    ⟨after.2, x.handles.set handle after.1⟩

/-- What an operation makes of a session, whatever it answers. -/
def act (r : Registry σ ρ) (x : Session σ) : Operation → Session σ
  | .start n id now => x.opens (Upload.start ⟨r, n⟩ id now)
  | .resume n id => x.opens (Upload.resume ⟨r, n⟩ id)
  | .size handle => x.uses handle (Upload.size r)
  | .write handle offset source => x.uses handle (Upload.write r offset source)
  | .finish handle expected => x.uses handle (Upload.finish r expected)
  | .cancel handle => x.uses handle (Upload.cancel r)
  | .cancelUpload n id => x.asks (Repository.cancelUpload ⟨r, n⟩ id)
  | .mount n digest => x.asks (Repository.mount ⟨r, n⟩ digest)
  | .putManifest n tag document =>
    match SignedManifest.parse document with
    | .error _ => x
    | .ok m => x.asks (Repository.putManifest ⟨r, n⟩ tag m)
  | .deleteManifest n reference => x.asks (Repository.deleteManifest ⟨r, n⟩ reference)
  | .blobExists digest => x.asks (r.blobExists digest)
  | .blobStat digest => x.asks (r.blobStat digest)
  | .blobOpen digest offset => x.asks (r.blobOpen digest offset)
  | .layerExists n digest => x.asks (Repository.layerExists ⟨r, n⟩ digest)
  | .layerStat n digest => x.asks (Repository.layerStat ⟨r, n⟩ digest)
  | .layerOpen n digest offset => x.asks (Repository.layerOpen ⟨r, n⟩ digest offset)
  | .resolveTag n tag => x.asks (Repository.resolveTag ⟨r, n⟩ tag)
  | .manifest n tag => x.asks (Repository.manifest ⟨r, n⟩ tag)
  | .manifestByDigest n digest => x.asks (Repository.manifestByDigest ⟨r, n⟩ digest)
  | .manifestExists n tag => x.asks (Repository.manifestExists ⟨r, n⟩ tag)
  | .tags n => x.asks (Repository.tags ⟨r, n⟩)
  | .catalog => x.asks r.catalog

end Session

/-! ### Worlds -/

/-- A session, and what an observer has written down of its history. -/
structure World where
  store : MemoryStore
  handles : List Upload
  /-- The uploads that were started. -/
  drawn : List (RepositoryName × UploadId)
  /-- The bytes that each write added to an upload, in order. -/
  landed : List ((RepositoryName × UploadId) × Bytes)
  /-- The contents that were offered for storing. -/
  offered : List Bytes

/-- Nothing is stored, and nothing has happened. -/
def World.empty : World :=
  ⟨.empty, [], [], [], []⟩

/-- The bytes that have landed in an upload since its start, one write after the
other. -/
def World.landedIn (w : World) (n : RepositoryName) (id : UploadId) : Bytes :=
  (w.landed.filter fun e => e.1 = (n, id)).flatMap Prod.snd

/-- The number of bytes that are stored of an upload. -/
def MemoryStore.dataSize (t : MemoryStore) (l : Layout) (u : Upload) : Nat :=
  ((t.file? (l.path (.uploadData u.name u.id))).getD []).length

namespace Operation

/-- The upload that an operation starts. -/
def draws : Operation → List (RepositoryName × UploadId)
  | start n id _ => [(n, id)]
  | _ => []

/-- An upload is started under an identifier that its repository has not seen. -/
def IsFresh (w : World) (op : Operation) : Prop :=
  ∀ key ∈ op.draws, key ∉ w.drawn

/-- What an operation added to an upload: as many bytes of its source as the file
has grown by. -/
def lands (l : Layout) (w : World) (t' : MemoryStore) :
    Operation → List ((RepositoryName × UploadId) × Bytes)
  | write handle _ source =>
    match w.handles[handle]? with
    | some u =>
      [((u.name, u.id), source.bytes.take (t'.dataSize l u - w.store.dataSize l u))]
    | none => []
  | _ => []

/-- The contents that an operation offers for storing: the bytes of an upload that
is to be finished, and the document of a manifest. -/
def offers (l : Layout) (w : World) : Operation → List Bytes
  | finish handle _ =>
    match w.handles[handle]? with
    | some u => (w.store.file? (l.path (.uploadData u.name u.id))).toList
    | none => []
  | putManifest _ _ document =>
    match SignedManifest.parse document with
    | .ok _ => [document]
    | .error _ => []
  | _ => []

end Operation

/-- The world after an operation that left a store and handles behind. -/
def World.next (w : World) (l : Layout) (op : Operation) (t' : MemoryStore)
    (handles' : List Upload) : World where
  store := t'
  handles := handles'
  drawn := op.draws ++ w.drawn
  landed := w.landed ++ op.lands l w t'
  offered := op.offers l w ++ w.offered

/-- The world after an operation on a driver, from one of its states. -/
def World.after (w : World) (l : Layout) (d : Unreliable) (s : d.State) (op : Operation) : World :=
  let x := Session.act ⟨d.driver, l⟩ ⟨s, w.handles⟩ op
  w.next l op (d.view.look x.storage) x.handles

/-- What an operation on a handle leaves behind. -/
theorem World.after_uses {α : Type} {w : World} {l : Layout} {d : Unreliable} {s : d.State}
    {op : Operation} {handle : Nat} {u : Upload} {action : UploadAction d.State α}
    (hact : Session.act ⟨d.driver, l⟩ ⟨s, w.handles⟩ op = Session.uses ⟨s, w.handles⟩ handle action)
    (hu : w.handles[handle]? = some u) :
    (w.after l d s op).store = d.view.look (action.outcome (u, s)).2.2 ∧
      (w.after l d s op).handles = w.handles.set handle (action.outcome (u, s)).2.1 := by
  constructor <;> simp only [World.after, World.next, hact, Session.uses, hu]

/-- The worlds that operations lead to. -/
inductive Reachable (l : Layout) : World → Prop where
  | empty : Reachable l World.empty
  | step {w : World} (reached : Reachable l w) (d : Unreliable) (s : d.State)
      (admitted : d.view.admits s) (stored : d.view.look s = w.store) (op : Operation)
      (fresh : op.IsFresh w) : Reachable l (w.after l d s op)

end ContainerRegistry
