/-
# What a client sees of a registry

A client names repositories, has operations done, and reads from the readers that it
opened. It sees the answer of each request and nothing of the storage. Handles and
readers go by the numbers in which they were opened; the identifier of an upload and
its start time are drawn outside the registry and come with the request that starts it.

A single read may be short, in which case it gives what a read for fewer bytes gives. All
other requests leave no choice.

Key definitions: `Request`, `Request.IsWhole`, `Request.Shortens`, `Reply`, `Client`,
`Client.step`, `Client.run`.
Key theorems: `Client.session_step`.
-/
import ContainerRegistry.Proofs.Session

namespace ContainerRegistry

/-- What a client may ask for. -/
inductive Request where
  /-- The repository of a name. -/
  | repository (name : String)
  | operation (op : Operation)
  /-- What comes next from a reader in one read, with room for so many bytes. -/
  | read (reader : Nat) (count : Nat)
  /-- Bytes from a reader until so many are at hand. -/
  | readUpTo (reader : Nat) (count : Nat)
  | readToEnd (reader : Nat)
  | close (reader : Nat)

/-- The readers that bytes are written from do not fail. -/
def Request.IsSound : Request → Prop
  | operation (.write _ _ source) => source.failure = none
  | _ => True

/-- The second request is the first, or asks for fewer bytes in a single read, but for some if
the first did. -/
inductive Request.Shortens : Request → Request → Prop where
  | refl (q : Request) : Shortens q q
  | read (reader : Nat) {count got : Nat} : got ≤ count → (0 < count → 0 < got) →
    Shortens (.read reader count) (.read reader got)

/-- What a client is told when a request does not fail. -/
inductive Reply where
  /-- There is no handle or reader of that number. -/
  | absent
  | done
  | repository (n : RepositoryName)
  | upload (u : Upload)
  /-- A reader on content, from an offset. -/
  | reader (descriptor : Descriptor) (offset : Nat)
  | count (n : Nat)
  | descriptor (descriptor : Descriptor)
  | digest (digest : Digest)
  | flag (b : Bool)
  | manifest (m : SignedManifest)
  | bytes (bytes : Bytes)
  | tags (texts : List String)
  | catalog (names : List RepositoryName)

/-- What a client is told. -/
abbrev Answer := Except RegistryError Reply

/-- A storage, and the handles and readers that were opened on it. -/
structure Client (σ ρ : Type) where
  storage : σ
  handles : List Upload
  readers : List (BlobReader ρ)

namespace Client

variable {σ ρ α : Type}

/-- A client that has opened nothing yet. -/
def connected (s : σ) : Client σ ρ :=
  ⟨s, [], []⟩

/-- An action on the storage alone. -/
def asks (c : Client σ ρ) (action : RegistryAction σ α) (reply : α → Reply) :
    Answer × Client σ ρ :=
  let after := action.outcome c.storage
  (after.1.map reply, { c with storage := after.2 })

/-- An action that opens a handle. -/
def starts (c : Client σ ρ) (action : RegistryAction σ Upload) : Answer × Client σ ρ :=
  match action.outcome c.storage with
  | (.ok u, s) => (.ok (.upload u), ⟨s, c.handles ++ [u], c.readers⟩)
  | (.error e, s) => (.error e, { c with storage := s })

/-- An action that opens a reader. -/
def opens (c : Client σ ρ) (action : RegistryAction σ (BlobReader ρ)) : Answer × Client σ ρ :=
  match action.outcome c.storage with
  | (.ok b, s) => (.ok (.reader b.descriptor b.position), ⟨s, c.handles, c.readers ++ [b]⟩)
  | (.error e, s) => (.error e, { c with storage := s })

/-- An action on a handle, if there is one of that number. -/
def uses (c : Client σ ρ) (handle : Nat) (action : UploadAction σ α) (reply : α → Reply) :
    Answer × Client σ ρ :=
  match c.handles[handle]? with
  | none => (.ok .absent, c)
  | some u =>
    let after := action.outcome (u, c.storage)
    (after.1.map reply, ⟨after.2.2, c.handles.set handle after.2.1, c.readers⟩)

/-- A pull from a reader, if there is one of that number. -/
def pulls (c : Client σ ρ) (reader : Nat)
    (pull : BlobReader ρ → σ → Except RegistryError Bytes × BlobReader ρ) : Answer × Client σ ρ :=
  match c.readers[reader]? with
  | none => (.ok .absent, c)
  | some b =>
    let after := pull b c.storage
    (after.1.map .bytes, { c with readers := c.readers.set reader after.2 })

/-- An operation on a registry. -/
def act (r : Registry σ ρ) (c : Client σ ρ) : Operation → Answer × Client σ ρ
  | .start n id now => c.starts (Upload.start ⟨r, n⟩ id now)
  | .resume n id => c.starts (Upload.resume ⟨r, n⟩ id)
  | .size handle => c.uses handle (Upload.size r) .count
  | .write handle offset source => c.uses handle (Upload.write r offset source) .count
  | .finish handle expected => c.uses handle (Upload.finish r expected) .descriptor
  | .cancel handle => c.uses handle (Upload.cancel r) fun _ => .done
  | .cancelUpload n id => c.asks (Repository.cancelUpload ⟨r, n⟩ id) fun _ => .done
  | .mount n digest => c.asks (Repository.mount ⟨r, n⟩ digest) .descriptor
  | .putManifest n tag document =>
    match SignedManifest.parse document with
    | .error e => (.error e, c)
    | .ok m => c.asks (Repository.putManifest ⟨r, n⟩ tag m) .digest
  | .deleteManifest n reference =>
    c.asks (Repository.deleteManifest ⟨r, n⟩ reference) fun _ => .done
  | .blobExists digest => c.asks (r.blobExists digest) .flag
  | .blobStat digest => c.asks (r.blobStat digest) .descriptor
  | .blobOpen digest offset => c.opens (r.blobOpen digest offset)
  | .layerExists n digest => c.asks (Repository.layerExists ⟨r, n⟩ digest) .flag
  | .layerStat n digest => c.asks (Repository.layerStat ⟨r, n⟩ digest) .descriptor
  | .layerOpen n digest offset => c.opens (Repository.layerOpen ⟨r, n⟩ digest offset)
  | .resolveTag n tag => c.asks (Repository.resolveTag ⟨r, n⟩ tag) .digest
  | .manifest n tag => c.asks (Repository.manifest ⟨r, n⟩ tag) .manifest
  | .manifestByDigest n digest => c.asks (Repository.manifestByDigest ⟨r, n⟩ digest) .manifest
  | .manifestExists n tag => c.asks (Repository.manifestExists ⟨r, n⟩ tag) .flag
  | .tags n => c.asks (Repository.tags ⟨r, n⟩) .tags
  | .catalog => c.asks r.catalog .catalog

/-- The answer to a request, and what it makes of the client. -/
def step (r : Registry σ ρ) (c : Client σ ρ) : Request → Answer × Client σ ρ
  | .repository name => ((r.repository name).map fun n => .repository n.name, c)
  | .operation op => c.act r op
  | .read reader count => c.pulls reader fun b s => b.read r.storage count s
  | .readUpTo reader count => c.pulls reader fun b s => b.readUpTo r.storage count s
  | .readToEnd reader => c.pulls reader fun b s => b.readToEnd r.storage s
  | .close reader =>
    match c.readers[reader]? with
    | none => (.ok .absent, c)
    | some b => (.ok .done, { c with readers := c.readers.set reader b.close })

/-- The answers to requests, each with what it leaves behind. -/
def run (r : Registry σ ρ) : Client σ ρ → List Request → List (Answer × Client σ ρ)
  | _, [] => []
  | c, q :: rest => c.step r q :: run r (c.step r q).2 rest

/-- The session of a client. -/
def session (c : Client σ ρ) : Session σ :=
  ⟨c.storage, c.handles⟩

/-- **A client's operations act on the session as the operations of a history do.** -/
theorem session_step (r : Registry σ ρ) (c : Client σ ρ) (op : Operation) :
    (c.step r (.operation op)).2.session = c.session.act r op := by
  have hstarts : ∀ action : RegistryAction σ Upload,
      (c.starts action).2.session = c.session.opens action := by
    intro action
    simp only [starts, session, Session.opens]
    split <;> simp_all
  have hopens : ∀ action : RegistryAction σ (BlobReader ρ),
      (c.opens action).2.session = c.session.asks action := by
    intro action
    simp only [opens, session, Session.asks]
    split <;> simp_all
  have huses : ∀ {α : Type} (handle : Nat) (action : UploadAction σ α) (reply : α → Reply),
      (c.uses handle action reply).2.session = c.session.uses handle action := by
    intro α handle action reply
    simp only [uses, session, Session.uses]
    split <;> simp_all
  cases op with
  | start | resume => exact hstarts _
  | size | write | finish | cancel => exact huses _ _ _
  | blobOpen | layerOpen => exact hopens _
  | putManifest n tag document =>
    simp only [step, act, Session.act]
    cases SignedManifest.parse document <;> rfl
  | _ => rfl

end Client
end ContainerRegistry
