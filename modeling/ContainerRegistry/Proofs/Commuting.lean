/-
# Work in different repositories commutes

Two operations that are issued in different repositories may be done in either order: each
is answered the same and leaves the same in its handle, and in the end the same files are
stored. What the first does to the files of its repository is nothing that the second looks
at (`SeenAlike`), so the second has the same done to it as if it came first (`Concerted`).
The repositories share the blobs, though, and the one that stores a blob first decides
whether the other moves its bytes there or discards them. That cannot be told afterwards, as
long as digests tell the contents at stake apart.

Key definitions: `Operation.IssuedIn`, `Client.Deed`, `Client.Concerted`, `SideBySide`,
`Client.Commutes`.
Key theorems: `Operation.IssuedIn.concerted`, `SideBySide.concerted`, `SideBySide.file?_of_owner`,
`SideBySide.file?_eq`, `Reachable.commutes`.
-/
import ContainerRegistry.Proofs.Client
import ContainerRegistry.Proofs.Isolation
import ContainerRegistry.Proofs.Perspective

namespace ContainerRegistry

open ContainerRegistry.Action

namespace Operation

/-- An operation depends on no blob that its repository has no link to: it does not mount,
and what it finishes still has its bytes. -/
def IsSelfContained (l : Layout) (w : World) : Operation → Prop
  | mount _ _ => False
  | finish handle _ => ∀ u, w.handles[handle]? = some u →
    ∃ bytes, w.store.file? (l.path (.uploadData u.name u.id)) = some bytes
  | _ => True

/-- An operation is issued in a repository, itself or by a handle on one of its uploads. -/
structure IssuedIn (l : Layout) (w : World) (n : RepositoryName) (op : Operation) : Prop where
  repository : op.repository? w = some n
  fresh : op.IsFresh w
  selfContained : op.IsSelfContained l w

end Operation

namespace Client

/-- What an operation does to a client, its storage aside. -/
inductive Deed where
  | tells (answer : Answer)
  | uses (handle : Nat) (u : Upload) (answer : Answer)
  | starts (u : Upload)
  | opens (b : BlobReader Bytes)

namespace Deed

/-- What the client is told. -/
def answer : Deed → Answer
  | tells answer | uses _ _ answer => answer
  | starts u => .ok (.upload u)
  | opens b => .ok (.reader b.descriptor b.position)

/-- What becomes of the handles. -/
def handles : Deed → List Upload → List Upload
  | uses handle u _, hs => hs.set handle u
  | starts u, hs => hs ++ [u]
  | _, hs => hs

/-- What becomes of the readers. -/
def readers : Deed → List (BlobReader Bytes) → List (BlobReader Bytes)
  | opens b, bs => bs ++ [b]
  | _, bs => bs

/-- A deed that leaves a store behind. -/
def on (d : Deed) (c : Client MemoryStore Bytes) (t : MemoryStore) :
    Answer × Client MemoryStore Bytes :=
  (d.answer, ⟨t, d.handles c.handles, d.readers c.readers⟩)

/-- A deed uses no handle but on uploads of a repository. -/
def IsIn (n : RepositoryName) (hs : List Upload) : Deed → Prop
  | uses handle _ _ => ∃ u, hs[handle]? = some u ∧ u.name = n
  | _ => True

variable {d d' : Deed} {n n' : RepositoryName} {hs : List Upload} {i : Nat} {u : Upload}

/-- The handles on uploads of other repositories are left alone. -/
theorem IsIn.getElem?_handles (h : d.IsIn n hs) (hu : hs[i]? = some u) (hne : u.name ≠ n) :
    (d.handles hs)[i]? = some u := by
  have hbound : i < hs.length := (List.getElem?_eq_some_iff.1 hu).1
  cases d with
  | tells answer | opens b => exact hu
  | starts v => exact (List.getElem?_append_left hbound).trans hu
  | uses handle v answer =>
    obtain ⟨v', hv', hname⟩ := h
    have hother : handle ≠ i := by
      rintro rfl
      obtain rfl : v' = u := Option.some.inj (hv'.symm.trans hu)
      exact hne hname
    exact (List.getElem?_set_ne hother).trans hu

/-- The handles after deeds in two repositories do not depend on their order, but for the
order in which two new ones come. -/
theorem handles_comm (h : d.IsIn n hs) (h' : d'.IsIn n' hs) (hne : n ≠ n') :
    (d'.handles (d.handles hs)).take hs.length = (d.handles (d'.handles hs)).take hs.length ∧
      (d'.handles (d.handles hs)).Perm (d.handles (d'.handles hs)) := by
  have heq : ∀ {xs ys : List Upload}, xs = ys →
      xs.take hs.length = ys.take hs.length ∧ xs.Perm ys :=
    fun h => h ▸ ⟨rfl, .refl _⟩
  have hbound : ∀ {i : Nat} {u : Upload}, hs[i]? = some u → i < hs.length :=
    fun hu => (List.getElem?_eq_some_iff.1 hu).1
  cases d with
  | tells answer | opens b => cases d' <;> exact heq rfl
  | starts u =>
    cases d' with
    | tells answer | opens b => exact heq rfl
    | starts u' =>
      refine ⟨?_, ?_⟩
      · simp only [handles, List.append_assoc, List.take_left]
      · simp only [handles, List.append_assoc]
        exact (List.Perm.swap u' u []).append_left hs
    | uses i' v' answer' =>
      obtain ⟨u', hu', -⟩ := h'
      exact heq (List.set_append_left _ _ (hbound hu'))
  | uses i v answer =>
    obtain ⟨u, hu, hname⟩ := h
    cases d' with
    | tells answer' | opens b => exact heq rfl
    | starts u' => exact heq (List.set_append_left _ _ (hbound hu)).symm
    | uses i' v' answer' =>
      obtain ⟨u', hu', hname'⟩ := h'
      refine heq (List.set_comm _ _ fun hi => hne ?_)
      subst hi
      rw [← hname, ← hname', Option.some.inj (hu.symm.trans hu')]

theorem readers_comm (d d' : Deed) (bs : List (BlobReader Bytes)) :
    (d'.readers (d.readers bs)).Perm (d.readers (d'.readers bs)) := by
  cases d with
  | opens b =>
    cases d' with
    | opens b' =>
      simp only [readers, List.append_assoc]
      exact (List.Perm.swap b' b []).append_left bs
    | _ => exact .refl _
  | _ => cases d' <;> exact .refl _

end Deed

/-- The same is done to two clients, by an operation of a repository, and their stores are
changed alike. -/
def Concerted (l : Layout) (n : RepositoryName) (c c' : Client MemoryStore Bytes)
    (x x' : Answer × Client MemoryStore Bytes) : Prop :=
  ∃ (d : Deed) (t₁ t₁' : MemoryStore), x = d.on c t₁ ∧ x' = d.on c' t₁' ∧
    ChangedAlike l n c'.storage t₁ t₁' ∧ d.IsIn n c.handles

variable {l : Layout} {n : RepositoryName} {c c' : Client MemoryStore Bytes} {α : Type}

theorem concerted_asks {action : RegistryAction MemoryStore α}
    (h : AnswersAlike l n c.storage c'.storage action) (reply : α → Reply) :
    Concerted l n c c' (c.asks action reply) (c'.asks action reply) := by
  obtain ⟨x, t₁, t₁', hx, hx', hchanged⟩ := h
  refine ⟨.tells (x.map reply), t₁, t₁', ?_, ?_, hchanged, trivial⟩
  · rw [asks, hx]
    rfl
  · rw [asks, hx']
    rfl

theorem concerted_starts {action : RegistryAction MemoryStore Upload}
    (h : AnswersAlike l n c.storage c'.storage action) :
    Concerted l n c c' (c.starts action) (c'.starts action) := by
  obtain ⟨x, t₁, t₁', hx, hx', hchanged⟩ := h
  rw [starts, starts, hx, hx']
  cases x with
  | ok u => exact ⟨.starts u, t₁, t₁', rfl, rfl, hchanged, trivial⟩
  | error e => exact ⟨.tells (.error e), t₁, t₁', rfl, rfl, hchanged, trivial⟩

theorem concerted_opens {action : RegistryAction MemoryStore (BlobReader Bytes)}
    (h : AnswersAlike l n c.storage c'.storage action) :
    Concerted l n c c' (c.opens action) (c'.opens action) := by
  obtain ⟨x, t₁, t₁', hx, hx', hchanged⟩ := h
  rw [opens, opens, hx, hx']
  cases x with
  | ok b => exact ⟨.opens b, t₁, t₁', rfl, rfl, hchanged, trivial⟩
  | error e => exact ⟨.tells (.error e), t₁, t₁', rfl, rfl, hchanged, trivial⟩

theorem concerted_uses {i : Nat} {u : Upload} (hu : c.handles[i]? = some u)
    (hu' : c'.handles[i]? = some u) (hn : u.name = n) {action : UploadAction MemoryStore α}
    (h : Upload.AnswersAlike l n c.storage c'.storage u action) (reply : α → Reply) :
    Concerted l n c c' (c.uses i action reply) (c'.uses i action reply) := by
  obtain ⟨x, v, t₁, t₁', hx, hx', hchanged⟩ := h
  refine ⟨.uses i v (x.map reply), t₁, t₁', ?_, ?_, hchanged, u, hu, hn⟩
  · rw [uses, hu]
    simp only [hx]
    rfl
  · rw [uses, hu']
    simp only [hx']
    rfl

end Client

open Client (Deed Concerted)

/-- What a client of a world is left with by an operation: the world after it. -/
theorem World.client_after {l : Layout} (w : World) (readers : List (BlobReader Bytes))
    (op : Operation) :
    (Client.act l.inMemory ⟨w.store, w.handles, readers⟩ op).2 =
      ⟨(w.run l [op]).store,
        (w.run l [op]).handles,
        (Client.act l.inMemory ⟨w.store, w.handles, readers⟩ op).2.readers⟩ := by
  have hsession := Client.session_step l.inMemory ⟨w.store, w.handles, readers⟩ op
  have hstorage : (Client.act l.inMemory ⟨w.store, w.handles, readers⟩ op).2.storage =
      (w.run l [op]).store := congrArg Session.storage hsession
  have hhandles : (Client.act l.inMemory ⟨w.store, w.handles, readers⟩ op).2.handles =
      (w.run l [op]).handles := congrArg Session.handles hsession
  rw [← hstorage, ← hhandles]

theorem World.storage_both {l : Layout} (w : World) (readers : List (BlobReader Bytes))
    (op op' : Operation) :
    ((Client.act l.inMemory ⟨w.store, w.handles, readers⟩ op).2.act l.inMemory op').2.storage =
      (w.run l [op, op']).store := by
  rw [w.client_after readers op, World.client_after]
  rfl

/-- **An operation of a repository has the same done to it** wherever the store looks the same
from the repository and the handles on its uploads are the same. -/
theorem Operation.IssuedIn.concerted {l : Layout} {w : World} {n : RepositoryName} {op : Operation}
    {contents : Bytes → Prop} (h : op.IssuedIn l w n) (hw : w.Inv l)
    (readers : List (BlobReader Bytes)) {c' : Client MemoryStore Bytes}
    (hseen : SeenAlike l n w.store c'.storage)
    (hhandles : ∀ (i : Nat) (u : Upload), w.handles[i]? = some u → u.name = n →
      c'.handles[i]? = some u)
    (haddressed : c'.storage.Addressed l contents) (hseparates : Digest.Separates contents)
    (hoffers : ∀ content ∈ op.offers l w, contents content) :
    Concerted l n ⟨w.store, w.handles, readers⟩ c'
      (Client.act l.inMemory ⟨w.store, w.handles, readers⟩ op) (c'.act l.inMemory op) := by
  have hop := h.repository
  have htracks : ∀ {i : Nat} {u : Upload}, w.handles[i]? = some u → u.Tracks l w.store :=
    fun hu => (hw.handles _ (List.mem_of_getElem? hu)).2
  cases op with
  | start m id now =>
    obtain rfl : m = n := Option.some.inj hop
    show Concerted _ _ _ _ (Client.starts _ (Upload.start ⟨l.inMemory, m⟩ id now))
      (c'.starts (Upload.start ⟨l.inMemory, m⟩ id now))
    exact Client.concerted_starts (Upload.start_alike hseen id now)
  | resume m id =>
    obtain rfl : m = n := Option.some.inj hop
    exact Client.concerted_starts (Upload.resume_alike hseen id)
  | size handle =>
    obtain ⟨u, hu, hn⟩ := Option.map_eq_some_iff.1 hop
    exact Client.concerted_uses hu (hhandles handle u hu hn) hn (Upload.size_alike hseen hn) _
  | write handle offset source =>
    obtain ⟨u, hu, hn⟩ := Option.map_eq_some_iff.1 hop
    exact Client.concerted_uses hu (hhandles handle u hu hn) hn
      (Upload.write_alike hseen hn (htracks hu) offset source) _
  | finish handle expected =>
    obtain ⟨u, hu, hn⟩ := Option.map_eq_some_iff.1 hop
    obtain ⟨bytes, hfile⟩ := h.selfContained u hu
    have hbytes : contents bytes := by
      refine hoffers bytes ?_
      simp only [Operation.offers, hu, hfile]
      exact List.mem_singleton_self bytes
    exact Client.concerted_uses hu (hhandles handle u hu hn) hn
      (Upload.finish_alike hseen hn hfile (htracks hu bytes hfile) haddressed hseparates hbytes
        expected) _
  | cancel handle =>
    obtain ⟨u, hu, hn⟩ := Option.map_eq_some_iff.1 hop
    exact Client.concerted_uses hu (hhandles handle u hu hn) hn (Upload.cancel_alike hseen hn) _
  | cancelUpload m id =>
    obtain rfl : m = n := Option.some.inj hop
    exact Client.concerted_asks (Upload.remove_alike hseen id) _
  | mount m digest => exact h.selfContained.elim
  | putManifest m text document =>
    obtain rfl : m = n := Option.some.inj hop
    simp only [Client.act]
    cases SignedManifest.parse document with
    | error e => exact ⟨.tells (.error e), _, _, rfl, rfl, .of_seen hseen, trivial⟩
    | ok signed => exact Client.concerted_asks (Repository.putManifest_alike hseen text signed) _
  | deleteManifest m reference =>
    exact Client.concerted_asks (hseen.answers (outcome_throw _ _) (outcome_throw _ _)) _
  | layerExists m digest =>
    obtain rfl : m = n := Option.some.inj hop
    exact Client.concerted_asks (Repository.layer_alike hseen digest).1 _
  | layerStat m digest =>
    obtain rfl : m = n := Option.some.inj hop
    exact Client.concerted_asks (Repository.layerStat_alike hseen digest) _
  | layerOpen m digest offset =>
    obtain rfl : m = n := Option.some.inj hop
    exact Client.concerted_opens ((Repository.layer_alike hseen digest).2.2 offset)
  | resolveTag m text =>
    obtain rfl : m = n := Option.some.inj hop
    exact Client.concerted_asks (Repository.tag_alike hseen text).1 _
  | manifest m text =>
    obtain rfl : m = n := Option.some.inj hop
    exact Client.concerted_asks (Repository.tag_alike hseen text).2.1 _
  | manifestByDigest m digest =>
    obtain rfl : m = n := Option.some.inj hop
    exact Client.concerted_asks (Repository.manifestByDigest_alike hseen digest) _
  | manifestExists m text =>
    obtain rfl : m = n := Option.some.inj hop
    exact Client.concerted_asks (Repository.tag_alike hseen text).2.2 _
  | tags m =>
    obtain rfl : m = n := Option.some.inj hop
    exact Client.concerted_asks (Repository.tags_alike hseen) _
  | blobExists digest | blobStat digest | blobOpen digest offset | catalog => cases hop

/-! ### Two operations -/

/-- Two operations that are issued in different repositories of a world, where digests tell
apart all contents that are stored as blobs or offered by the operations. -/
structure SideBySide (l : Layout) (w : World) (contents : Bytes → Prop) (n₁ n₂ : RepositoryName)
    (op₁ op₂ : Operation) : Prop where
  reachable : Reachable l w
  first : op₁.IssuedIn l w n₁
  second : op₂.IssuedIn l w n₂
  differ : n₁ ≠ n₂
  addressed : w.store.Addressed l contents
  separates : Digest.Separates contents
  offers₁ : ∀ content ∈ op₁.offers l w, contents content
  offers₂ : ∀ content ∈ op₂.offers l w, contents content

/-- An operation of a repository leaves the files of another as they are. -/
theorem World.after_owner {l : Layout} {w : World} {op : Operation} {n m : RepositoryName}
    {f : Resource} (hw : Reachable l w) (hop : op.repository? w = some n) (hf : f.isFile = true)
    (hm : f.owner? = some m) (hne : m ≠ n) :
    (w.run l [op]).store.file? (l.path f) =
      w.store.file? (l.path f) := by
  refine World.after_touches hw.inv.laidOut trivial rfl hf fun htouches => ?_
  rcases htouches.owner hop with howner | ⟨digest, rfl⟩
  · exact hne (Option.some.inj (hm.symm.trans howner))
  · cases hm

/-- An operation of a repository starts uploads there only. -/
theorem Operation.repository_of_mem_draws {w : World} {op : Operation} {n : RepositoryName}
    (hop : op.repository? w = some n) {key : RepositoryName × UploadId} (hkey : key ∈ op.draws) :
    key.1 = n := by
  cases op with
  | start m id now =>
    rw [List.mem_singleton.1 hkey]
    exact Option.some.inj hop
  | _ => cases hkey

namespace SideBySide

variable {l : Layout} {w : World} {contents : Bytes → Prop} {n₁ n₂ : RepositoryName}
  {op₁ op₂ : Operation}

theorem symm (h : SideBySide l w contents n₁ n₂ op₁ op₂) : SideBySide l w contents n₂ n₁ op₂ op₁ :=
  ⟨h.reachable, h.second, h.first, h.differ.symm, h.addressed, h.separates, h.offers₂, h.offers₁⟩

/-! The world after the second operation -/

theorem reachable_after (h : SideBySide l w contents n₁ n₂ op₁ op₂) :
    Reachable l (w.run l [op₂]) :=
  h.reachable.inMemory op₂ h.second.fresh

/-- The second operation is not seen from the repository of the first. -/
theorem seen_after (h : SideBySide l w contents n₁ n₂ op₁ op₂) :
    SeenAlike l n₁ w.store (w.run l [op₂]).store where
  laidOut := h.reachable.inv.laidOut
  laidOut' := h.reachable_after.inv.laidOut
  links := h.reachable.linksPoint
  links' := h.reachable_after.linksPoint
  own _ hf hown := World.after_owner h.reachable h.second.repository hf hown h.differ
  blobs _ _ hblob := World.after_blob MemoryStore.not_reliable_fails h.reachable.inv.laidOut trivial
    rfl hblob

theorem addressed_after (h : SideBySide l w contents n₁ n₂ op₁ op₂) :
    (w.run l [op₂]).store.Addressed l contents := by
  have heffect := Session.act_effect (d := MemoryStore.reliable) (s := w.store) h.reachable.inv
    trivial rfl h.second.fresh
  exact (heffect.edits h.reachable.inv).addressed h.offers₂ h.addressed

/-- The second operation leaves the handles on uploads of the first repository alone. -/
theorem handles_after (h : SideBySide l w contents n₁ n₂ op₁ op₂) {i : Nat} {u : Upload}
    (hu : w.handles[i]? = some u) (hname : u.name = n₁) :
    (w.run l [op₂]).handles[i]? = some u := by
  have hself : Concerted l n₂ ⟨w.store, w.handles, []⟩ ⟨w.store, w.handles, []⟩ _ _ :=
    h.second.concerted h.reachable.inv [] (.refl h.reachable.inv.laidOut h.reachable.linksPoint)
      (fun _ _ hu _ => hu) h.addressed h.separates h.offers₂
  obtain ⟨d, t, t', hact, -, -, hd⟩ := hself
  have hhandles : d.handles w.handles = (w.run l [op₂]).handles :=
    (congrArg (fun x => x.2.handles) hact).symm.trans
      (congrArg Client.handles (w.client_after (l := l) [] op₂))
  rw [← hhandles]
  exact hd.getElem?_handles hu (hname ▸ h.differ)

/-- The first operation is of its repository still. -/
theorem repository?_after (h : SideBySide l w contents n₁ n₂ op₁ op₂) :
    op₁.repository? (w.run l [op₂]) = some n₁ := by
  have hop := h.first.repository
  cases op₁ with
  | size handle | write handle _ _ | finish handle _ | cancel handle =>
    obtain ⟨u, hu, hname⟩ := Option.map_eq_some_iff.1 hop
    exact Option.map_eq_some_iff.2 ⟨u, h.handles_after hu hname, hname⟩
  | _ => exact hop

theorem fresh_after (h : SideBySide l w contents n₁ n₂ op₁ op₂) :
    op₁.IsFresh (w.run l [op₂]) := by
  intro key hkey hdrawn
  rcases List.mem_append.1 hdrawn with hnew | hold
  · exact h.differ ((Operation.repository_of_mem_draws h.first.repository hkey).symm.trans
      (Operation.repository_of_mem_draws h.second.repository hnew))
  · exact h.first.fresh key hkey hold

/-- The first operation offers what it did before. -/
theorem offers_after (h : SideBySide l w contents n₁ n₂ op₁ op₂) :
    op₁.offers l (w.run l [op₂]) = op₁.offers l w := by
  have hop := h.first.repository
  cases op₁ with
  | finish handle expected =>
    obtain ⟨u, hu, hname⟩ := Option.map_eq_some_iff.1 hop
    have hfile := h.seen_after.own (.uploadData u.name u.id) rfl (congrArg some hname)
    simp only [Operation.offers, hu, h.handles_after hu hname, hfile]
  | _ => rfl

/-- **The first operation has the same done to it** before the second and after it. -/
theorem concerted (h : SideBySide l w contents n₁ n₂ op₁ op₂) (readers : List (BlobReader Bytes)) :
    Concerted l n₁ ⟨w.store, w.handles, readers⟩
      (Client.act l.inMemory ⟨w.store, w.handles, readers⟩ op₂).2
      (Client.act l.inMemory ⟨w.store, w.handles, readers⟩ op₁)
      ((Client.act l.inMemory ⟨w.store, w.handles, readers⟩ op₂).2.act l.inMemory op₁) := by
  rw [w.client_after readers op₂]
  exact h.first.concerted h.reachable.inv readers h.seen_after (fun _ _ => h.handles_after)
    h.addressed_after h.separates h.offers₁

/-- The first operation changes the store alike before the second and after it. -/
theorem changed (h : SideBySide l w contents n₁ n₂ op₁ op₂) :
    ChangedAlike l n₁ (w.run l [op₂]).store
      (w.run l [op₁]).store
      (w.run l [op₂, op₁]).store := by
  obtain ⟨d, t₁, t₁', hact, hact', hchanged, -⟩ := h.concerted []
  have ht₁ : t₁ = (w.run l [op₁]).store :=
    (congrArg (fun x => x.2.storage) hact).symm.trans
      (congrArg Client.storage (w.client_after (l := l) [] op₁))
  have ht₁' : t₁' = (w.run l [op₂, op₁]).store :=
    (congrArg (fun x => x.2.storage) hact').symm.trans (w.storage_both [] op₂ op₁)
  rw [w.client_after [] op₂] at hchanged
  exact ht₁ ▸ ht₁' ▸ hchanged

/-! The world after both -/

theorem reachable_both (h : SideBySide l w contents n₁ n₂ op₁ op₂) :
    Reachable l (w.run l [op₂, op₁]) :=
  h.reachable_after.inMemory op₁ h.fresh_after

theorem addressed_both (h : SideBySide l w contents n₁ n₂ op₁ op₂) :
    (w.run l [op₂, op₁]).store.Addressed l contents := by
  have heffect := Session.act_effect (d := MemoryStore.reliable)
    (s := (w.run l [op₂]).store) h.reachable_after.inv trivial rfl
    h.fresh_after
  refine (heffect.edits h.reachable_after.inv).addressed (fun content hoffered => ?_)
    h.addressed_after
  exact h.offers₁ content (h.offers_after ▸ hoffered)

/-- A file that is not the second repository's is after both operations what the first alone
makes of it. -/
theorem file?_of_owner (h : SideBySide l w contents n₁ n₂ op₁ op₂) {f : Resource}
    (hf : f.isFile = true) {m : RepositoryName} (hm : f.owner? = some m) (hne : m ≠ n₂) :
    (w.run l [op₁, op₂]).store.file? (l.path f) =
      (w.run l [op₁]).store.file? (l.path f) ∧
    (w.run l [op₂, op₁]).store.file? (l.path f) =
      (w.run l [op₁]).store.file? (l.path f) := by
  refine ⟨World.after_owner h.symm.reachable_after h.symm.repository?_after hf hm hne, ?_⟩
  by_cases hown : m = n₁
  · exact h.changed.own f hf (hown ▸ hm)
  · calc (w.run l [op₂, op₁]).store.file? (l.path f)
        = (w.run l [op₂]).store.file? (l.path f) :=
          World.after_owner h.reachable_after h.repository?_after hf hm hown
      _ = w.store.file? (l.path f) :=
          World.after_owner h.reachable h.second.repository hf hm hne
      _ = (w.run l [op₁]).store.file? (l.path f) :=
          (World.after_owner h.reachable h.first.repository hf hm hown).symm

/-- A blob that is there after both operations is there whichever came first, and its content
is the one that its digest names. -/
theorem file?_blob (h : SideBySide l w contents n₁ n₂ op₁ op₂) (digest : Digest) {content : Bytes}
    (hblob : (w.run l [op₁, op₂]).store.file?
        (l.path (.blobData digest)) = some content) :
    (w.run l [op₂, op₁]).store.file?
        (l.path (.blobData digest)) = some content := by
  obtain ⟨content', hblob'⟩ :=
    (h.changed.stored digest).2 ((h.symm.changed.stored digest).1 ⟨content, hblob⟩).symm
  obtain ⟨hnames, hamong⟩ := h.symm.addressed_both digest content hblob
  obtain ⟨hnames', hamong'⟩ := h.addressed_both digest content' hblob'
  rw [hblob', h.separates digest.algorithm content' content hamong' hamong
    (hnames'.trans hnames.symm)]

/-- **The same files are stored in the end**, whichever operation came first. -/
theorem file?_eq (h : SideBySide l w contents n₁ n₂ op₁ op₂) {f : Resource} (hf : f.isFile = true) :
    (w.run l [op₁, op₂]).store.file? (l.path f) =
      (w.run l [op₂, op₁]).store.file? (l.path f) := by
  cases hm : f.owner? with
  | some m =>
    by_cases hsecond : m = n₂
    · obtain ⟨h₂₁, h₁₂⟩ := h.symm.file?_of_owner hf hm (hsecond ▸ h.differ.symm)
      exact h₁₂.trans h₂₁.symm
    · obtain ⟨h₁₂, h₂₁⟩ := h.file?_of_owner hf hm hsecond
      exact h₁₂.trans h₂₁.symm
  | none =>
    obtain ⟨digest, rfl⟩ : ∃ digest, f = .blobData digest := by
      cases f <;> simp_all [Resource.isFile, Resource.owner?]
    exact Option.ext fun content => ⟨h.file?_blob digest, h.symm.file?_blob digest⟩

end SideBySide

/-- Two operations may be done in either order. -/
structure Client.Commutes (l : Layout) (c : Client MemoryStore Bytes) (op₁ op₂ : Operation) :
    Prop where
  /-- The first is answered the same when it comes second. -/
  first : ((c.act l.inMemory op₂).2.act l.inMemory op₁).1 = (c.act l.inMemory op₁).1
  second : ((c.act l.inMemory op₁).2.act l.inMemory op₂).1 = (c.act l.inMemory op₂).1
  /-- The same files are stored in the end. -/
  files : ∀ place : List Component,
    ((c.act l.inMemory op₁).2.act l.inMemory op₂).2.storage.files[place]? =
      ((c.act l.inMemory op₂).2.act l.inMemory op₁).2.storage.files[place]?
  /-- The handles that there were are left the same. -/
  handles : ((c.act l.inMemory op₁).2.act l.inMemory op₂).2.handles.take c.handles.length =
    ((c.act l.inMemory op₂).2.act l.inMemory op₁).2.handles.take c.handles.length
  /-- New handles and readers are the same, in the order in which they were opened. -/
  started : ((c.act l.inMemory op₁).2.act l.inMemory op₂).2.handles.Perm
    ((c.act l.inMemory op₂).2.act l.inMemory op₁).2.handles
  opened : ((c.act l.inMemory op₁).2.act l.inMemory op₂).2.readers.Perm
    ((c.act l.inMemory op₂).2.act l.inMemory op₁).2.readers

/-- The contents that are stored as blobs, or offered for storing by one of two operations. -/
def World.AtStake (l : Layout) (w : World) (op₁ op₂ : Operation) (content : Bytes) : Prop :=
  (∃ digest, w.store.file? (l.path (.blobData digest)) = some content) ∨
    content ∈ op₁.offers l w ∨ content ∈ op₂.offers l w

namespace Reachable

variable {l : Layout} {w : World} {n₁ n₂ : RepositoryName} {op₁ op₂ : Operation}

/-- **Work in different repositories commutes**, in every reachable world, also where one
repository lies in the directory of the other and both store the same blob. -/
theorem commutes (h : Reachable l w) (hne : n₁ ≠ n₂) (h₁ : op₁.IssuedIn l w n₁)
    (h₂ : op₂.IssuedIn l w n₂) (hseparates : Digest.Separates (w.AtStake l op₁ op₂))
    (readers : List (BlobReader Bytes)) :
    Client.Commutes l ⟨w.store, w.handles, readers⟩ op₁ op₂ := by
  have hside : SideBySide l w (w.AtStake l op₁ op₂) n₁ n₂ op₁ op₂ :=
    ⟨h, h₁, h₂, hne, fun digest content hblob =>
      ⟨(h.inv.addressed digest content hblob).1, Or.inl ⟨digest, hblob⟩⟩, hseparates,
      fun _ hoffered => Or.inr (Or.inl hoffered), fun _ hoffered => Or.inr (Or.inr hoffered)⟩
  obtain ⟨d₁, t₁, t₁', hact₁, hact₁', -, hd₁⟩ := hside.concerted readers
  obtain ⟨d₂, t₂, t₂', hact₂, hact₂', -, hd₂⟩ := hside.symm.concerted readers
  obtain ⟨hhandles, hperm⟩ := Client.Deed.handles_comm hd₁ hd₂ hne
  have hfirst : (Client.act l.inMemory ⟨w.store, w.handles, readers⟩ op₁).2 =
    (d₁.on ⟨w.store, w.handles, readers⟩ t₁).2 := congrArg Prod.snd hact₁
  have hsecond : (Client.act l.inMemory ⟨w.store, w.handles, readers⟩ op₂).2 =
    (d₂.on ⟨w.store, w.handles, readers⟩ t₂).2 := congrArg Prod.snd hact₂
  constructor
  case first => rw [hact₁', hact₁]; rfl
  case second => rw [hact₂', hact₂]; rfl
  case files =>
    intro place
    rw [w.storage_both readers op₁ op₂, w.storage_both readers op₂ op₁]
    refine Classical.byContradiction fun hdiffers => hdiffers ?_
    obtain ⟨f, hf, rfl⟩ := hside.reachable_both.inv.laidOut.exists_of_ne
      hside.symm.reachable_both.inv.laidOut hdiffers
    exact hside.file?_eq hf
  case handles =>
    rw [hact₁', hact₂', hfirst, hsecond]
    exact hhandles
  case started =>
    rw [hact₁', hact₂', hfirst, hsecond]
    exact hperm
  case opened =>
    rw [hact₁', hact₂', hfirst, hsecond]
    exact Client.Deed.readers_comm d₁ d₂ readers

/-- A repository and one in its directory finish uploads of the same byte. -/
theorem commutes_nested : ∃ (w : World) (n₁ n₂ : RepositoryName) (op₁ op₂ : Operation),
    Reachable default w ∧ n₁ ≠ n₂ ∧ op₁.IssuedIn default w n₁ ∧ op₂.IssuedIn default w n₂ ∧
      Digest.Separates (w.AtStake default op₁ op₂) ∧
      Client.Commutes default ⟨w.store, w.handles, []⟩ op₁ op₂ := by
  obtain ⟨n₁, hn₁⟩ : ∃ n : RepositoryName, n = ⟨"aa/bb", by decide⟩ := ⟨_, rfl⟩
  obtain ⟨n₂, hn₂⟩ : ∃ n : RepositoryName, n = ⟨"aa/bb/cc", by decide⟩ := ⟨_, rfl⟩
  obtain ⟨id, -⟩ : ∃ id : UploadId, id = id := ⟨default, rfl⟩
  have hne : n₁ ≠ n₂ := by
    rw [hn₁, hn₂]
    decide
  obtain ⟨w₁, u₁, -, hw₁, hhandles₁, hname₁, hid₁, -, -, hdrawn₁, hfile₁, hkept₁⟩ :=
    Reachable.run_uploading (l := default) .empty n₁ id (by simp [World.empty]) [1]
  obtain ⟨w₂, u₂, hrun, hw₂, hhandles₂, hname₂, hid₂, -, -, -, hfile₂, hkept₂⟩ :=
    hw₁.run_uploading n₂ id (by simp [hdrawn₁, World.empty, hne.symm]) [1]
  have hget₁ : w₂.handles[0]? = some u₁ := by rw [hhandles₂, hhandles₁]; rfl
  have hget₂ : w₂.handles[1]? = some u₂ := by rw [hhandles₂, hhandles₁]; rfl
  -- the second upload is none of the first repository's business
  have hkept : w₂.store.file? (Layout.path default (.uploadData n₁ id)) = some [1] := by
    have hstart := hw₁.inMemory (.start n₂ id ⟨0, 0, 0⟩) fun key hkey => by
      rw [List.mem_singleton.1 hkey]
      simp [hdrawn₁, World.empty, hne.symm]
    have hwrite : (Operation.write w₁.handles.length 0 (.ofBytes [1])).repository?
        (w₁.run default [.start n₂ id ⟨0, 0, 0⟩]) = some n₂ := by
      show ((w₁.handles ++ [Upload.opened id n₂ ⟨0, 0, 0⟩])[w₁.handles.length]?).map Upload.name = _
      rw [List.getElem?_concat_length]
      rfl
    rw [hrun, ← hfile₁]
    have hstarted : (Operation.start n₂ id ⟨0, 0, 0⟩).repository? w₁ = some n₂ := rfl
    exact (World.after_owner hstart hwrite rfl rfl hne).trans
      (World.after_owner hw₁ hstarted rfl rfl hne)
  have hfirst : (Operation.finish 0 (Digest.sha256 [1])).IssuedIn default w₂ n₁ := by
    refine ⟨by rw [Operation.repository?, hget₁, Option.map_some, hname₁],
      fun _ hkey => absurd hkey List.not_mem_nil, fun u hu => ?_⟩
    obtain rfl : u₁ = u := Option.some.inj (hget₁.symm.trans hu)
    exact ⟨[1], by rw [hname₁, hid₁, hkept]⟩
  have hsecond : (Operation.finish 1 (Digest.sha256 [1])).IssuedIn default w₂ n₂ := by
    refine ⟨by rw [Operation.repository?, hget₂, Option.map_some, hname₂],
      fun _ hkey => absurd hkey List.not_mem_nil, fun u hu => ?_⟩
    obtain rfl : u₂ = u := Option.some.inj (hget₂.symm.trans hu)
    exact ⟨[1], by rw [hname₂, hid₂, hfile₂]⟩
  have hstake : ∀ content, w₂.AtStake default (.finish 0 (Digest.sha256 [1]))
      (.finish 1 (Digest.sha256 [1])) content → content = [1] := by
    rintro content (⟨digest, hblob⟩ | hoffered | hoffered)
    · rw [hkept₂ _ rfl rfl, hkept₁ _ rfl rfl] at hblob
      exact absurd hblob (MemoryStore.file?_empty_ne _ _)
    · simpa [Operation.offers, hget₁, hname₁, hid₁, hkept] using hoffered
    · simpa [Operation.offers, hget₂, hname₂, hid₂, hfile₂] using hoffered
  have hseparates : Digest.Separates (w₂.AtStake default (.finish 0 (Digest.sha256 [1]))
      (.finish 1 (Digest.sha256 [1]))) :=
    fun _ content content' h h' _ => (hstake content h).trans (hstake content' h').symm
  exact ⟨w₂, n₁, n₂, _, _, hw₂, hne, hfirst, hsecond, hseparates,
    hw₂.commutes hne hfirst hsecond hseparates []⟩

end Reachable
end ContainerRegistry
