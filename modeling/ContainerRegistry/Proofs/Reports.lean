/-
# How a registry says that something is missing

A registry asks its storage for many things that need not be there, and each time says what
it makes of that nothing was found: no, an empty list, or that the blob, layer, manifest or
upload it was asked for is unknown. Some of these failures get another name on the way up.
`Reports` says which failures of this sort an action may end in; it goes through an action
from one storage call to the next, and what only asks is shown to keep to its reports on
every driver. Putting content, writing and moving are the calls whose failures are passed
on as they are. In memory the first two find nothing missing, and the upload that is moved
is there, since its size was taken just before.

Key definitions: `RegistryError.saysMissing`, `Reports`, `FindsFault`, `Upload.Stays`,
`Operation.unknowns`, `Operation.readerFailure?`.
Key theorems: `Reports.bind`, `Repository.reports_layerStat`, `Repository.reports_manifest`,
`Registry.reports_catalog`, `Upload.reports_settle`, `Upload.reports_finish`,
`Client.reports_act`.
-/
import ContainerRegistry.Proofs.Client
import ContainerRegistry.Proofs.Coherence
import ContainerRegistry.Proofs.Lookup
import ContainerRegistry.Proofs.Outcome
import ContainerRegistry.Proofs.Publish

namespace ContainerRegistry

open ContainerRegistry.Action

/-- A failure says that something is not there, as the registry's answer or as a failure of
storage. -/
def RegistryError.saysMissing : RegistryError → Bool
  | storage cause => cause.isNotFound
  | e => e.isUnknown

/-- From a state, an action says that something is missing only in these ways. -/
def Reports {σ α : Type} (missing : List RegistryError) (action : Action σ RegistryError α)
    (s : σ) : Prop :=
  ∀ e, (action.outcome s).1 = .error e → e.saysMissing = true → e ∈ missing

namespace Reports

variable {σ τ α β : Type} {missing missing' : List RegistryError} {s : σ}

theorem of_outcome {action : Action σ RegistryError α} {a : α} {s' : σ}
    (h : action.outcome s = (.ok a, s')) : Reports missing action s := by
  intro e he
  rw [h] at he
  cases he

theorem pure (a : α) : Reports missing (Pure.pure a : Action σ RegistryError α) s :=
  of_outcome rfl

theorem throw {e : RegistryError} (h : e.saysMissing = true → e ∈ missing) :
    Reports missing (MonadExcept.throw e : Action σ RegistryError α) s := by
  intro e' he
  obtain rfl : e = e' := Except.error.inj he
  exact h

theorem ofExcept {x : Except RegistryError α}
    (h : ∀ e, x = .error e → e.saysMissing = true → e ∈ missing) :
    Reports missing (MonadExcept.ofExcept x : Action σ RegistryError α) s := by
  intro e he
  rw [outcome_ofExcept] at he
  exact h e he

theorem mono {action : Action σ RegistryError α} (h : Reports missing action s)
    (hsub : ∀ e ∈ missing, e ∈ missing') : Reports missing' action s :=
  fun e he hmiss => hsub e (h e he hmiss)

/-- Of two actions the second starts where the first has led to. -/
theorem bind {action : Action σ RegistryError α} {next : α → Action σ RegistryError β}
    (h : Reports missing action s)
    (hnext : ∀ a s', action.outcome s = (.ok a, s') → Reports missing (next a) s') :
    Reports missing (action >>= next) s := by
  intro e he
  rw [outcome_bind] at he
  rcases ho : action.outcome s with ⟨cause | a, s'⟩
  · rw [ho] at he
    obtain rfl : cause = e := Except.error.inj he
    exact h cause (congrArg Prod.fst ho)
  · rw [ho] at he
    exact hnext a s' ho e he

theorem mapError {action : Action σ RegistryError α} {f : RegistryError → RegistryError}
    (h : Reports missing action s)
    (hf : ∀ e, (e.saysMissing = true → e ∈ missing) → (f e).saysMissing = true → f e ∈ missing') :
    Reports missing' (action.mapError f) s := by
  intro e he
  rw [outcome_mapError] at he
  cases ho : (action.outcome s).1 with
  | ok a =>
    rw [ho] at he
    cases he
  | error cause =>
    rw [ho] at he
    obtain rfl : f cause = e := Except.error.inj he
    exact hf cause (h cause ho)

/-- What follows an attempt knows how the attempt went. -/
theorem bind_attempt {ε : Type} {action : Action σ ε α}
    {next : Except ε α → Action σ RegistryError β}
    (hok : ∀ a s', action.outcome s = (.ok a, s') → Reports missing (next (.ok a)) s')
    (herror : ∀ e s', action.outcome s = (.error e, s') → Reports missing (next (.error e)) s') :
    Reports missing (action.attempt >>= next) s := by
  refine bind (of_outcome (outcome_attempt action s)) fun x s' ho => ?_
  rw [outcome_attempt] at ho
  obtain ⟨hx, hs'⟩ := Prod.mk.inj ho
  obtain rfl := Except.ok.inj hx
  cases ha : (action.outcome s).1 with
  | ok a => exact hok a s' (Prod.ext ha hs')
  | error e => exact herror e s' (Prod.ext ha hs')

/-- What is unknown is answered with no. -/
theorem no_of_unknown {action : Action σ RegistryError α} (h : Reports missing action s)
    (hmissing : ∀ e ∈ missing, e.isUnknown = true) {e : RegistryError} {s' : σ}
    (he : action.outcome s = (.error e, s')) :
    Reports [] (if e.isUnknown then Pure.pure false else MonadExcept.throw e :
      Action σ RegistryError Bool) s' := by
  by_cases hunknown : e.isUnknown = true
  · rw [if_pos hunknown]
    exact pure false
  · rw [if_neg hunknown]
    exact throw fun hmiss => absurd (hmissing e (h e (congrArg Prod.fst he) hmiss)) hunknown

/-! ### Storage calls -/

/-- What was not found is reported as what is unknown, by whichever driver. -/
theorem orUnknown {unknown : RegistryError} (h : unknown ∈ missing)
    (call : Action σ StorageError α) :
    Reports missing (ContainerRegistry.orUnknown unknown call) s := by
  intro e he hmiss
  rw [ContainerRegistry.orUnknown, outcome_mapError] at he
  cases ho : (call.outcome s).1 with
  | ok a =>
    rw [ho] at he
    cases he
  | error cause =>
    rw [ho] at he
    have he : (if cause.isNotFound then unknown else .storage cause) = e := Except.error.inj he
    by_cases hcause : cause.isNotFound = true
    · rw [if_pos hcause] at he
      rwa [← he]
    · rw [if_neg hcause] at he
      rw [← he] at hmiss
      exact absurd hmiss hcause

/-- That nothing was found is no failure, by whichever driver. -/
theorem found (call : Action σ StorageError α) :
    Reports missing (ContainerRegistry.found call) s := by
  intro e he hmiss
  rw [outcome_found] at he
  rcases ho : call.outcome s with ⟨cause | a, s'⟩
  · rw [ho] at he
    have he : (if cause.isNotFound then .ok none else .error (.storage cause) :
      Except RegistryError (Option α)) = .error e := he
    by_cases hcause : cause.isNotFound = true
    · rw [if_pos hcause] at he
      cases he
    · rw [if_neg hcause] at he
      rw [← Except.error.inj he] at hmiss
      exact absurd hmiss hcause
  · rw [ho] at he
    cases he

/-- A call whose failures are passed on says that something is missing if the driver does. -/
theorem stored {call : Action σ StorageError α}
    (h : ∀ cause, (call.outcome s).1 = .error cause → cause.isNotFound = true →
      .storage cause ∈ missing) : Reports missing (ContainerRegistry.stored call) s := by
  intro e he hmiss
  rw [ContainerRegistry.stored, outcome_mapError] at he
  cases ho : (call.outcome s).1 with
  | ok a =>
    rw [ho] at he
    cases he
  | error cause =>
    rw [ho] at he
    obtain rfl : .storage cause = e := Except.error.inj he
    exact h cause ho hmiss

end Reports

/-! ### What is made of the bytes of a file -/

/-- Whatever is wrong with what was read, nothing is missing. -/
def FindsFault {α : Type} (x : Except RegistryError α) : Prop :=
  ∀ e, x = .error e → e.saysMissing = false

namespace FindsFault

variable {α β : Type}

theorem ok (a : α) : FindsFault (.ok a : Except RegistryError α) := by
  intro e he
  cases he

theorem error {e : RegistryError} (h : e.saysMissing = false) :
    FindsFault (.error e : Except RegistryError α) := by
  intro e' he
  rwa [← Except.error.inj he]

theorem bind {x : Except RegistryError α} {f : α → Except RegistryError β} (hx : FindsFault x)
    (hf : ∀ a, FindsFault (f a)) : FindsFault (x >>= f) := by
  cases x with
  | ok a => exact hf a
  | error e => exact error (hx e rfl)

theorem reports {σ : Type} {x : Except RegistryError α} (h : FindsFault x)
    {missing : List RegistryError} {s : σ} :
    Reports missing (MonadExcept.ofExcept x : Action σ RegistryError α) s :=
  .ofExcept fun e he hmiss => by simp [h e he] at hmiss

end FindsFault

theorem findsFault_digestOfLink (p : Path) (content : Bytes) :
    FindsFault (digestOfLink p content) := by
  rw [digestOfLink]
  split
  · exact .error rfl
  · split
    · exact .ok _
    · exact .error rfl

theorem findsFault_pathOfLink (p : Path) (content : Bytes) : FindsFault (pathOfLink p content) := by
  rw [pathOfLink]
  split
  · exact .error rfl
  · split
    · exact .error rfl
    · exact .ok _

theorem Upload.findsFault_startOfContent (p : Path) (content : Bytes) :
    FindsFault (startOfContent p content) := by
  rw [startOfContent]
  split
  · exact .error rfl
  · split
    · exact .ok _
    · exact .error rfl

theorem Repository.findsFault_tagOf (text : String) : FindsFault (tagOf text) := by
  rw [tagOf]
  split
  · exact .ok _
  · exact .error rfl

namespace SignedManifest

theorem findsFault_checkVersion (document : Bytes) : FindsFault (checkVersion document) := by
  rw [checkVersion]
  split
  · exact .error rfl
  · exact .error rfl
  · split
    · exact .ok _
    · exact .error rfl

theorem findsFault_payloadOf (document : Bytes) (index : Nat) (signature : Signature) :
    FindsFault (payloadOf document index signature) := by
  rw [payloadOf]
  split
  · exact .ok _
  · exact .error rfl

theorem findsFault_agree (document payload : Bytes) : ∀ (signatures : List Signature) (index : Nat),
    FindsFault (agree document payload index signatures)
  | [], _ => .ok _
  | signature :: rest, index => by
    rw [agree]
    split
    · rename_i e he
      exact .error (findsFault_payloadOf document index signature e he)
    · split
      · exact findsFault_agree document payload rest (index + 1)
      · exact .error rfl

theorem findsFault_signedText (document : Bytes) (signatures : List Signature) :
    FindsFault (signedText document signatures) := by
  cases signatures with
  | nil => exact .error rfl
  | cons signature rest =>
    rw [signedText]
    split
    · rename_i e he
      exact .error (findsFault_payloadOf document 0 signature e he)
    · rename_i payload _
      split
      · rename_i e he
        exact .error (findsFault_agree document payload rest 1 e he)
      · exact .ok _

theorem findsFault_checkPayload (m : Manifest) (payload : Bytes) :
    FindsFault (checkPayload m payload) := by
  rw [checkPayload]
  split
  · exact .error rfl
  · split
    · exact .ok _
    · exact .error rfl

theorem saysMissing_bodyFault? {m : Manifest} {e : RegistryError} (h : bodyFault? m = some e) :
    e.saysMissing = false := by
  rw [bodyFault?] at h
  split at h
  · cases h
    rfl
  · split at h
    · cases h
      rfl
    · cases h

/-- **A document that is refused is invalid**, and nothing is missing. -/
theorem findsFault_parse (document : Bytes) : FindsFault (parse document) := by
  refine .bind (findsFault_checkVersion document) fun _ => ?_
  split
  · exact .error rfl
  · rename_i manifest signatures _
    have hsigned := FindsFault.bind (findsFault_signedText document signatures) fun payload =>
      .bind (findsFault_checkPayload manifest payload) fun _ =>
        .ok (SignedManifest.mk manifest signatures payload document)
    cases hbody : bodyFault? manifest with
    | some e => exact .error (saysMissing_bodyFault? hbody)
    | none => exact hsigned

end SignedManifest

/-! ### What only asks, on any driver -/

section Asking

variable {σ ρ : Type} {r : Registry σ ρ} {s : σ} {missing : List RegistryError}

namespace Registry

theorem reports_blobExists (digest : Digest) : Reports missing (r.blobExists digest) s := by
  refine .bind (.found _) fun metadata s' _ => ?_
  cases metadata <;> exact .pure _

theorem reports_blobStatAt (digest : Digest) (p : Path) :
    Reports [.blobUnknown digest] (r.blobStatAt digest p) s := by
  refine .bind (.orUnknown (List.mem_singleton_self _) _) fun metadata s' _ => ?_
  by_cases hdirectory : metadata.isDirectory = true
  · rw [if_pos hdirectory]
    exact .throw fun _ => List.mem_singleton_self _
  · rw [if_neg hdirectory]
    exact .pure _

theorem reports_blobOpenAt (digest : Digest) (p : Path) (offset : Nat) :
    Reports [.blobUnknown digest] (r.blobOpenAt digest p offset) s := by
  refine .bind (reports_blobStatAt digest p) fun descriptor s' _ => ?_
  by_cases hbeyond : descriptor.size < offset
  · rw [if_pos hbeyond]
    exact .throw fun hmiss => by cases hmiss
  · rw [if_neg hbeyond]
    exact .bind (.orUnknown (List.mem_singleton_self _) _) fun _ _ _ => .pure _

theorem reports_readLink (p : Path) : Reports missing (r.readLink p) s := by
  refine .bind (.found _) fun content s' _ => ?_
  cases content with
  | none => exact .pure _
  | some content =>
    exact .bind (findsFault_digestOfLink p content).reports fun _ _ _ => .pure _

theorem reports_anyFilled : ∀ (markers : List Path) (s : σ),
    Reports missing (r.anyFilled markers) s
  | [], s => .pure _
  | marker :: rest, s => by
    refine .bind (.found _) fun entries s' _ => ?_
    rcases entries with _ | _ | _
    · exact reports_anyFilled rest s'
    · exact reports_anyFilled rest s'
    · exact .pure _

/-- Walking is asking for one directory after the other. -/
theorem reports_walk (fuel : Nat) : ∀ (pending : List Path) (names : List RepositoryName) (s : σ),
    Reports missing (r.walk fuel pending names) s := by
  induction fuel with
  | zero => exact fun _ _ _ => .pure _
  | succ fuel ih =>
    intro pending names s
    cases pending with
    | nil => exact .pure _
    | cons dir pending =>
      refine .bind (.found _) fun children s' _ => ?_
      cases children with
      | none => exact ih pending names s'
      | some children => exact .bind (reports_anyFilled _ s') fun _ s'' _ => ih _ _ s''

theorem reports_catalog : Reports missing r.catalog s :=
  .bind (.of_outcome (outcome_get s)) fun _ _ _ =>
    .bind (reports_walk _ _ _ _) fun _ _ _ => .pure _

end Registry

namespace Repository

variable {n : RepositoryName}

theorem reports_resolveLayer (digest : Digest) :
    Reports [.layerUnknown n digest] (resolveLayer ⟨r, n⟩ digest) s :=
  .bind (.orUnknown (List.mem_singleton_self _) _) fun content _ _ =>
    (findsFault_pathOfLink _ content).reports

/-- A blob that is missing behind the link of a layer is the layer missing. -/
theorem reports_asLayer {α : Type} {action : RegistryAction σ α} {digest : Digest}
    (h : Reports [.blobUnknown digest] action s) :
    Reports [.layerUnknown n digest] (action.mapError (asLayer ⟨r, n⟩ digest)) s := by
  refine h.mapError fun e he hmiss => ?_
  cases e with
  | blobUnknown other => exact List.mem_singleton_self _
  | _ => simpa using he hmiss

theorem reports_layerStat (digest : Digest) :
    Reports [.layerUnknown n digest] (layerStat ⟨r, n⟩ digest) s :=
  .bind (reports_resolveLayer digest) fun target _ _ =>
    reports_asLayer (Registry.reports_blobStatAt digest target)

theorem reports_layerOpen (digest : Digest) (offset : Nat) :
    Reports [.layerUnknown n digest] (layerOpen ⟨r, n⟩ digest offset) s :=
  .bind (reports_resolveLayer digest) fun target _ _ =>
    reports_asLayer (Registry.reports_blobOpenAt digest target offset)

theorem reports_layerExists (digest : Digest) :
    Reports [] (layerExists ⟨r, n⟩ digest) s := by
  have hmissing : ∀ e ∈ [RegistryError.layerUnknown n digest], e.isUnknown = true := by
    intro e he
    rw [List.mem_singleton.1 he]
    rfl
  exact .bind_attempt (fun _ _ _ => .pure true) fun e s' he =>
    .no_of_unknown (reports_layerStat digest) hmissing he

theorem text_of_tagOf {text : String} {tag : Tag} (h : tagOf text = .ok tag) : tag.text = text := by
  rw [tagOf] at h
  split at h
  · rename_i hparse
    cases h
    exact Tag.text_of_parse hparse
  · cases h

/-- What is done with the tag that a text is. -/
theorem reports_bind_tagOf {β : Type} {text : String} {next : Tag → RegistryAction σ β}
    (h : ∀ tag : Tag, tag.text = text → Reports missing (next tag) s) :
    Reports missing (MonadExcept.ofExcept (tagOf text) >>= next) s := by
  refine .bind (findsFault_tagOf text).reports fun tag s' htag => ?_
  rw [outcome_ofExcept] at htag
  have hs : s = s' := congrArg Prod.snd htag
  rw [← hs]
  exact h tag (text_of_tagOf (congrArg Prod.fst htag))

theorem reports_resolveTag (text : String) :
    Reports [.manifestUnknown n text] (resolveTag ⟨r, n⟩ text) s := by
  refine reports_bind_tagOf fun tag htag => ?_
  refine .bind (Registry.reports_readLink _) fun digest s' _ => ?_
  cases digest with
  | some digest => exact .pure _
  | none =>
    refine .throw fun _ => ?_
    rw [unknownManifest, htag]
    exact List.mem_singleton_self _

theorem reports_manifestByDigest (digest : Digest) :
    Reports [.manifestUnknown n digest.toText] (manifestByDigest ⟨r, n⟩ digest) s := by
  refine .bind (Registry.reports_readLink _) fun target s' _ => ?_
  cases target with
  | none => exact .throw fun _ => List.mem_singleton_self _
  | some target =>
    have hcontent : Reports [.blobUnknown target] (r.blobContent target) s' :=
      .orUnknown (List.mem_singleton_self _) _
    refine .bind (hcontent.mapError fun e he hmiss => ?_) fun content _ _ =>
      (SignedManifest.findsFault_parse content).reports
    cases e with
    | blobUnknown other => exact List.mem_singleton_self _
    | _ => simpa using he hmiss

/-- Whichever way a manifest is missing, it is so under the tag that was asked for. -/
theorem reports_manifest (text : String) :
    Reports [.manifestUnknown n text] (manifest ⟨r, n⟩ text) s := by
  refine .bind (reports_resolveTag text) fun digest _ _ =>
    (reports_manifestByDigest digest).mapError fun e he hmiss => ?_
  cases e with
  | manifestUnknown other reference => exact List.mem_singleton_self _
  | _ => simpa using he hmiss

theorem reports_manifestExists (text : String) :
    Reports [] (manifestExists ⟨r, n⟩ text) s := by
  have hmissing : ∀ e ∈ [RegistryError.manifestUnknown n text], e.isUnknown = true := by
    intro e he
    rw [List.mem_singleton.1 he]
    rfl
  refine .bind_attempt (fun digest _ _ => ?_) fun e s' he =>
    .no_of_unknown (reports_resolveTag text) hmissing he
  refine .bind (Registry.reports_readLink _) fun target _ _ => ?_
  cases target with
  | none => exact .pure _
  | some _ => exact Registry.reports_blobExists digest

theorem reports_tags : Reports missing (tags ⟨r, n⟩) s :=
  .bind (.found _) fun _ _ _ => .pure _

theorem reports_requireLayers : ∀ (layers : List Digest) (s : σ),
    Reports (layers.map (.layerUnknown n)) (requireLayers ⟨r, n⟩ layers) s
  | [], s => .pure _
  | layer :: rest, s => by
    refine .bind ((reports_layerStat layer).mono fun e he => ?_) fun _ s' _ =>
      (reports_requireLayers rest s').mono fun e he => List.mem_cons_of_mem _ he
    rw [List.mem_singleton.1 he]
    exact List.mem_cons_self

end Repository

/-! ### Handles -/

namespace Upload

variable {u : Upload} {n : RepositoryName} {α β : Type}

theorem reports_resume (id : UploadId) : Reports [.uploadUnknown id] (resume ⟨r, n⟩ id) s :=
  .bind (.orUnknown (List.mem_singleton_self _) _) fun content _ _ =>
    .bind (findsFault_startOfContent _ content).reports fun _ _ _ => .pure _

theorem reports_remove (id : UploadId) : Reports missing (remove r n id) s :=
  .bind_attempt (fun _ _ _ => .pure _) fun _ _ _ => .pure _

theorem reports_onStorage {action : RegistryAction σ α} (h : Reports missing action s) :
    Reports missing (onStorage action) (u, s) := by
  intro e he
  rw [onStorage, outcome_zoom] at he
  exact h e he

theorem reports_bind_handle {next : Upload → UploadAction σ β}
    (h : Reports missing (next u) (u, s)) : Reports missing (handle >>= next) (u, s) :=
  .bind (.of_outcome outcome_handle) fun v p ho => by
    obtain ⟨hv, rfl⟩ := Prod.mk.inj ho
    obtain rfl := Except.ok.inj hv
    exact h

theorem reports_bind_change {f : Upload → Upload} {next : Unit → UploadAction σ β}
    (h : Reports missing (next ()) (f u, s)) : Reports missing (change f >>= next) (u, s) :=
  .bind (.of_outcome (outcome_change f)) fun _ p ho => by
    obtain ⟨-, rfl⟩ := Prod.mk.inj ho
    exact h

theorem reports_ensureOpen : Reports missing (ensureOpen : UploadAction σ Unit) (u, s) := by
  refine reports_bind_handle ?_
  by_cases hstate : u.state = .writing
  · rw [if_pos hstate]
    exact .pure _
  · rw [if_neg hstate]
    exact .throw fun hmiss => by cases hmiss

/-- What is done after the state was checked is done with the same handle and storage. -/
theorem reports_bind_ensureOpen {next : Unit → UploadAction σ β}
    (h : u.state = .writing → Reports missing (next ()) (u, s)) :
    Reports missing (ensureOpen >>= next) (u, s) := by
  refine .bind reports_ensureOpen fun _ p ho => ?_
  by_cases hstate : u.state = .writing
  · rw [outcome_ensureOpen_writing hstate] at ho
    obtain ⟨-, rfl⟩ := Prod.mk.inj ho
    exact h hstate
  · rw [outcome_ensureOpen_closed hstate] at ho
    cases ho

theorem reports_size : Reports [.uploadUnknown u.id] (size r) (u, s) :=
  reports_bind_ensureOpen fun _ => reports_bind_handle
    (.bind (reports_onStorage (.orUnknown (List.mem_singleton_self _) _)) fun _ _ _ => .pure _)

theorem reports_catchUp (size : Nat) : Reports [.uploadUnknown u.id] (catchUp r size) (u, s) := by
  refine reports_bind_change (reports_bind_handle ?_)
  rw [(same_shrink size u).1.id]
  split
  · exact .pure _
  · refine .bind (reports_onStorage (.orUnknown (List.mem_singleton_self _) _)) fun stream p _ => ?_
    refine .bind (.of_outcome (outcome_get p)) fun q p' _ => ?_
    obtain ⟨v, t⟩ := p'
    refine reports_bind_change ?_
    split
    · exact .pure _
    · exact .throw fun hmiss => by cases hmiss

theorem reports_actualDigest (algorithm : Algorithm) :
    Reports [.uploadUnknown u.id] (actualDigest r algorithm) (u, s) := by
  refine reports_bind_handle ?_
  split
  · exact .pure _
  · refine reports_bind_handle (.bind (reports_onStorage
      (.orUnknown (List.mem_singleton_self _) _)) fun stream p _ => ?_)
    refine .bind (.of_outcome (outcome_get p)) fun q p' _ => ?_
    simp only
    split
    · exact .pure _
    · exact .throw fun hmiss => by cases hmiss

theorem reports_isMoved (expected : Digest) :
    Reports missing (isMoved r expected) (u, s) := by
  refine reports_bind_handle (.bind (reports_onStorage (.found _)) fun metadata p _ => ?_)
  obtain ⟨v, t⟩ := p
  cases metadata with
  | some _ => exact .pure _
  | none => exact reports_onStorage (Registry.reports_blobExists expected)

theorem reports_cancel : Reports missing (cancel r) (u, s) := by
  refine reports_bind_handle ?_
  split
  · exact .pure _
  · exact .throw fun hmiss => by cases hmiss
  · exact .bind (reports_onStorage (reports_remove _)) fun _ _ _ => .of_outcome rfl

end Upload

end Asking

/-! ### What is done in memory -/

variable {l : Layout} {t : MemoryStore} {n : RepositoryName} {missing : List RegistryError}

theorem MemoryStore.reports_putContent (p : Path) (bytes : Bytes) :
    Reports missing (stored (l.inMemory.storage.putContent p bytes)) t :=
  .of_outcome (a := ()) rfl

namespace Repository

theorem reports_mount (digest : Digest) :
    Reports [.blobUnknown digest] (mount ⟨l.inMemory, n⟩ digest) t :=
  .bind (Registry.reports_blobStatAt digest _) fun _ _ _ =>
    .bind (MemoryStore.reports_putContent _ _) fun _ _ _ => .pure _

/-- Of all that a manifest needs only its layers can be missing. -/
theorem reports_putManifest (text : String) (m : SignedManifest) :
    Reports (m.manifest.layers.map (.layerUnknown n)) (putManifest ⟨l.inMemory, n⟩ text m) t := by
  refine reports_bind_tagOf fun tag _ => ?_
  cases hidentity : identityFault? ⟨l.inMemory, n⟩ tag m.manifest with
  | some e =>
    refine .throw fun hmiss => ?_
    rw [identityFault?] at hidentity
    split at hidentity
    · cases hidentity
      cases hmiss
    · split at hidentity
      · cases hidentity
        cases hmiss
      · cases hidentity
  | none =>
    refine .bind (reports_requireLayers _ t) fun _ t' _ => ?_
    obtain ⟨size, hblob⟩ := Registry.outcome_putBlob (l := l) (t := t') m.raw
    exact .bind (.of_outcome hblob) fun _ _ _ => .bind (MemoryStore.reports_putContent _ _)
      fun _ _ _ => .bind (MemoryStore.reports_putContent _ _) fun _ _ _ => .pure _

end Repository

namespace Upload

variable {u : Upload} {α β : Type}

/-- The storage stays as it is, and the handle on its upload. -/
def Stays (action : UploadAction MemoryStore α) : Prop :=
  ∀ u t, (action.outcome (u, t)).2.2 = t ∧ Same u (action.outcome (u, t)).2.1

namespace Stays

theorem pure (a : α) : Stays (Pure.pure a : UploadAction MemoryStore α) :=
  fun u _ => ⟨rfl, .refl u⟩

theorem throw (e : RegistryError) : Stays (MonadExcept.throw e : UploadAction MemoryStore α) :=
  fun u _ => ⟨rfl, .refl u⟩

theorem bind {action : UploadAction MemoryStore α} {next : α → UploadAction MemoryStore β}
    (h : Stays action) (hnext : ∀ a, Stays (next a)) : Stays (action >>= next) := by
  intro u t
  obtain ⟨hstore, hsame⟩ := h u t
  rw [outcome_bind]
  rcases ho : action.outcome (u, t) with ⟨e | a, v, t'⟩
  · rw [ho] at hstore hsame
    exact ⟨hstore, hsame⟩
  · rw [ho] at hstore hsame
    obtain ⟨hstore', hsame'⟩ := hnext a v t'
    exact ⟨hstore'.trans hstore, hsame.trans hsame'⟩

theorem bind_get {next : Upload × MemoryStore → UploadAction MemoryStore β}
    (h : ∀ p, Stays (next p)) : Stays (get >>= next) :=
  fun u t => h (u, t) u t

theorem handle : Stays handle :=
  bind_get fun _ => pure _

theorem change {f : Upload → Upload} (hf : ∀ u, Same u (f u)) : Stays (change f) :=
  fun u _ => ⟨rfl, hf u⟩

/-- What only asks the storage stays. -/
theorem onStorage {action : RegistryAction MemoryStore α}
    (h : Reads MemoryStore.reliable action) : Stays (onStorage action) :=
  fun u t => ⟨h.outcome_snd t, .refl u⟩

theorem ensureOpen : Stays ensureOpen := by
  refine bind handle fun u => ?_
  split
  · exact pure _
  · exact throw _

theorem size : Stays (size l.inMemory) :=
  bind ensureOpen fun _ => bind handle fun _ =>
    bind (onStorage (.orUnknown (.stat _))) fun _ => pure _

theorem catchUp (size : Nat) : Stays (catchUp l.inMemory size) := by
  refine bind (change fun v => (same_shrink size v).1) fun _ => bind handle fun u => ?_
  split
  · exact pure _
  · refine bind (onStorage (.orUnknown (.readStream _ _))) fun stream => bind_get fun p =>
      bind (change fun v => same_hash _ v) fun _ => ?_
    split
    · exact pure _
    · exact throw _

theorem actualDigest (algorithm : Algorithm) : Stays (actualDigest l.inMemory algorithm) := by
  refine bind handle fun u => ?_
  split
  · exact pure _
  · refine bind handle fun v => bind (onStorage (.orUnknown (.readStream _ _))) fun stream =>
      bind_get fun p => ?_
    simp only
    split
    · exact pure _
    · exact throw _

theorem isMoved (expected : Digest) : Stays (isMoved l.inMemory expected) := by
  refine bind handle fun u => bind (onStorage (.found (.stat _))) fun metadata => ?_
  cases metadata with
  | some _ => exact pure _
  | none => exact onStorage (Registry.reads_blobExists expected)

/-- What follows an action that stays. -/
theorem reports_bind {action : UploadAction MemoryStore α}
    {next : α → UploadAction MemoryStore β} (h : Stays action)
    (hreports : Reports missing action (u, t))
    (hnext : ∀ a v, (action.outcome (u, t)).1 = .ok a → Same u v →
      Reports missing (next a) (v, t)) :
    Reports missing (action >>= next) (u, t) := by
  refine .bind hreports fun a p ho => ?_
  obtain ⟨hstore, hsame⟩ := h u t
  obtain ⟨v, t'⟩ := p
  rw [ho] at hstore hsame
  obtain rfl : t' = t := hstore
  exact hnext a v (congrArg Prod.fst ho) hsame

end Stays

/-- The failure of a reader that bytes are written from, as the driver reports it. -/
def readerReport (l : Layout) (u : Upload) (source : Source) : List RegistryError :=
  (source.failure.map fun e =>
    RegistryError.storage (.ofIo MemoryStore.engine (dataPath l.inMemory u) e)).toList

/-- Writing passes on what the driver says, which finds nothing missing but what the reader
does. -/
theorem reports_write (offset : Nat) (source : Source) :
    Reports (.uploadUnknown u.id :: readerReport l u source) (write l.inMemory offset source)
      (u, t) := by
  have hmono : ∀ e ∈ [RegistryError.uploadUnknown u.id],
      e ∈ RegistryError.uploadUnknown u.id :: readerReport l u source := by simp
  refine Stays.size.reports_bind (reports_size.mono hmono) fun size v _ hv => ?_
  split
  · exact .throw fun hmiss => by cases hmiss
  · refine (Stays.catchUp size).reports_bind ((hv.id ▸ reports_catchUp size).mono hmono)
      fun _ w _ hw => ?_
    have hu := hv.trans hw
    refine reports_bind_handle (.bind (reports_onStorage (.stored fun cause hcause hmissing => ?_))
      fun transfer p _ => ?_)
    · -- a driver that takes the whole source first reports its failure and no other absence
      have hwrite := t.outcome_writeStream (dataPath l.inMemory w) offset source
      have hcause : ((MemoryStore.writeStream (dataPath l.inMemory w) offset source).outcome t).1 =
        .error cause := hcause
      rw [hwrite] at hcause
      cases hfailure : source.failure with
      | none =>
        rw [hfailure] at hcause
        simp only at hcause
        split at hcause
        · obtain rfl := Except.error.inj hcause
          cases hmissing
        · cases hcause
      | some e =>
        rw [hfailure] at hcause
        obtain rfl := Except.error.inj hcause
        have hpath : dataPath l.inMemory w = dataPath l.inMemory u := by
          rw [dataPath, dataPath, hu.id, hu.name]
        rw [readerReport, hfailure, hpath]
        exact List.mem_cons_of_mem _ (List.mem_singleton_self _)
    · obtain ⟨x, t'⟩ := p
      split
      · exact reports_bind_change (.pure _)
      · exact .pure _

theorem reports_commit (expected : Digest) :
    Reports [.blobUnknown expected] (commit l.inMemory expected) (u, t) := by
  refine reports_bind_handle (.bind (reports_onStorage (MemoryStore.reports_putContent _ _))
    fun _ p _ => ?_)
  obtain ⟨v, t'⟩ := p
  refine .bind (reports_onStorage (reports_remove _)) fun _ p _ => ?_
  obtain ⟨v, t'⟩ := p
  exact reports_bind_change (reports_onStorage (Registry.reports_blobStatAt expected _))

/-- An upload without data or a directory in its place is unknown. -/
theorem outcome_size_vacant (hstate : u.state = .writing)
    (h : ¬ t.occupied (dataPath l.inMemory u) = true) :
    (size l.inMemory).outcome (u, t) = (.error (.uploadUnknown u.id), (u, t)) :=
  outcome_size_missing hstate rfl (MemoryStore.outcome_stat_vacant h)

/-- What has a size is there. -/
theorem occupied_of_size {size : Nat}
    (h : ((Upload.size l.inMemory).outcome (u, t)).1 = .ok size) :
    t.occupied (dataPath l.inMemory u) = true := by
  by_contra hvacant
  by_cases hstate : u.state = .writing
  · rw [outcome_size_vacant hstate hvacant] at h
    cases h
  · rw [outcome_size_closed _ hstate] at h
    cases h

/-- **What is moved into the blob store is there**: it was just measured, and nothing that was
done since then has touched the storage. -/
theorem reports_settle (expected : Digest) :
    Reports [.uploadUnknown u.id] (settle l.inMemory expected) (u, t) := by
  refine Stays.size.reports_bind reports_size fun size v hsize hv => ?_
  have hoccupied := occupied_of_size hsize
  refine (Stays.catchUp size).reports_bind (hv.id ▸ reports_catchUp size) fun _ w _ hw => ?_
  have hw := hv.trans hw
  refine (Stays.actualDigest expected.algorithm).reports_bind
    (hw.id ▸ reports_actualDigest expected.algorithm) fun actual x _ hx => ?_
  have hx := hw.trans hx
  split
  · exact .throw fun hmiss => by cases hmiss
  · refine (Stays.onStorage (Registry.reads_blobExists expected)).reports_bind
      (reports_onStorage (Registry.reports_blobExists expected)) fun stored y _ hy => ?_
    have hy := hx.trans hy
    split
    · exact .pure _
    · refine reports_bind_handle (reports_onStorage (.stored fun cause hcause _ => ?_))
      have hpath : dataPath l.inMemory y = dataPath l.inMemory u := by
        rw [dataPath, dataPath, hy.id, hy.name]
      have hrename := t.outcome_rename (dataPath l.inMemory u) (l.inMemory.blobPath expected)
      rw [if_pos hoccupied, ← hpath] at hrename
      have hcause : ((MemoryStore.rename (dataPath l.inMemory y)
        (l.inMemory.blobPath expected)).outcome t).1 = .error cause := hcause
      rw [hrename] at hcause
      cases hcause

theorem reports_finish (expected : Digest) :
    Reports [.uploadUnknown u.id, .blobUnknown expected] (finish l.inMemory expected) (u, t) := by
  have hupload : ∀ e ∈ [RegistryError.uploadUnknown u.id],
      e ∈ [RegistryError.uploadUnknown u.id, .blobUnknown expected] := by simp
  have hblob : ∀ e ∈ [RegistryError.blobUnknown expected],
      e ∈ [RegistryError.uploadUnknown u.id, .blobUnknown expected] := by simp
  refine reports_bind_ensureOpen fun _ => (Stays.isMoved expected).reports_bind
    (reports_isMoved expected) fun moved v _ hv => ?_
  split
  · exact (reports_commit expected).mono hblob
  · refine .bind ((hv.id ▸ reports_settle expected).mono hupload) fun _ p _ => ?_
    obtain ⟨w, t'⟩ := p
    exact (reports_commit expected).mono hblob

end Upload

/-! ### Operations -/

namespace Operation

/-- The failures by which an operation may say that what it asks for is unknown. -/
def unknowns (handles : List Upload) : Operation → List RegistryError
  | resume _ id => [.uploadUnknown id]
  | size handle | write handle _ _ =>
    handles[handle]?.toList.map fun u => .uploadUnknown u.id
  | finish handle expected =>
    handles[handle]?.toList.flatMap fun u => [.uploadUnknown u.id, .blobUnknown expected]
  | mount _ digest | blobStat digest | blobOpen digest _ => [.blobUnknown digest]
  | putManifest n _ document =>
    match SignedManifest.parse document with
    | .ok m => m.manifest.layers.map (.layerUnknown n)
    | .error _ => []
  | layerStat n digest | layerOpen n digest _ => [.layerUnknown n digest]
  | resolveTag n tag | manifest n tag => [.manifestUnknown n tag]
  | manifestByDigest n digest => [.manifestUnknown n digest.toText]
  | start _ _ _ | cancel _ | cancelUpload _ _ | deleteManifest _ _ | blobExists _
  | layerExists _ _ | manifestExists _ _ | tags _ | catalog => []

theorem isUnknown_of_mem_unknowns {handles : List Upload} {op : Operation} {e : RegistryError}
    (h : e ∈ op.unknowns handles) : e.isUnknown = true := by
  cases op with
  | size handle | write handle _ _ =>
    obtain ⟨u, -, rfl⟩ := List.mem_map.1 h
    rfl
  | finish handle expected =>
    obtain ⟨u, -, hu⟩ := List.mem_flatMap.1 h
    rcases List.mem_pair.1 hu with rfl | rfl <;> rfl
  | putManifest n tag document =>
    rw [unknowns] at h
    split at h
    · obtain ⟨layer, -, rfl⟩ := List.mem_map.1 h
      rfl
    · cases h
  | resume | mount | blobStat | blobOpen | layerStat | layerOpen | resolveTag | manifest
  | manifestByDigest =>
    rw [List.mem_singleton.1 h]
    rfl
  | start | cancel | cancelUpload | deleteManifest | blobExists | layerExists | manifestExists
  | tags | catalog => cases h

/-- The failure of the reader that an operation takes bytes from. -/
def readerFailure? : Operation → Option IoError
  | write _ _ source => source.failure
  | _ => none

end Operation

namespace Client

variable {c : Client MemoryStore Bytes} {e : RegistryError} {α : Type}

theorem mem_of_asks {action : RegistryAction MemoryStore α} {reply : α → Reply}
    (h : Reports missing action c.storage) (he : (c.asks action reply).1 = .error e)
    (hmiss : e.saysMissing = true) : e ∈ missing := by
  rw [asks] at he
  cases ho : (action.outcome c.storage).1 with
  | ok a =>
    rw [ho] at he
    cases he
  | error cause =>
    rw [ho] at he
    obtain rfl : cause = e := Except.error.inj he
    exact h cause ho hmiss

theorem mem_of_starts {action : RegistryAction MemoryStore Upload}
    (h : Reports missing action c.storage) (he : (c.starts action).1 = .error e)
    (hmiss : e.saysMissing = true) : e ∈ missing := by
  rw [starts] at he
  split at he
  · cases he
  · rename_i cause t ho
    obtain rfl : cause = e := Except.error.inj he
    exact h cause (congrArg Prod.fst ho) hmiss

theorem mem_of_opens {action : RegistryAction MemoryStore (BlobReader Bytes)}
    (h : Reports missing action c.storage) (he : (c.opens action).1 = .error e)
    (hmiss : e.saysMissing = true) : e ∈ missing := by
  rw [opens] at he
  split at he
  · cases he
  · rename_i cause t ho
    obtain rfl : cause = e := Except.error.inj he
    exact h cause (congrArg Prod.fst ho) hmiss

/-- What is missing for a handle is so for the handle of that number. -/
theorem mem_of_uses {handle : Nat} {action : UploadAction MemoryStore α} {reply : α → Reply}
    {missing : Upload → List RegistryError}
    (h : ∀ u, Reports (missing u) action (u, c.storage))
    (he : (c.uses handle action reply).1 = .error e) (hmiss : e.saysMissing = true) :
    ∃ u, c.handles[handle]? = some u ∧ e ∈ missing u := by
  rw [uses] at he
  split at he
  · cases he
  · rename_i u hu
    refine ⟨u, hu, ?_⟩
    simp only at he
    cases ho : (action.outcome (u, c.storage)).1 with
    | ok a =>
      rw [ho] at he
      cases he
    | error cause =>
      rw [ho] at he
      obtain rfl : cause = e := Except.error.inj he
      exact h u cause ho hmiss

/-- **Whatever an operation finds missing is what it was asked for**, or what the client's own
reader says is missing. -/
theorem reports_act (c : Client MemoryStore Bytes) (op : Operation) {e : RegistryError}
    (he : (c.act l.inMemory op).1 = .error e) (hmiss : e.saysMissing = true) :
    e ∈ op.unknowns c.handles ∨ ∃ failure p, op.readerFailure? = some failure ∧
      e = .storage (.ofIo MemoryStore.engine p failure) := by
  have hsome : ∀ {handle : Nat} {u : Upload} {f : Upload → List RegistryError},
      c.handles[handle]? = some u → e ∈ f u → e ∈ c.handles[handle]?.toList.flatMap f := by
    intro handle u f hu hmem
    rw [hu]
    simpa using hmem
  cases op with
  | start n id now =>
    exact Or.inl (mem_of_starts (.of_outcome (Upload.outcome_start c.storage n id now)) he hmiss)
  | resume n id => exact Or.inl (mem_of_starts (Upload.reports_resume id) he hmiss)
  | size handle =>
    obtain ⟨u, hu, hmem⟩ := mem_of_uses (fun _ => Upload.reports_size) he hmiss
    left
    rw [Operation.unknowns, hu]
    exact hmem
  | write handle offset source =>
    obtain ⟨u, hu, hmem⟩ := mem_of_uses (fun _ => Upload.reports_write offset source) he hmiss
    rcases List.mem_cons.1 hmem with rfl | hreader
    · left
      rw [Operation.unknowns, hu]
      exact List.mem_singleton_self _
    · right
      rw [Upload.readerReport, Option.mem_toList, Option.map_eq_some_iff] at hreader
      obtain ⟨failure, hfailure, rfl⟩ := hreader
      exact ⟨failure, _, hfailure, rfl⟩
  | finish handle expected =>
    obtain ⟨u, hu, hmem⟩ := mem_of_uses (fun _ => Upload.reports_finish expected) he hmiss
    exact Or.inl (hsome hu hmem)
  | cancel handle =>
    have hnone : ∀ u : Upload, Reports [] (Upload.cancel l.inMemory) (u, c.storage) :=
      fun _ => Upload.reports_cancel
    obtain ⟨u, -, hmem⟩ := mem_of_uses hnone he hmiss
    cases hmem
  | cancelUpload n id => exact Or.inl (mem_of_asks (Upload.reports_remove id) he hmiss)
  | mount n digest => exact Or.inl (mem_of_asks (Repository.reports_mount digest) he hmiss)
  | putManifest n tag document =>
    left
    rw [act] at he
    rw [Operation.unknowns]
    cases hparse : SignedManifest.parse document with
    | error cause =>
      rw [hparse] at he
      obtain rfl : cause = e := Except.error.inj he
      rw [SignedManifest.findsFault_parse document cause hparse] at hmiss
      cases hmiss
    | ok m =>
      rw [hparse] at he
      exact mem_of_asks (Repository.reports_putManifest tag m) he hmiss
  | deleteManifest n reference =>
    exact Or.inl (mem_of_asks (.throw fun h => by cases h) he hmiss)
  | blobExists digest => exact Or.inl (mem_of_asks (Registry.reports_blobExists digest) he hmiss)
  | blobStat digest => exact Or.inl (mem_of_asks (Registry.reports_blobStatAt digest _) he hmiss)
  | blobOpen digest offset =>
    exact Or.inl (mem_of_opens (Registry.reports_blobOpenAt digest _ offset) he hmiss)
  | layerExists n digest =>
    exact Or.inl (mem_of_asks (Repository.reports_layerExists digest) he hmiss)
  | layerStat n digest => exact Or.inl (mem_of_asks (Repository.reports_layerStat digest) he hmiss)
  | layerOpen n digest offset =>
    exact Or.inl (mem_of_opens (Repository.reports_layerOpen digest offset) he hmiss)
  | resolveTag n tag => exact Or.inl (mem_of_asks (Repository.reports_resolveTag tag) he hmiss)
  | manifest n tag => exact Or.inl (mem_of_asks (Repository.reports_manifest tag) he hmiss)
  | manifestByDigest n digest =>
    exact Or.inl (mem_of_asks (Repository.reports_manifestByDigest digest) he hmiss)
  | manifestExists n tag =>
    exact Or.inl (mem_of_asks (Repository.reports_manifestExists tag) he hmiss)
  | tags n => exact Or.inl (mem_of_asks Repository.reports_tags he hmiss)
  | catalog => exact Or.inl (mem_of_asks Registry.reports_catalog he hmiss)

end Client

end ContainerRegistry
