/-
# A manifest that could not be put in is not seen

One storage call of putting a manifest may fail, whichever it is. If the manifest
is not put in then, the document may have been left behind as a blob, and its
revision link with it, but no tag (`HalfPut`). No tag means anything else than
before, in any repository, no layer comes or goes, and putting the manifest in
again leads to the store that there would have been without the failure. It is
essential that at most one call fails: a check for the blob that fails as if
nothing was there lets the document be stored over another, and only a second
failure could then keep the manifest from being put in.

Key definitions: `Faulty.once`, `HalfPut`.
Key theorems: `Faulty.ensures_guarded`, `Repository.putManifest_interrupted`,
`HalfPut.answers`, `HalfPut.file?_publish`, `Reachable.failed_put`.
-/
import ContainerRegistry.Proofs.Listing
import ContainerRegistry.Proofs.Publish
import ContainerRegistry.Proofs.Signing
import ContainerRegistry.Proofs.Untagged

namespace ContainerRegistry

open ContainerRegistry.Action

/-! ### One failure at most -/

namespace Faulty

/-- The store beneath, and whether a fault still waits; there is one at most. -/
def once : View (Faulty MemoryStore) (MemoryStore × Bool) :=
  ⟨fun s => s.faults.length ≤ 1, fun s => (s.inner, decide (0 < s.faults.length))⟩

/-- A call meets the only fault and uses it up, or the fault waits on. -/
theorem strike_once (method : Method) (p : Path) {faults : List Fault} (h : faults.length ≤ 1) :
    ((strike method p faults).1 = none ∧ (strike method p faults).2.length = faults.length) ∨
      ((∃ f, (strike method p faults).1 = some f) ∧ faults.length = 1 ∧
        (strike method p faults).2 = []) := by
  match faults, h with
  | [], _ => exact Or.inl ⟨rfl, rfl⟩
  | [f], _ =>
    unfold strike
    by_cases hmeets : meets method p f = true
    · by_cases hskip : 0 < f.skip
      · rw [if_pos hmeets, if_pos hskip]
        exact Or.inl ⟨rfl, rfl⟩
      · rw [if_pos hmeets, if_neg hskip]
        exact Or.inr ⟨⟨f, rfl⟩, rfl, rfl⟩
    · rw [if_neg hmeets]
      exact Or.inl ⟨rfl, rfl⟩

/-- **A call goes through, or it fails and nothing fails any more.** -/
theorem ensures_guarded {α : Type} {method : Method} {p : Path}
    {call : Action MemoryStore StorageError α} {t : MemoryStore} {waits : Bool}
    {post : Except StorageError α → MemoryStore × Bool → Prop}
    (passed : post (call.outcome t).1 ((call.outcome t).2, waits))
    (struck : waits = true → ∀ e, post (.error e) (t, false)) :
    (guarded method p call).Ensures once (t, waits) post := by
  intro s hs hst
  obtain ⟨rfl, rfl⟩ := Prod.mk.inj hst
  rw [guarded, outcome_bind, outcome_struck]
  rcases strike_once method p hs with ⟨hnone, hlength⟩ | ⟨⟨f, hsome⟩, hone, hrest⟩
  · simp only [hnone]
    have hpass : (pass call).outcome ⟨s.inner, (strike method p s.faults).2⟩ =
        ((call.outcome s.inner).1, ⟨(call.outcome s.inner).2, (strike method p s.faults).2⟩) := rfl
    rw [hpass]
    refine ⟨hlength.trans_le hs, ?_⟩
    show post _ ((call.outcome s.inner).2, decide (0 < (strike method p s.faults).2.length))
    rw [hlength]
    exact passed
  · simp only [hsome, hrest, outcome_throw]
    exact ⟨Nat.zero_le 1, struck (by simp [hone]) _⟩

/-- A call that changes nothing, and may fail, changes nothing. -/
theorem keeps_guarded {α : Type} {method : Method} {p : Path}
    {call : Action MemoryStore StorageError α} (h : ∀ t, (call.outcome t).2 = t) (t : MemoryStore) :
    Keeps once (fun s => s.1 = t) (guarded method p call) := by
  rintro ⟨t', waits⟩ rfl
  exact ensures_guarded (h t') fun _ _ => rfl

end Faulty

/-! ### Manifests that are half put in -/

/-- A store holds the document of a manifest that another does not hold, or its
revision link, and differs in nothing else. -/
structure HalfPut (l : Layout) (n : RepositoryName) (document : Bytes) (t t' : MemoryStore) :
    Prop where
  laidOut : t'.LaidOut l
  file? : ∀ f : Resource, f.isFile = true →
    t'.file? (l.path f) = t.file? (l.path f) ∨
      (f = .blobData (Digest.sha256 document) ∧ t.file? (l.path f) = none ∧
        t'.file? (l.path f) = some document) ∨
      (f = .revisionLink n (Digest.sha256 document) ∧
        t'.file? (l.path f) = some (Bytes.ofText (Digest.sha256 document).toText) ∧
        ∃ content, t'.file? (l.path (.blobData (Digest.sha256 document))) = some content)

namespace HalfPut

variable {l : Layout} {n : RepositoryName} {document : Bytes} {t t' : MemoryStore}

theorem refl (ht : t.LaidOut l) : HalfPut l n document t t :=
  ⟨ht, fun _ _ => Or.inl rfl⟩

theorem blob (ht : t.LaidOut l)
    (habsent : t.file? (l.path (.blobData (Digest.sha256 document))) = none) :
    HalfPut l n document t (t.put (l.path (.blobData (Digest.sha256 document))) document) where
  laidOut := ht.put rfl document
  file? f _ := by
    rw [MemoryStore.file?_put_path rfl]
    by_cases hf : f = .blobData (Digest.sha256 document)
    · subst hf
      exact Or.inr (Or.inl ⟨rfl, habsent, if_pos rfl⟩)
    · exact Or.inl (if_neg hf)

theorem revision (h : HalfPut l n document t t') {content : Bytes}
    (hblob : t'.file? (l.path (.blobData (Digest.sha256 document))) = some content) :
    HalfPut l n document t (t'.put (l.path (.revisionLink n (Digest.sha256 document)))
      (Bytes.ofText (Digest.sha256 document).toText)) where
  laidOut := h.laidOut.put rfl _
  file? f hf := by
    have hfiles := fun g => MemoryStore.file?_put_path (s := t') (l := l)
      (a := .revisionLink n (Digest.sha256 document)) rfl g
      (Bytes.ofText (Digest.sha256 document).toText)
    simp only [hfiles]
    by_cases hown : f = .revisionLink n (Digest.sha256 document)
    · subst hown
      exact Or.inr (Or.inr ⟨rfl, if_pos rfl, content, (if_neg (by simp)).trans hblob⟩)
    · rw [if_neg hown]
      rcases h.file? f hf with hsame | hblob' | ⟨hrevision, -⟩
      · exact Or.inl hsame
      · exact Or.inr (Or.inl hblob')
      · exact absurd hrevision hown

/-- Whatever is neither a blob nor a revision link is as it was. -/
theorem file?_eq (h : HalfPut l n document t t') {f : Resource} (hf : f.isFile = true)
    (hblob : ∀ digest, f ≠ .blobData digest) (hrevision : ∀ n digest, f ≠ .revisionLink n digest) :
    t'.file? (l.path f) = t.file? (l.path f) := by
  rcases h.file? f hf with hsame | ⟨he, -⟩ | ⟨he, -⟩
  · exact hsame
  · exact absurd he (hblob _)
  · exact absurd he (hrevision _ _)

/-- A blob that is stored stays as it is. -/
theorem blob_kept (h : HalfPut l n document t t') {digest : Digest} {content : Bytes}
    (hblob : t.file? (l.path (.blobData digest)) = some content) :
    t'.file? (l.path (.blobData digest)) = some content := by
  rcases h.file? (.blobData digest) rfl with hsame | ⟨-, habsent, -⟩ | ⟨he, -⟩
  · exact hsame.trans hblob
  · cases habsent.symm.trans hblob
  · cases he

theorem linksPoint (h : HalfPut l n document t t') (hlinks : LinksPoint l t) : LinksPoint l t' := by
  have hkept : ∀ digest, (∃ content, t.file? (l.path (.blobData digest)) = some content) →
      ∃ content, t'.file? (l.path (.blobData digest)) = some content :=
    fun _ ⟨content, hcontent⟩ => ⟨content, h.blob_kept hcontent⟩
  constructor
  case layer =>
    intro n' digest link hlink
    rw [h.file?_eq rfl (by simp) (by simp)] at hlink
    obtain ⟨hholds, hstored⟩ := hlinks.layer n' digest link hlink
    exact ⟨hholds, hkept digest hstored⟩
  case revision =>
    intro n' digest link hlink
    rcases h.file? (.revisionLink n' digest) rfl with hsame | ⟨he, -⟩ | ⟨he, hput, hstored⟩
    · obtain ⟨hholds, hstored⟩ := hlinks.revision n' digest link (hsame ▸ hlink)
      exact ⟨hholds, hkept digest hstored⟩
    · cases he
    · obtain ⟨rfl, rfl⟩ := Resource.revisionLink.inj he
      exact ⟨Option.some.inj (hlink.symm.trans hput), hstored⟩
  case current =>
    intro n' tag link hlink
    rw [h.file?_eq rfl (by simp) (by simp)] at hlink
    obtain ⟨digest, hholds, revision, hrevision⟩ := hlinks.current n' tag link hlink
    refine ⟨digest, hholds, ?_⟩
    rcases h.file? (.revisionLink n' digest) rfl with hsame | ⟨he, -⟩ | ⟨-, hput, -⟩
    · exact ⟨revision, hsame.trans hrevision⟩
    · cases he
    · exact ⟨_, hput⟩

/-- **Every tag means what it meant.** -/
theorem answers (h : HalfPut l n document t t') (hlinks : LinksPoint l t) (n' : RepositoryName)
    (text : String) :
    ((Repository.resolveTag ⟨l.inMemory, n'⟩ text).outcome t').1 =
        ((Repository.resolveTag ⟨l.inMemory, n'⟩ text).outcome t).1 ∧
      ((Repository.manifest ⟨l.inMemory, n'⟩ text).outcome t').1 =
        ((Repository.manifest ⟨l.inMemory, n'⟩ text).outcome t).1 ∧
      ((Repository.manifestExists ⟨l.inMemory, n'⟩ text).outcome t').1 =
        ((Repository.manifestExists ⟨l.inMemory, n'⟩ text).outcome t).1 := by
  cases htag : Tag.parse text with
  | error e =>
    obtain ⟨hr, hm, he⟩ := Repository.answers_of_invalid (l := l) (t := t) (n := n') htag
    obtain ⟨hr', hm', he'⟩ := Repository.answers_of_invalid (l := l) (t := t') (n := n') htag
    rw [hr, hm, he, hr', hm', he']
    exact ⟨rfl, rfl, rfl⟩
  | ok tag =>
    obtain rfl := Tag.text_of_parse htag
    have hsame : t'.file? (l.path (.currentLink n' tag)) = t.file? (l.path (.currentLink n' tag)) :=
      h.file?_eq rfl (by simp) (by simp)
    cases hlink : t.file? (l.path (.currentLink n' tag)) with
    | none =>
      obtain ⟨hr, hm, he⟩ := Repository.answers_of_unlinked hlink
      obtain ⟨hr', hm', he'⟩ := Repository.answers_of_unlinked (hsame.trans hlink)
      rw [hr, hm, he, hr', hm', he']
      exact ⟨rfl, rfl, rfl⟩
    | some link =>
      obtain ⟨digest, rfl, revision, hrevision⟩ := hlinks.current n' tag link hlink
      obtain ⟨-, content, hblob⟩ := hlinks.revision n' digest revision hrevision
      obtain ⟨hr, hm, he⟩ := Repository.answers_of_linked hlinks hlink hblob
      obtain ⟨hr', hm', he'⟩ := Repository.answers_of_linked (h.linksPoint hlinks)
        (hsame.trans hlink) (h.blob_kept hblob)
      rw [hr, hm, he, hr', hm', he']
      exact ⟨rfl, rfl, rfl⟩

/-- Every repository has the tags that it had. -/
theorem tags (h : HalfPut l n document t t') (ht : t.LaidOut l) (n' : RepositoryName) :
    ((Repository.tags ⟨l.inMemory, n'⟩).outcome t').1 =
      ((Repository.tags ⟨l.inMemory, n'⟩).outcome t).1 := by
  obtain ⟨texts, hold, hincreasing, hmem⟩ := Repository.outcome_tags ht n'
  obtain ⟨texts', hnew, hincreasing', hmem'⟩ := Repository.outcome_tags h.laidOut n'
  have htagged : ∀ text, t'.IsTagged l n' text ↔ t.IsTagged l n' text := by
    intro text
    have hsame : ∀ tag, t'.file? (l.path (.currentLink n' tag)) =
        t.file? (l.path (.currentLink n' tag)) := fun tag => h.file?_eq rfl (by simp) (by simp)
    unfold MemoryStore.IsTagged
    simp only [hsame]
  have heq : texts' = texts := eq_of_increasing hincreasing' hincreasing fun text =>
    (hmem' text).trans ((htagged text).trans (hmem text).symm)
  rw [hnew, hold, heq]

/-- **Publishing leads to the same store as without the attempt.** -/
theorem file?_publish (h : HalfPut l n document t t') (tag : Tag) {f : Resource}
    (hf : f.isFile = true) : (t'.publish l n tag document).file? (l.path f) =
      (t.publish l n tag document).file? (l.path f) := by
  rw [MemoryStore.file?_publish, MemoryStore.file?_publish]
  by_cases hlink : f = .currentLink n tag ∨ f = .revisionLink n (Digest.sha256 document)
  · rw [if_pos hlink, if_pos hlink]
  · rw [if_neg hlink, if_neg hlink]
    by_cases hblob : f = .blobData (Digest.sha256 document)
    · rw [if_pos hblob, if_pos hblob]
      rcases h.file? (.blobData (Digest.sha256 document)) rfl with
        hsame | ⟨-, hnone, hsome⟩ | ⟨he, -⟩
      · rw [hsame]
      · rw [hnone, hsome, Option.getD_some, Option.getD_none]
      · cases he
    · rw [if_neg hblob, if_neg hblob]
      rcases h.file? f hf with hsame | ⟨he, -⟩ | ⟨he, -⟩
      · exact hsame
      · exact absurd he hblob
      · exact absurd (Or.inr he) hlink

end HalfPut

/-- Stores that are laid out hold the same where the files of resources are the same. -/
theorem MemoryStore.LaidOut.getElem?_eq {l : Layout} {s t : MemoryStore} (hs : s.LaidOut l)
    (ht : t.LaidOut l)
    (h : ∀ f : Resource, f.isFile = true → s.file? (l.path f) = t.file? (l.path f))
    (place : List Component) : s.files[place]? = t.files[place]? := by
  refine Option.ext fun bytes => ⟨fun hplace => ?_, fun hplace => ?_⟩
  · obtain ⟨f, hf, rfl⟩ := hs place bytes hplace
    exact (h f hf).symm.trans hplace
  · obtain ⟨f, hf, rfl⟩ := ht place bytes hplace
    exact (h f hf).trans hplace

theorem MemoryStore.LaidOut.publish {l : Layout} {t : MemoryStore} (h : t.LaidOut l)
    (n : RepositoryName) (tag : Tag) (document : Bytes) :
    (t.publish l n tag document).LaidOut l :=
  ((h.withBlob document).put (a := .revisionLink n (Digest.sha256 document)) rfl _).put
    (a := .currentLink n tag) rfl _

/-! ### What a failure leaves behind -/

namespace Repository

variable {l : Layout} {n : RepositoryName} {t : MemoryStore} {waits : Bool}

theorem once_keeps_layerStat (digest : Digest) (t : MemoryStore) :
    Keeps Faulty.once (fun s => s.1 = t) (layerStat ⟨l.onRequest, n⟩ digest) := by
  have hget : ∀ p, Keeps Faulty.once (fun s => s.1 = t) (l.onRequest.storage.getContent p) :=
    fun p => Faulty.keeps_guarded
      (fun t => (Reads.getContent (d := MemoryStore.reliable) p).outcome_snd t) t
  have hstat : ∀ p, Keeps Faulty.once (fun s => s.1 = t) (l.onRequest.storage.stat p) :=
    fun p => Faulty.keeps_guarded
      (fun t => (Reads.stat (d := MemoryStore.reliable) p).outcome_snd t) t
  refine .bind (.bind (.orUnknown (hget _)) fun _ => .ofExcept _) fun target => ?_
  intro s hs
  refine Ensures.mapError (Keeps.bind (.orUnknown (hstat target)) (fun metadata => ?_) s hs)
  exact .ite (.throw _) (.pure _)

theorem once_keeps_requireLayers (layers : List Digest) (t : MemoryStore) :
    Keeps Faulty.once (fun s => s.1 = t) (requireLayers ⟨l.onRequest, n⟩ layers) := by
  induction layers with
  | nil => exact .pure _
  | cons digest rest ih => exact .bind (once_keeps_layerStat digest t) fun _ => ih

/-- What is known of the store while a manifest is put in: the document is stored, and
as long as a fault still waits the manifest is half put in at most. -/
def Underway (l : Layout) (n : RepositoryName) (document : Bytes) (t : MemoryStore)
    (s : MemoryStore × Bool) : Prop :=
  s.1.LaidOut l ∧
    (∃ content, s.1.file? (l.path (.blobData (Digest.sha256 document))) = some content) ∧
      (s.2 = true → HalfPut l n document t s.1)

/-- Whether a blob is stored is answered as it is, unless the fault strikes. -/
theorem once_blobExists (ht : t.LaidOut l) {digest : Digest}
    {post : Except RegistryError Bool → MemoryStore × Bool → Prop}
    (stored : ∀ content, t.file? (l.path (.blobData digest)) = some content →
      post (.ok true) (t, waits))
    (absent : t.file? (l.path (.blobData digest)) = none → post (.ok false) (t, waits))
    (struck : waits = true → (∀ e, post (.error e) (t, false)) ∧ post (.ok false) (t, false)) :
    (l.onRequest.blobExists digest).Ensures Faulty.once (t, waits) post := by
  refine Ensures.bind (ensures_found (Faulty.ensures_guarded ?passed ?struck))
  case struck =>
    intro hwaits e
    rw [foundAnswer]
    split
    · exact Ensures.pure (struck hwaits).2
    · exact (struck hwaits).1 _
  case passed =>
    have hcall : (MemoryStore.driver.stat (l.onRequest.blobPath digest)).outcome t = _ :=
      ht.outcome_stat (r := .blobData digest) rfl
    rw [hcall]
    cases hblob : t.file? (l.path (.blobData digest)) with
    | some content => exact Ensures.pure (stored content hblob)
    | none => exact Ensures.pure (absent hblob)

/-- A stored blob is described, unless the fault strikes. -/
theorem once_blobStat {digest : Digest} {content : Bytes}
    (hblob : t.file? (l.path (.blobData digest)) = some content)
    {post : Except RegistryError Descriptor → MemoryStore × Bool → Prop}
    (described : post (.ok ⟨digest, content.length⟩) (t, waits))
    (struck : waits = true → ∀ e, post (.error e) (t, false)) :
    (l.onRequest.blobStat digest).Ensures Faulty.once (t, waits) post := by
  refine Ensures.bind
    (ensures_orUnknown (Faulty.ensures_guarded ?_ fun hwaits e => struck hwaits _))
  have hcall : (MemoryStore.driver.stat (l.onRequest.blobPath digest)).outcome t =
      (.ok ⟨content.length, false⟩, t) := by
    show (MemoryStore.stat (l.path (.blobData digest))).outcome t = _
    rw [MemoryStore.outcome_stat, hblob]
  rw [hcall]
  exact Ensures.pure described

/-- A failure to store a document leaves the manifest half put in at most. -/
theorem putBlob_interrupted (ht : t.LaidOut l) (document : Bytes) :
    (l.onRequest.putBlob document).Ensures Faulty.once (t, waits) fun x s =>
      (∀ e, x = .error e → HalfPut l n document t s.1) ∧
        ∀ descriptor, x = .ok descriptor → descriptor.digest = Digest.sha256 document ∧
          Underway l n document t s := by
  have hstat : ∀ (t' : MemoryStore) (waits' : Bool), Underway l n document t (t', waits') →
      (l.onRequest.blobStat (Digest.sha256 document)).Ensures Faulty.once (t', waits') fun x s =>
        (∀ e, x = .error e → HalfPut l n document t s.1) ∧
          ∀ descriptor, x = .ok descriptor → descriptor.digest = Digest.sha256 document ∧
            Underway l n document t s := by
    intro t' waits' hunderway
    obtain ⟨content, hblob⟩ := hunderway.2.1
    refine once_blobStat hblob ⟨(fun _ h => by cases h), fun descriptor h => ?_⟩
      fun hwaits e => ⟨fun _ _ => hunderway.2.2 hwaits, fun _ h => by cases h⟩
    obtain rfl := Except.ok.inj h
    exact ⟨rfl, hunderway⟩
  have hput : ∀ waits', (waits' = true →
        t.file? (l.path (.blobData (Digest.sha256 document))) = none) →
      (stored (l.onRequest.storage.putContent (l.path (.blobData (Digest.sha256 document)))
        document) >>= fun _ => l.onRequest.blobStat (Digest.sha256 document)).Ensures Faulty.once
          (t, waits') fun x s => (∀ e, x = .error e → HalfPut l n document t s.1) ∧
            ∀ descriptor, x = .ok descriptor → descriptor.digest = Digest.sha256 document ∧
              Underway l n document t s := by
    intro waits' habsent
    refine Ensures.bind (ensures_stored (Faulty.ensures_guarded ?passed ?struck))
    case struck =>
      exact fun _ e => ⟨fun _ _ => .refl ht, fun _ h => by cases h⟩
    case passed =>
      refine hstat _ waits' ⟨ht.put rfl document, ⟨document, ?_⟩, fun hwaits => ?_⟩
      · show (t.put (l.path (.blobData (Digest.sha256 document))) document).file? _ = _
        rw [MemoryStore.file?_put_path rfl, if_pos rfl]
      · exact HalfPut.blob ht (habsent hwaits)
  refine Ensures.bind (once_blobExists ht ?stored ?absent ?struck)
  case stored =>
    intro content hblob
    exact hstat t waits ⟨ht, ⟨content, hblob⟩, fun _ => .refl ht⟩
  case absent =>
    exact fun hblob => hput waits fun _ => hblob
  case struck =>
    -- a failure that says that nothing is there is taken for an absent blob
    intro _
    exact ⟨fun e => ⟨fun _ _ => .refl ht, fun _ h => by cases h⟩, hput false (by simp)⟩

/-- **A manifest that is not put in is half put in at most.** -/
theorem putManifest_interrupted (ht : t.LaidOut l) (text : String) (m : SignedManifest) :
    (putManifest ⟨l.onRequest, n⟩ text m).Ensures Faulty.once (t, waits) fun x s =>
      ∀ e, x = .error e → HalfPut l n m.raw t s.1 := by
  refine Ensures.bind (Ensures.ofExcept ?_)
  cases tagOf text with
  | error e => exact fun _ _ => .refl ht
  | ok tag =>
    simp only [Then]
    cases identityFault? ⟨l.onRequest, n⟩ tag m.manifest with
    | some e => exact Ensures.throw fun _ _ => .refl ht
    | none =>
      refine Ensures.bind ((once_keeps_requireLayers m.manifest.layers t (t, waits) rfl).mono ?_)
      rintro x ⟨t₁, waits₁⟩ hsame
      obtain rfl : t₁ = t := hsame
      cases x with
      | error e => exact fun _ _ => .refl ht
      | ok _ =>
        refine Ensures.bind ((putBlob_interrupted (n := n) ht m.raw).mono ?_)
        rintro x ⟨t₂, waits₂⟩ ⟨hfailed, hstored⟩
        cases x with
        | error e => exact fun _ _ => hfailed e rfl
        | ok descriptor =>
          obtain ⟨hdigest, ht₂, ⟨content, hblob⟩, hhalf⟩ := hstored descriptor rfl
          simp only [Then, hdigest]
          refine Ensures.bind (ensures_stored (Faulty.ensures_guarded ?passed ?struck))
          case struck =>
            exact fun hwaits e _ _ => hhalf hwaits
          case passed =>
            have hrevised : waits₂ = true → HalfPut l n m.raw t₁ (t₂.put
                (l.path (.revisionLink n (Digest.sha256 m.raw)))
                (Bytes.ofText (Digest.sha256 m.raw).toText)) :=
              fun hwaits => (hhalf hwaits).revision hblob
            refine Ensures.bind (ensures_stored (Faulty.ensures_guarded ?_ ?_))
            · exact Ensures.pure fun _ h => by cases h
            · exact fun hwaits e _ _ => hrevised hwaits

end Repository

/-! ### Reachable stores -/

/-- **A manifest that could not be put in is not seen, and can be put in again.** -/
theorem Reachable.failed_put {l : Layout} {w : World} (h : Reachable l w) (n : RepositoryName)
    (text : String) (m : SignedManifest) (f : Fault) {e : RegistryError} {s : Faulty MemoryStore}
    (hput : (Repository.putManifest ⟨l.onRequest, n⟩ text m).outcome ⟨w.store, [f]⟩ =
      (.error e, s)) :
    (∀ n' text', ((Repository.resolveTag ⟨l.inMemory, n'⟩ text').outcome s.inner).1 =
          ((Repository.resolveTag ⟨l.inMemory, n'⟩ text').outcome w.store).1 ∧
        ((Repository.manifest ⟨l.inMemory, n'⟩ text').outcome s.inner).1 =
          ((Repository.manifest ⟨l.inMemory, n'⟩ text').outcome w.store).1 ∧
        ((Repository.manifestExists ⟨l.inMemory, n'⟩ text').outcome s.inner).1 =
          ((Repository.manifestExists ⟨l.inMemory, n'⟩ text').outcome w.store).1) ∧
      (∀ n', ((Repository.tags ⟨l.inMemory, n'⟩).outcome s.inner).1 =
        ((Repository.tags ⟨l.inMemory, n'⟩).outcome w.store).1) ∧
      (∀ n' digest, s.inner.file? (l.path (.layerLink n' digest)) =
        w.store.file? (l.path (.layerLink n' digest))) ∧
      ∀ digest t, (Repository.putManifest ⟨l.inMemory, n⟩ text m).outcome w.store =
          (.ok digest, t) →
        ∃ t', (Repository.putManifest ⟨l.inMemory, n⟩ text m).outcome s.inner = (.ok digest, t') ∧
          ∀ place : List Component, t'.files[place]? = t.files[place]? := by
  have ht : w.store.LaidOut l := h.inv.laidOut
  have hhalf : HalfPut l n m.raw w.store s.inner := by
    have hensures : (Repository.putManifest ⟨l.onRequest, n⟩ text m).Ensures Faulty.once
        (w.store, true) _ := Repository.putManifest_interrupted ht text m
    obtain ⟨-, hfailed⟩ := hensures ⟨w.store, [f]⟩ (Nat.le_refl 1) rfl
    rw [hput] at hfailed
    exact hfailed e rfl
  refine ⟨hhalf.answers h.linksPoint, hhalf.tags ht,
    fun n' digest => hhalf.file?_eq rfl (by simp) (by simp), fun digest t hwhole => ?_⟩
  by_cases haccepts : Repository.Accepts l w.store n text m.manifest
  · obtain ⟨tag, htag⟩ := haccepts.valid
    rw [Repository.putManifest_accepted htag haccepts] at hwhole
    obtain ⟨hdigest, rfl⟩ := Prod.mk.inj hwhole
    -- the layers are linked as they were, so the manifest is accepted again
    have haccepts' : Repository.Accepts l s.inner n text m.manifest := by
      refine ⟨haccepts.valid, haccepts.name, haccepts.tag, fun layer hlayer => ?_⟩
      have hvisible := haccepts.visible layer hlayer
      rw [Repository.isVisible_iff ht h.linksPoint] at hvisible
      rw [Repository.isVisible_iff hhalf.laidOut (hhalf.linksPoint h.linksPoint),
        hhalf.file?_eq rfl (by simp) (by simp)]
      exact hvisible
    refine ⟨s.inner.publish l n tag m.raw, ?_, fun place => ?_⟩
    · rw [Repository.putManifest_accepted htag haccepts', hdigest]
    · exact (hhalf.laidOut.publish n tag m.raw).getElem?_eq (ht.publish n tag m.raw)
        (fun _ hf => hhalf.file?_publish tag hf) place
  · obtain ⟨e', hrefused⟩ := Repository.putManifest_refused haccepts
    rw [hrefused] at hwhole
    cases hwhole

/-- The fault is at the last call, when the manifest is stored and only its tag is missing. -/
theorem Reachable.failed_put_sample : ∃ w n text f e s digest t, Reachable default w ∧
    (Repository.putManifest ⟨Layout.onRequest default, n⟩ text SignedManifest.sample).outcome
      ⟨w.store, [f]⟩ = (.error e, s) ∧
    s.inner.file? (Layout.path default
      (.revisionLink n (Digest.sha256 SignedManifest.sample.raw))) =
        some (Bytes.ofText (Digest.sha256 SignedManifest.sample.raw).toText) ∧
    (Repository.putManifest ⟨Layout.inMemory default, n⟩ text SignedManifest.sample).outcome
      s.inner = (.ok digest, t) := by
  obtain ⟨n, hn⟩ : ∃ n : RepositoryName, n = ⟨"team/one", by decide⟩ := ⟨_, rfl⟩
  obtain ⟨tag, htag⟩ : ∃ tag : Tag, tag = ⟨"v1", by decide⟩ := ⟨_, rfl⟩
  have hname : SignedManifest.sample.manifest.name = n.text := by rw [hn]; rfl
  have htext : SignedManifest.sample.manifest.tag = tag.text := by rw [htag]; rfl
  have hvalid : Tag.parse tag.text = .ok tag := by rw [htag]; rfl
  obtain ⟨w, -, hw, -, haccepts⟩ := Reachable.run_pushing_accepts (l := default) .empty
    ⟨"00000000-0000-0000-0000-000000000001", by decide⟩ (by simp [World.empty]) [1] .sha256
    hname htext hvalid fun _ hlayer => List.mem_singleton.1 hlayer
  obtain ⟨skip, e, hfailed⟩ := Repository.putManifest_untagged hvalid haccepts
  obtain ⟨-, -, -, hretry⟩ :=
    failed_put hw n tag.text SignedManifest.sample (Faulty.unwritable skip) hfailed
  obtain ⟨t', hput, -⟩ := hretry _ _ (Repository.putManifest_accepted hvalid haccepts)
  refine ⟨w, n, tag.text, Faulty.unwritable skip, e, _, _, t', hw, hfailed, ?_, hput⟩
  rw [MemoryStore.file?_put_path rfl, if_pos rfl]

end ContainerRegistry
