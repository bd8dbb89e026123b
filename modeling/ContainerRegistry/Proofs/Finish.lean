/-
# What finishing an upload does

Finishing goes one of two ways. While the bytes of the upload are stored, they
are hashed, compared with the claimed digest and moved into the blob store,
unless the blob is there already. When they are not, but the claimed blob is, an
earlier attempt is taken to have moved them. Either way the blob is linked and
the upload retired. All of it is edits; and on a driver that fails in its writes
at most, what is stored decides the answer.

Key definitions: `Upload.Committed`, `Upload.Judged`.
Key theorems: `Upload.ensures_settle`, `Upload.ensures_commit`,
`Upload.finish_edits`, `Upload.finish_of_file`, `Upload.finish_of_absent`.
-/
import ContainerRegistry.Proofs.Handle

namespace ContainerRegistry

open ContainerRegistry.Action

namespace Upload

variable {d : Unreliable} {l : Layout} {i : Intent} {t t' : MemoryStore} {u : Upload}
  {expected : Digest}

/-! ### Committing -/

/-- What a commit leaves: the blob linked, and the upload removed unless that failed. -/
def Committed (l : Layout) (u : Upload) (expected : Digest) (t t' : MemoryStore) : Prop :=
  let linked := t.put (l.path (.layerLink u.name expected))
    (Bytes.ofText (l.path (.blobData expected)).text)
  t' = linked ∨ t' = linked.remove (l.path (.upload u.name u.id))

namespace Committed

theorem edits (h : Committed l u expected t t') (ht : t.LaidOut l) {content : Bytes}
    (hblob : t.file? (l.path (.blobData expected)) = some content) : Edits l i t t' := by
  have hlink : Edit l i t (t.put (l.path (.layerLink u.name expected))
      (Bytes.ofText (l.path (.blobData expected)).text)) := Edit.put ht rfl (.layer hblob)
  rcases h with rfl | rfl
  · exact .single hlink
  · exact .tail (.single hlink) (Edit.remove hlink.laidOut u.name u.id)

/-- A commit keeps every file but that of the link and those of the upload. -/
theorem file? (h : Committed l u expected t t') {f : Resource} (hf : f.isFile = true)
    (hkept : f.isTransient = false) : t'.file? (l.path f) =
      if f = .layerLink u.name expected then
        some (Bytes.ofText (l.path (.blobData expected)).text)
      else t.file? (l.path f) := by
  have hnot : ¬ (f = .uploadData u.name u.id ∨ f = .uploadStartedAt u.name u.id) := by
    rintro (rfl | rfl) <;> cases hkept
  rcases h with rfl | rfl
  · exact MemoryStore.file?_put_path rfl f _
  · rw [MemoryStore.file?_remove_upload _ _ hf, if_neg hnot, MemoryStore.file?_put_path rfl]

theorem blob (h : Committed l u expected t t') :
    t'.file? (l.path (.blobData expected)) = t.file? (l.path (.blobData expected)) := by
  rw [h.file? rfl rfl, if_neg (by simp)]

theorem link (h : Committed l u expected t t') :
    t'.file? (l.path (.layerLink u.name expected)) =
      some (Bytes.ofText (l.path (.blobData expected)).text) := by
  rw [h.file? rfl rfl, if_pos rfl]

end Committed

/-- A stored blob is linked, and the handle is finished as soon as it is. -/
theorem ensures_commit (ht : t.LaidOut l) {content : Bytes}
    (hblob : t.file? (l.path (.blobData expected)) = some content)
    {post : Except RegistryError Descriptor → Upload × MemoryStore → Prop}
    (committed : ∀ t', Committed l u expected t t' →
      post (.ok ⟨expected, content.length⟩) ({ u with state := .finished }, t'))
    (unlinked : d.fails → ∀ e, post (.error e) (u, t))
    (undescribed : d.fails → ∀ t', Committed l u expected t t' →
      ∀ e, post (.error e) ({ u with state := .finished }, t')) :
    (commit (d.registry l) expected).Ensures d.onHandle (u, t) post := by
  -- the blob is described after the upload is gone or not
  have hstat : ∀ t', Committed l u expected t t' →
      ((d.registry l).blobStat expected).Ensures d.view t' fun x t' =>
        post x ({ u with state := .finished }, t') := by
    intro t' ht'
    refine Registry.ensures_blobStat ((ht'.edits (i := ⟨fun _ _ => False, fun _ => False⟩) ht
      hblob).laidOut ht) ?stored ?failed
    case stored =>
      intro content' hcontent'
      rw [ht'.blob, hblob] at hcontent'
      cases hcontent'
      exact committed t' ht'
    case failed =>
      rintro (hmissing | hfails) e
      · rw [ht'.blob, hblob] at hmissing
        cases hmissing
      · exact undescribed hfails t' ht' e
  refine Ensures.bind (ensures_handle ?_)
  refine Ensures.bind (ensures_onStorage (Repository.ensures_linkLayer ?linked unlinked))
  case linked =>
    refine Ensures.bind (ensures_onStorage (ensures_remove ?removed ?kept))
    case removed =>
      exact Ensures.bind (ensures_change (ensures_onStorage (hstat _ (Or.inr rfl))))
    case kept =>
      exact Ensures.bind (ensures_change (ensures_onStorage (hstat _ (Or.inl rfl))))

/-! ### Settling -/

/-- The stored bytes are compared with the claimed digest, and moved only if it is
theirs. -/
theorem ensures_settle (ht : t.LaidOut l) (htracks : u.Tracks l t)
    {post : Except RegistryError Unit → Upload × MemoryStore → Prop}
    (present : ∀ bytes content u', t.file? (l.path (.uploadData u.name u.id)) = some bytes →
      Digest.ofBytes expected.algorithm bytes = expected →
      t.file? (l.path (.blobData expected)) = some content →
      Same u u' → u'.Tracks l t → post (.ok ()) (u', t))
    (moved : ∀ bytes u', t.file? (l.path (.uploadData u.name u.id)) = some bytes →
      Digest.ofBytes expected.algorithm bytes = expected →
      Same u u' → u'.Tracks l t →
      post (.ok ()) (u', t.move (l.path (.uploadData u.name u.id)) (l.path (.blobData expected))))
    (mismatch : ∀ bytes u', t.file? (l.path (.uploadData u.name u.id)) = some bytes →
      Digest.ofBytes expected.algorithm bytes ≠ expected → Same u u' → u'.Tracks l t →
      post (.error (.digestMismatch expected (Digest.ofBytes expected.algorithm bytes))) (u', t))
    (failed : u.Obstructed d l t → ∀ u', Same u u' → u'.Tracks l t → ∀ e, post (.error e) (u', t)) :
    (settle (d.registry l) expected).Ensures d.onHandle (u, t) post := by
  refine Ensures.bind (ensures_size ht ?measured ?unmeasured)
  case unmeasured =>
    exact fun hwhy e => failed hwhy u (.refl u) htracks e
  case measured =>
    intro _ bytes hfile
    refine Ensures.bind (ensures_catchUp hfile (htracks bytes hfile) ?caught ?uncaught)
    case uncaught =>
      exact fun hfails u' hu' hcov _ e =>
        failed (Or.inr (Or.inr hfails)) u' hu' (hu'.tracks hfile hcov) e
    case caught =>
      intro u' hu' hcov hall
      have htracks' : u'.Tracks l t := hu'.tracks hfile hcov
      have hfile' : t.file? (l.path (.uploadData u'.name u'.id)) = some bytes := by
        rw [hu'.name, hu'.id]
        exact hfile
      have hlost : d.fails → ∀ e, post (.error e) (u', t) := fun hfails =>
        failed (Or.inr (Or.inr hfails)) u' hu' htracks'
      refine Ensures.bind (ensures_actualDigest hfile' hcov hall ?found hlost)
      simp only [Then]
      by_cases hdigest : Digest.ofBytes expected.algorithm bytes = expected
      · rw [if_neg (not_not_intro hdigest)]
        refine Ensures.bind (ensures_onStorage (Registry.ensures_blobExists ht ?stored ?absent
          hlost))
        case stored =>
          exact fun content hcontent =>
            Ensures.pure (present bytes content u' hfile hdigest hcontent hu' htracks')
        case absent =>
          intro _
          refine Ensures.bind (ensures_handle ?_)
          simp only [Then, dataPath, Registry.path, hu'.name, hu'.id]
          refine ensures_onStorage (ensures_stored (Unreliable.rename_path
            (a := .uploadData u.name u.id) (b := .blobData expected) ht rfl ?moved ?gone ?lost))
          case moved =>
            exact fun _ _ => moved bytes u' hfile hdigest hu' htracks'
          case gone =>
            intro hgone
            cases hgone.symm.trans hfile
          case lost =>
            exact fun hfails _ => hlost hfails _
      · rw [if_pos hdigest]
        exact Ensures.throw (mismatch bytes u' hfile hdigest hu' htracks')

/-- Whether the bytes are gone and the blob is there, as far as storage says so. -/
theorem ensures_isMoved (ht : t.LaidOut l)
    {post : Except RegistryError Bool → Upload × MemoryStore → Prop}
    (held : ∀ bytes, t.file? (l.path (.uploadData u.name u.id)) = some bytes →
      post (.ok false) (u, t))
    (moved : t.file? (l.path (.uploadData u.name u.id)) = none ∨ d.fails → ∀ content,
      t.file? (l.path (.blobData expected)) = some content → post (.ok true) (u, t))
    (absent : t.file? (l.path (.uploadData u.name u.id)) = none ∨ d.fails →
      t.file? (l.path (.blobData expected)) = none ∨ d.fails → post (.ok false) (u, t))
    (fault : d.fails → ∀ e, post (.error e) (u, t)) :
    (isMoved (d.registry l) expected).Ensures d.onHandle (u, t) post := by
  have hblob : t.file? (l.path (.uploadData u.name u.id)) = none ∨ d.fails →
      (onStorage ((d.registry l).blobExists expected)).Ensures d.onHandle (u, t) post :=
    fun hgone => ensures_onStorage
      (Registry.ensures_blobExists ht (moved hgone) (absent hgone) fault)
  refine Ensures.bind (ensures_handle ?_)
  refine Ensures.bind (ensures_onStorage (ensures_found
    (Unreliable.stat_path (r := .uploadData u.name u.id) ht rfl ?found ?missing ?fault)))
  case found =>
    exact fun bytes hfile => Ensures.pure (held bytes hfile)
  case missing =>
    intro hfile e he
    rw [foundAnswer, if_pos he]
    exact hblob (Or.inl hfile)
  case fault =>
    intro hfails e
    rw [foundAnswer]
    split
    · exact hblob (Or.inr hfails)
    · exact fault hfails _

/-! ### Finishing -/

/-- **Finishing changes the store by edits alone**, and offers the bytes of the
upload for storing at most. -/
theorem finish_edits (ht : t.LaidOut l) (htracks : u.Tracks l t)
    (hoffers : ∀ bytes, t.file? (l.path (.uploadData u.name u.id)) = some bytes → i.offers bytes)
    (expected : Digest) :
    (finish (d.registry l) expected).Ensures d.onHandle (u, t) fun _ => Kept l i t u := by
  -- once the blob is stored, it remains to commit
  have hcommit : ∀ u' t' content, Edits l i t t' → Same u u' → u'.Tracks l t →
      t'.file? (l.path (.blobData expected)) = some content →
      (commit (d.registry l) expected).Ensures d.onHandle (u', t') fun _ => Kept l i t u := by
    intro u' t' content hedits hu' htr hblob
    refine ensures_commit (hedits.laidOut ht) hblob ?committed ?unlinked ?undescribed
    case committed =>
      exact fun t'' h => ⟨hedits.trans (h.edits (hedits.laidOut ht) hblob), hu'.name, hu'.id,
        htr.of_state _⟩
    case unlinked =>
      exact fun _ _ => ⟨hedits, hu'.name, hu'.id, htr⟩
    case undescribed =>
      exact fun _ t'' h _ => ⟨hedits.trans (h.edits (hedits.laidOut ht) hblob), hu'.name, hu'.id,
        htr.of_state _⟩
  have hsettle : (do settle (d.registry l) expected; commit (d.registry l) expected).Ensures
      d.onHandle (u, t) fun _ => Kept l i t u := by
    refine Ensures.bind (ensures_settle ht htracks ?present ?moved ?mismatch ?failed)
    case present =>
      exact fun _ content u' _ _ hcontent hu' htr => hcommit u' t content .refl hu' htr hcontent
    case moved =>
      intro bytes u' hfile hdigest hu' htr
      have hmove := Edit.move ht hfile hdigest (hoffers bytes hfile)
      refine hcommit u' _ bytes (.single hmove) hu' htr ?_
      rw [ht.file?_move rfl rfl (by simp) hfile, if_pos rfl]
    case mismatch =>
      exact fun _ u' _ _ hu' htr => ⟨.refl, hu'.name, hu'.id, htr⟩
    case failed =>
      exact fun _ u' hu' htr _ => ⟨.refl, hu'.name, hu'.id, htr⟩
  refine Ensures.bind (ensures_ensureOpen ?writing ?closed)
  case closed =>
    exact fun _ => ⟨.refl, rfl, rfl, htracks⟩
  case writing =>
    intro _
    refine Ensures.bind (ensures_isMoved ht ?held ?moved ?absent ?fault)
    case held =>
      exact fun _ _ => hsettle
    case moved =>
      exact fun _ content hcontent => hcommit u t content .refl (.refl u) htracks hcontent
    case absent =>
      exact fun _ _ => hsettle
    case fault =>
      exact fun _ _ => ⟨.refl, rfl, rfl, htracks⟩

/-- How a finish is answered by the bytes of its upload: under another digest than
theirs nothing changes, and under theirs the blob and its link are left. -/
def Judged (l : Layout) (t : MemoryStore) (u : Upload) (bytes : Bytes) (expected : Digest)
    (x : Except RegistryError Descriptor) (w : Upload × MemoryStore) : Prop :=
  (Digest.ofBytes expected.algorithm bytes ≠ expected ∧
    x = .error (.digestMismatch expected (Digest.ofBytes expected.algorithm bytes)) ∧
    w.2 = t ∧ w.1.state = .writing) ∨
  (Digest.ofBytes expected.algorithm bytes = expected ∧ ∃ content,
    x = .ok ⟨expected, content.length⟩ ∧ w.1.state = .finished ∧
    (content = bytes ∨ t.file? (l.path (.blobData expected)) = some content) ∧
    w.2.file? (l.path (.blobData expected)) = some content ∧
    w.2.file? (l.path (.layerLink u.name expected)) =
      some (Bytes.ofText (l.path (.blobData expected)).text))

/-- **With the bytes stored, their digest decides.** -/
theorem finish_of_file (hfails : ¬ d.fails) (ht : t.LaidOut l) (htracks : u.Tracks l t)
    (hstate : u.state = .writing) {bytes : Bytes}
    (hfile : t.file? (l.path (.uploadData u.name u.id)) = some bytes) (expected : Digest) :
    (finish (d.registry l) expected).Ensures d.onHandle (u, t) (Judged l t u bytes expected) := by
  -- once the bytes are found to be right and the blob is stored, it remains to commit
  have hcommit : ∀ u' t' content, Digest.ofBytes expected.algorithm bytes = expected → Same u u' →
      t'.LaidOut l → t'.file? (l.path (.blobData expected)) = some content →
      (content = bytes ∨ t.file? (l.path (.blobData expected)) = some content) →
      (commit (d.registry l) expected).Ensures d.onHandle (u', t')
        (Judged l t u bytes expected) := by
    intro u' t' content hdigest hu' ht' hblob horigin
    refine ensures_commit ht' hblob ?committed ?unlinked ?undescribed
    case committed =>
      intro t'' h
      refine Or.inr ⟨hdigest, content, rfl, rfl, horigin, h.blob.trans hblob, ?_⟩
      rw [← hu'.name]
      exact h.link
    case unlinked =>
      exact fun hfault => absurd hfault hfails
    case undescribed =>
      exact fun hfault => absurd hfault hfails
  refine Ensures.bind (ensures_ensureOpen ?writing fun hclosed => absurd hstate hclosed)
  intro _
  refine Ensures.bind (ensures_isMoved ht ?held ?moved ?absent fun hfault => absurd hfault hfails)
  case moved =>
    rintro (hgone | hfault)
    · cases hgone.symm.trans hfile
    · exact absurd hfault hfails
  case absent =>
    rintro (hgone | hfault)
    · cases hgone.symm.trans hfile
    · exact absurd hfault hfails
  case held =>
    intro _ _
    refine Ensures.bind (ensures_settle ht htracks ?present ?moved ?mismatch ?failed)
    case present =>
      intro bytes' content u' hfile' hdigest hcontent hu' _
      obtain rfl : bytes' = bytes := Option.some.inj (hfile'.symm.trans hfile)
      exact hcommit u' t content hdigest hu' ht hcontent (Or.inr hcontent)
    case moved =>
      intro bytes' u' hfile' hdigest hu' _
      obtain rfl : bytes' = bytes := Option.some.inj (hfile'.symm.trans hfile)
      refine hcommit u' _ bytes' hdigest hu' (ht.move rfl rfl (by simp) hfile) ?_ (Or.inl rfl)
      rw [ht.file?_move rfl rfl (by simp) hfile, if_pos rfl]
    case mismatch =>
      intro bytes' u' hfile' hdigest hu' _
      obtain rfl : bytes' = bytes := Option.some.inj (hfile'.symm.trans hfile)
      exact Or.inl ⟨hdigest, rfl, rfl, hu'.state.trans hstate⟩
    case failed =>
      exact fun hwhy => absurd hwhy (not_obstructed hfails hstate hfile)

/-- **With the bytes gone, the claimed blob decides**, whoever stored it. -/
theorem finish_of_absent (hfails : ¬ d.fails) (ht : t.LaidOut l) (hstate : u.state = .writing)
    (hgone : t.file? (l.path (.uploadData u.name u.id)) = none) (expected : Digest) :
    (finish (d.registry l) expected).Ensures d.onHandle (u, t) fun x w =>
      (t.file? (l.path (.blobData expected)) = none ∧ (∃ e, x = .error e) ∧ w.2 = t) ∨
      (∃ content, t.file? (l.path (.blobData expected)) = some content ∧
        x = .ok ⟨expected, content.length⟩ ∧
        w.2.file? (l.path (.layerLink u.name expected)) =
          some (Bytes.ofText (l.path (.blobData expected)).text)) := by
  have htracks : u.Tracks l t := fun _ hfile => by cases hgone.symm.trans hfile
  refine Ensures.bind (ensures_ensureOpen ?writing fun hclosed => absurd hstate hclosed)
  intro _
  refine Ensures.bind (ensures_isMoved ht ?held ?moved ?absent fun hfault => absurd hfault hfails)
  case held =>
    intro _ hfile
    cases hgone.symm.trans hfile
  case moved =>
    intro _ content hcontent
    refine ensures_commit ht hcontent ?committed ?unlinked ?undescribed
    case committed =>
      exact fun t' h => Or.inr ⟨content, hcontent, rfl, h.link⟩
    case unlinked =>
      exact fun hfault => absurd hfault hfails
    case undescribed =>
      exact fun hfault => absurd hfault hfails
  case absent =>
    rintro - (hmissing | hfault)
    · refine Ensures.bind (ensures_settle ht htracks ?present ?moved ?mismatch ?failed)
      case present =>
        intro _ _ _ hfile
        cases hgone.symm.trans hfile
      case moved =>
        intro _ _ hfile
        cases hgone.symm.trans hfile
      case mismatch =>
        intro _ _ hfile
        cases hgone.symm.trans hfile
      case failed =>
        exact fun _ _ _ _ e => Or.inl ⟨hmissing, ⟨e, rfl⟩, rfl⟩
    · exact absurd hfault hfails

end Upload
end ContainerRegistry
