/-
# The layout keeps everything apart

Whatever the root is, its path tells which resource it belongs to, directories
included; it adds plain names to the root and nothing that a file system would
walk or skip; no file is a directory on the way to anything else; and the
directory of an upload holds the two files of that upload alone. Names of
repositories nest in each other's directories, so all of this rests on what
stands behind a name being marked as no component of a name is.

Key definitions: `Layout.Separates`.
Key theorems: `Resource.place_injective`, `Layout.separates`.
-/
import ContainerRegistry.Proofs.Layout

namespace ContainerRegistry
namespace Resource

/-- There is a way from the root to every resource. -/
theorem place_full (r : Resource) : r.place ≠ [] := by
  cases hn : r.owner? with
  | none => cases r <;> simp_all [place, owner?, entry]
  | some n => simp [place, hn, within]

/-- What belongs to a repository lies elsewhere than what belongs to none. -/
theorem place_ne_of_owner?_eq_none {a b : Resource} {n : RepositoryName} (ha : a.owner? = none)
    (hb : b.owner? = some n) : a.place ≠ b.place := by
  have hne := n.components_ne_nil
  rw [place, place, ha, hb]
  cases a with
  | blobData d => simp [entry, within]
  | repositories => simp [entry, within, hne]
  | _ => simp [owner?] at ha

/-- The entries of one repository differ. -/
theorem entry_injective {a b : Resource} (howner : a.owner? = b.owner?) (h : a.entry = b.entry) :
    a = b := by
  cases a <;> cases b <;> simp_all [owner?, entry]
  case blobData.blobData =>
    exact Digest.ext (Algorithm.name_injective h.1) h.2.2
  case layerLink.layerLink | revisionLink.revisionLink =>
    exact Digest.ext (Algorithm.name_injective h.1) h.2
  case upload.upload | uploadData.uploadData | uploadStartedAt.uploadStartedAt =>
    exact UploadId.ext h
  case currentLink.currentLink =>
    exact Tag.ext h

/-- Nothing else lies where an entry of a repository lies. -/
theorem eq_of_place_of_ne {a b : Resource} {n : RepositoryName} (hn : a.owner? = some n)
    (ha : a ≠ repository n) (h : a.place = b.place) : a = b := by
  have hpre : a.place <+: b.place := h ▸ List.prefix_refl a.place
  obtain ⟨hb, -⟩ := owner?_eq_of_place_isPrefix ha hn hpre
  rw [place, place, hn, hb] at h
  exact entry_injective (hn.trans hb.symm) (List.append_cancel_left (List.cons.inj h).2)

/-- **A resource is found again in its place**, a directory as well as a file. -/
theorem place_injective {a b : Resource} (h : a.place = b.place) : a = b := by
  cases ha : a.owner? with
  | none =>
    cases hb : b.owner? with
    | none =>
      rw [place, place, ha, hb] at h
      exact entry_injective (ha.trans hb.symm) h
    | some n => exact absurd h (place_ne_of_owner?_eq_none ha hb)
  | some n =>
    cases hb : b.owner? with
    | none => exact absurd h.symm (place_ne_of_owner?_eq_none hb ha)
    | some n' =>
      by_cases hrepo : a = repository n
      · by_cases hrepo' : b = repository n'
        · subst hrepo hrepo'
          simp only [place, owner?, entry, within, List.append_nil, List.cons.injEq, true_and] at h
          rw [RepositoryName.components_injective h]
        · exact (eq_of_place_of_ne hb hrepo' h.symm).symm
      · exact eq_of_place_of_ne ha hrepo h

end Resource

namespace Layout

variable (l : Layout)

/-- What a layout promises of the paths that it gives out. -/
structure Separates : Prop where
  /-- A path belongs to one resource. -/
  injective : ∀ a b, (l.path a).components = (l.path b).components → a = b
  /-- A path lies beneath the root and adds plain names to it. -/
  beneath : ∀ r, ∃ names : List String, names ≠ [] ∧ (∀ n ∈ names, Path.IsName n) ∧
    (l.path r).components = l.root.components ++ names.map .name
  /-- A file stands on the way to nothing else. -/
  prefixFree : ∀ f r, f.isFile = true → (l.path f).components <+: (l.path r).components → f = r
  /-- An upload consists of its two files. -/
  uploadFiles : ∀ n id f, f.isFile = true →
    ((l.path (.upload n id)).components <+: (l.path f).components ↔
      f = .uploadData n id ∨ f = .uploadStartedAt n id)

/-- **Every layout keeps its resources apart**, whatever its root and whatever the names,
tags, digests and uploads. -/
theorem separates : l.Separates where
  injective a b h := by
    rw [components_path, components_path, List.append_cancel_left_eq,
      List.map_inj_right fun _ _ e => by simpa using e] at h
    exact Resource.place_injective h
  beneath r := by
    refine ⟨r.place, r.place_full, fun n hn => ?_, l.components_path r⟩
    exact (Resource.isPlain_of_mem_place hn).isName
  prefixFree f r hf h := Resource.eq_of_place_isPrefix hf ((l.isPrefix_path_iff f r).1 h)
  uploadFiles n id f hf := by
    rw [isPrefix_path_iff]
    constructor
    · exact Resource.file_beneath_upload hf
    · rintro (rfl | rfl)
      · exact Resource.upload_isPrefix_data n id
      · exact Resource.upload_isPrefix_startedAt n id

end Layout
end ContainerRegistry
