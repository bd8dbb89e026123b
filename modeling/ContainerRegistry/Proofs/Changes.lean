/-
# The calls that change a file tree

On a tree that reflects a store, each call of the local driver that changes the
tree at a place of a resource does what the call in memory does to the store:
it succeeds where that one does, and the tree reflects the store again. Putting
and moving a file make the directories above it first, and a file that is put
is written under a hidden name and given its own afterwards, so that for the
tree each is a file that arrives.

Key theorems: `Reflects.putContent`, `Reflects.writeStream`, `Reflects.rename`,
`Reflects.delete`.
-/
import ContainerRegistry.Proofs.Directories
import ContainerRegistry.Proofs.Reflects

namespace ContainerRegistry

open ContainerRegistry.Action

namespace Reflects

variable {place : LocalStore.Place} {t : MemoryStore} {s : LocalStore} {f : Resource}

/-- **Putting a file.** -/
theorem putContent (h : Reflects place t s) (hu : place.IsUsable) (hf : f.isFile = true)
    {bytes : Bytes} (htidy : (t.put (Layout.standard.path f) bytes).Tidy Layout.standard) :
    ∃ s', (LocalStore.putContent place (Layout.standard.path f) bytes).outcome s = (.ok (), s') ∧
      Reflects place (t.put (Layout.standard.path f) bytes) s' ∧ s.Keeps place s' := by
  obtain ⟨dir, last, hplace⟩ := Resource.place_ne_nil hf
  have hfull : place.beneath f.place = place.beneath dir ++ [last] := by
    rw [hplace, place.beneath_append]
  have hlast : Path.IsPlain last := Resource.isPlain_of_mem_place (r := f) (by simp [hplace])
  -- the scratch file goes by a name that is free
  have htaken : ((LocalStore.route place (Layout.standard.path f)).withFileName
      (LocalStore.scratchName place (LocalStore.route place (Layout.standard.path f))
        s.scratch)).IsTaken := by
    have hfits := hu.fits_scratch hf hplace s.scratch
    rw [place.beneath_append] at hfits
    rw [LocalStore.Place.route_path, hfull, Route.withFileName_ofNames, ← hfull]
    exact hfits.spells.taken
  have hfree := h.entryAt?_hidden dir
    (place.head_scratchName (LocalStore.route place (Layout.standard.path f)) s.scratch)
  rw [place.beneath_append] at hfree
  obtain ⟨s', houtcome, harrives, hbytes⟩ :=
    (h.finds hu hf).putContent hfull (fun hx => hlast.head_ne_dot hx) htaken hfree bytes
  have hstays : ∀ {id}, id < s.disk.nextId → s'.disk.bytes id = s.disk.bytes id := fun hid =>
    harrives.bytes _ hid (Nat.ne_of_lt hid)
  have harrival : Arrival place t (t.put (Layout.standard.path f) bytes) s s' f none
      s.disk.nextId bytes := {
    isFile := hf
    tidy := htidy
    sound := harrives.sound
    files := fun g => by simpa using MemoryStore.file?_put_path hf g bytes
    entryAt? := fun q => by simpa using harrives.entryAt? q
    bytes := hbytes
    kept := fun q id hq he => harrives.bytes_of_entry h.sound hq (by simp) he
    above := by simp }
  refine ⟨s', houtcome, harrival.reflects h, harrival.keeps harrives.nextId ?_ ?_⟩
  · exact fun id content hholds => (hstays hholds.1).trans hholds.2.1
  · exact fun _ _ _ content hholds => Nat.lt_irrefl _ hholds.1

/-- **Moving the data of an upload into the blob store.** -/
theorem rename (h : Reflects place t s) (hu : place.IsUsable) {n : RepositoryName} {u : UploadId}
    {bytes : Bytes} (hdata : t.file? (Layout.standard.path (.uploadData n u)) = some bytes)
    (digest : Digest) :
    ∃ s', (LocalStore.rename place (Layout.standard.path (.uploadData n u))
        (Layout.standard.path (.blobData digest))).outcome s = (.ok (), s') ∧
      Reflects place (t.move (Layout.standard.path (.uploadData n u))
        (Layout.standard.path (.blobData digest))) s' ∧ s.Keeps place s' := by
  obtain ⟨id, hold, rfl⟩ := h.entryAt?_of_some rfl hdata
  obtain ⟨time, htime⟩ := h.tidy.started n u _ hdata
  have hapart : ¬ place.beneath (Resource.uploadData n u).place <+:
      place.beneath (Resource.blobData digest).place := by
    intro hpre
    cases Resource.eq_of_place_isPrefix rfl (place.beneath_isPrefix_iff.1 hpre)
  obtain ⟨s', houtcome, harrives, hbytes⟩ := (h.finds (f := .uploadData n u) hu rfl).rename
    (h.finds (f := .blobData digest) hu rfl) hapart hold
  have harrival : Arrival place t (t.move (Layout.standard.path (.uploadData n u))
      (Layout.standard.path (.blobData digest))) s s' (.blobData digest)
      (some (.uploadData n u)) id (s.disk.bytes id) := {
    isFile := rfl
    tidy := h.tidy.move hdata
    sound := harrives.sound
    files := fun g => by
      rw [h.tidy.laidOut.file?_move rfl rfl (by simp) hdata]
      simp only [Option.some.injEq, eq_comm]
    entryAt? := harrives.entryAt?
    bytes := hbytes id
    kept := fun _ id' _ _ => hbytes id'
    above := by
      rintro a ⟨⟩
      have hplace : (Resource.uploadData n u).place = (Resource.upload n u).place ++ ["data"] := by
        simp [Resource.place, Resource.owner?, Resource.within, Resource.entry]
      refine ⟨rfl, .uploadStartedAt n u, time, rfl, by simp, htime, ?_⟩
      rw [hplace, List.dropLast_concat]
      exact Resource.upload_isPrefix_startedAt n u }
  refine ⟨s', houtcome, harrival.reflects h, harrival.keeps harrives.nextId ?_ ?_⟩
  · exact fun id' _ hholds => (hbytes id').trans hholds.2.1
  · exact fun n' u' he => by cases he

/-- **Writing into the data of an upload**, from an offset that lies within it or at
its end. -/
theorem writeStream (h : Reflects place t s) (hu : place.IsUsable) {n : RepositoryName}
    {u : UploadId} {bytes : Bytes}
    (hdata : t.file? (Layout.standard.path (.uploadData n u)) = some bytes) {offset : Nat}
    (hoffset : offset ≤ bytes.length) {source : Source} (hsource : source.failure = none) :
    ∃ s', (LocalStore.writeStream place (Layout.standard.path (.uploadData n u)) offset
        source).outcome s = (.ok ⟨source.bytes.length, source.bytes.length⟩, s') ∧
      Reflects place (t.put (Layout.standard.path (.uploadData n u))
        (splice bytes offset source.bytes)) s' ∧ s.Keeps place s' := by
  obtain ⟨id, he, -⟩ := h.entryAt?_of_some rfl hdata
  have hcontent := (h.content (.uploadData n u) rfl).trans hdata
  have hold : ((s.disk.content? (place.beneath (Resource.uploadData n u).place)).getD []) =
      bytes := by rw [hcontent, Option.getD_some]
  obtain ⟨s', id', houtcome, harrives, hbytes, hbefore⟩ :=
    (h.finds (f := .uploadData n u) hu rfl).writeStream source (hold ▸ hoffset)
  -- the data is there, so that it keeps its identity
  obtain rfl : id' = id := by
    rw [he] at hbefore
    simpa [eq_comm] using hbefore
  rw [hold, LocalStore.landing_of_whole hsource] at hbytes
  rw [hsource] at houtcome
  have harrival : Arrival place t (t.put (Layout.standard.path (.uploadData n u))
      (splice bytes offset source.bytes)) s s' (.uploadData n u) none id'
      (splice bytes offset source.bytes) := {
    isFile := rfl
    tidy := h.tidy.put rfl (fun _ _ he => by cases he) fun n' u' he => by
      cases he
      exact h.tidy.started n u _ hdata
    sound := harrives.sound
    files := fun g => by simpa using MemoryStore.file?_put_path rfl g _
    entryAt? := fun q => by simpa using harrives.entryAt? q
    bytes := hbytes
    kept := fun q id hq he' => harrives.bytes_of_entry h.sound hq (by simp) he'
    above := by simp }
  refine ⟨s', houtcome, harrival.reflects h, harrival.keeps harrives.nextId ?_ ?_⟩
  · intro id content hholds
    have hne : id ≠ id' := by
      rintro rfl
      exact hholds.2.2 n u he
    rw [harrives.bytes id hholds.1 hne, hholds.2.1]
  · exact fun n' u' _ content hholds => hholds.2.2 n u he

/-- The directory of an upload is there while a file of it is. -/
theorem occupied_upload_iff (h : Reflects place t s) (n : RepositoryName) (u : UploadId) :
    t.occupied (Layout.standard.path (.upload n u)) = true ↔
      s.disk.entryAt? (place.beneath (Resource.upload n u).place) = some .directory := by
  rw [h.tidy.laidOut.occupied_iff]
  constructor
  · rintro ⟨g, bytes, hg, hpre, hfile⟩
    obtain ⟨id, he, -⟩ := h.entryAt?_of_some hg hfile
    obtain ⟨rest, hrest⟩ := place.beneath_isPrefix_iff.2 hpre
    have hne : rest ≠ [] := by
      rintro rfl
      rw [List.append_nil] at hrest
      obtain rfl := Resource.eq_of_place hg (place.beneath_injective hrest).symm
      cases hg
    exact h.sound.directory hne (hrest ▸ he)
  · intro he
    rcases h.directory _ he with hroot | ⟨g, bytes, hg, hfile, hpre⟩ | ⟨n', hpre⟩
    · exact absurd hroot (place.not_beneath_isPrefix_root _)
    · exact ⟨g, bytes, hg, place.beneath_isPrefix_iff.1 hpre, hfile⟩
    · have hmarked : Path.IsMarked "_uploads" := by decide
      have hwithin : Resource.within n ["_uploads", u.text] <+: Resource.within n' ["_uploads"] :=
        place.beneath_isPrefix_iff.1 hpre
      have := (Resource.within_isPrefix hmarked hmarked hwithin).2.length_le
      simp at this

/-- Where the directory of an upload belongs there is no file. -/
theorem upload_ne_file (h : Reflects place t s) (n : RepositoryName) (u : UploadId) (id : Nat) :
    s.disk.entryAt? (place.beneath (Resource.upload n u).place) ≠ some (.file id) := by
  intro he
  obtain ⟨g, hg, hplace⟩ := h.file _ id he
  obtain rfl := Resource.eq_of_place hg (place.beneath_injective hplace).symm
  cases hg

/-- Without the directory of an upload the tree reflects the store without its files. -/
theorem remove (h : Reflects place t s) (n : RepositoryName) (u : UploadId) {d : Disk}
    (hentry : ∀ q, d.entryAt? q =
      if place.beneath (Resource.upload n u).place <+: q then none else s.disk.entryAt? q)
    (hbytes : ∀ id, d.bytes id = s.disk.bytes id) (hsound : d.Sound) :
    Reflects place (t.remove (Layout.standard.path (.upload n u))) { s with disk := d } where
  tidy := h.tidy.remove n u
  sound := hsound
  content f hf := by
    rw [MemoryStore.file?_remove_upload n u hf]
    by_cases hu : f = .uploadData n u ∨ f = .uploadStartedAt n u
    · have hpre : (Resource.upload n u).place <+: f.place := by
        rcases hu with rfl | rfl
        · exact Resource.upload_isPrefix_data n u
        · exact Resource.upload_isPrefix_startedAt n u
      have hgone : d.entryAt? (place.beneath f.place) = none := by
        rw [hentry, if_pos (place.beneath_isPrefix_iff.2 hpre)]
      rw [if_pos hu, Disk.content?_eq_none (by simp [hgone])]
    · have hsame :
          d.entryAt? (place.beneath f.place) = s.disk.entryAt? (place.beneath f.place) := by
        rw [hentry, if_neg fun hpre =>
          hu (Resource.file_beneath_upload hf (place.beneath_isPrefix_iff.1 hpre))]
      rw [if_neg hu, ← h.content f hf, Disk.content?_congr hsame fun id _ => hbytes id]
  file q id he := by
    rw [hentry] at he
    split at he
    · cases he
    · exact h.file q id he
  directory q he := by
    rw [hentry] at he
    split at he
    · cases he
    · rename_i hout
      rcases h.directory q he with hroot | ⟨f, bytes, hf, hfile, hpre⟩ | huploads
      · exact Or.inl hroot
      · by_cases hu : f = .uploadData n u ∨ f = .uploadStartedAt n u
        · -- what is above a removed file and not removed is above the directory of the uploads
          have hbeneath : (Resource.upload n u).place <+: f.place := by
            rcases hu with rfl | rfl
            · exact Resource.upload_isPrefix_data n u
            · exact Resource.upload_isPrefix_startedAt n u
          have hlast : place.beneath (Resource.upload n u).place =
              place.beneath (Resource.within n ["_uploads"]) ++ [u.text] := by
            rw [← place.beneath_append]
            simp [Resource.place, Resource.owner?, Resource.entry, Resource.within]
          have habove : q <+: place.beneath (Resource.upload n u).place :=
            (List.prefix_or_prefix_of_prefix hpre
              (place.beneath_isPrefix_iff.2 hbeneath)).resolve_right hout
          rw [hlast] at habove hout
          exact Or.inr (Or.inr ⟨n, (List.prefix_concat_iff.1 habove).resolve_left
            fun he => hout (he ▸ List.prefix_rfl)⟩)
        · refine Or.inr (Or.inl ⟨f, bytes, hf, ?_, hpre⟩)
          rw [MemoryStore.file?_remove_upload n u hf, if_neg hu, hfile]
      · exact Or.inr (Or.inr huploads)

/-- **Deleting an upload**, whether it is there or not. -/
theorem delete (h : Reflects place t s) (hu : place.IsUsable) (n : RepositoryName)
    (u : UploadId) :
    ∃ x s', (LocalStore.delete place (Layout.standard.path (.upload n u))).outcome s = (x, s') ∧
      Reflects place
        ((MemoryStore.delete (Layout.standard.path (.upload n u))).outcome t).2 s' ∧
      s.Keeps place s' := by
  have hlook := h.outcome_look hu (.upload n u)
  rw [MemoryStore.outcome_delete]
  cases he : s.disk.entryAt? (place.beneath (Resource.upload n u).place) with
  | none =>
    have hfree : t.occupied (Layout.standard.path (.upload n u)) = false := by
      rw [Bool.eq_false_iff, ne_eq, h.occupied_upload_iff, he]
      simp
    refine ⟨.error (LocalStore.missing (Layout.standard.path (.upload n u)) "delete"), s, ?_, ?_,
      .refl s⟩
    · rw [LocalStore.delete, LocalStore.Place.route_path, outcome_bind, LocalStore.outcome_call,
        hlook, he]
      rfl
    · rw [hfree]
      exact h
  | some e =>
    obtain rfl : e = .directory := by
      cases e with
      | directory => rfl
      | file id => exact absurd he (h.upload_ne_file n u id)
    obtain ⟨dir, last, hplace⟩ : ∃ dir last,
        place.beneath (Resource.upload n u).place = dir ++ [last] :=
      (List.eq_nil_or_concat' _).resolve_left (by simp [LocalStore.Place.beneath, Layout.rootNames])
    obtain ⟨d, hremoved, hsound, hnext, hentry, hbytes⟩ :=
      Disk.outcome_removeTree h.sound (hplace ▸ hu.fits (.upload n u)) (hplace ▸ he)
    rw [← hplace] at hremoved hentry
    refine ⟨.ok (), { s with disk := d }, ?_, ?_, ?_⟩
    · rw [LocalStore.delete, LocalStore.Place.route_path, outcome_bind, LocalStore.outcome_call,
        hlook, he]
      simp only [Except.mapError, LocalStore.outcome_call, hremoved]
    · rw [(h.occupied_upload_iff n u).2 he]
      exact h.remove n u hentry hbytes hsound
    · rintro id content ⟨hid, hcontent, hapart⟩
      refine ⟨hnext ▸ hid, (hbytes id).trans hcontent, fun n' u' hdata => ?_⟩
      rw [hentry] at hdata
      split at hdata
      · cases hdata
      · exact hapart n' u' hdata

end Reflects
end ContainerRegistry
