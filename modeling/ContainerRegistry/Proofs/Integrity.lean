/-
# What is stored is what it is stored as

A blob has the content that its digest names, whichever of the two ways it came
in. A layer link holds the path of a blob that is stored, a revision link names a
manifest that is stored, belongs to the repository and has all its layers linked
there, and a tag's link names a manifest that the repository holds under that
tag. An edit writes a link only where this is so, and takes nothing away that a
link needs, as long as digests tell the stored contents apart: a blob is never
given another content then. So no storage failure, at whatever call, leaves a
link behind that does not resolve.

Key definitions: `LinksResolve`.
Key theorems: `Edit.keeps_links`, `Reachable.blob_addressed`,
`Reachable.linksResolve`.
-/
import ContainerRegistry.Proofs.Pointing

namespace ContainerRegistry

/-- Every link of a store resolves. -/
structure LinksResolve (l : Layout) (t : MemoryStore) : Prop where
  /-- A layer link holds the path of its blob, which is stored. -/
  layer : ∀ n digest link, t.file? (l.path (.layerLink n digest)) = some link →
    link = Bytes.ofText (l.path (.blobData digest)).text ∧
      ∃ content, t.file? (l.path (.blobData digest)) = some content
  /-- A revision link holds its digest, under which a manifest of the repository is
  stored whose layers are all linked. -/
  revision : ∀ n digest link, t.file? (l.path (.revisionLink n digest)) = some link →
    link = Bytes.ofText digest.toText ∧
      ∃ content m, t.file? (l.path (.blobData digest)) = some content ∧
        SignedManifest.parse content = .ok m ∧ m.manifest.name = n.text ∧
        ∀ layer ∈ m.manifest.layers,
          ∃ target, t.file? (l.path (.layerLink n layer)) = some target
  /-- A tag's link holds the digest of a manifest that the repository holds under the tag. -/
  current : ∀ n tag link, t.file? (l.path (.currentLink n tag)) = some link →
    ∃ digest, link = Bytes.ofText digest.toText ∧
      (∃ revision, t.file? (l.path (.revisionLink n digest)) = some revision) ∧
      ∃ content m, t.file? (l.path (.blobData digest)) = some content ∧
        SignedManifest.parse content = .ok m ∧ m.manifest.tag = tag.text

namespace Edit

variable {l : Layout} {i : Intent} {s s' : MemoryStore} {contents : Bytes → Prop}

/-- A stored manifest is the document that its digest is put in for. -/
theorem manifest_stored (hs : s.Addressed l contents) (hseparates : Digest.Separates contents)
    {m : SignedManifest} (hoffered : contents m.raw) {content : Bytes}
    (hfile : s.file? (l.path (.blobData m.digest)) = some content) :
    s.file? (l.path (.blobData m.digest)) = some m.raw := by
  obtain ⟨haddressed, hcontent⟩ := hs m.digest content hfile
  rw [hfile, hseparates m.digest.algorithm content m.raw hcontent hoffered haddressed]

variable (h : Edit l i s s') (hoffers : ∀ content, i.offers content → contents content)
  (haddressed : s.Addressed l contents) (hseparates : Digest.Separates contents)
  (hs : LinksResolve l s)

include h hoffers haddressed hseparates hs in
theorem revision_resolves {n : RepositoryName} {digest : Digest} {link : Bytes}
    (hlink : s'.file? (l.path (.revisionLink n digest)) = some link) :
    link = Bytes.ofText digest.toText ∧
      ∃ content m, s'.file? (l.path (.blobData digest)) = some content ∧
        SignedManifest.parse content = .ok m ∧ m.manifest.name = n.text ∧
        ∀ layer ∈ m.manifest.layers,
          ∃ target, s'.file? (l.path (.layerLink n layer)) = some target := by
  have hkept : ∀ layers : List Digest,
      (∀ layer ∈ layers, ∃ target, s.file? (l.path (.layerLink n layer)) = some target) →
      ∀ layer ∈ layers, ∃ target, s'.file? (l.path (.layerLink n layer)) = some target := by
    intro layers hlayers layer hlayer
    obtain ⟨target, htarget⟩ := hlayers layer hlayer
    exact h.exists_file rfl rfl htarget
  rcases h.file? (.revisionLink n digest) rfl with hsame | ⟨bytes, hput, hputs⟩ | ⟨hgone, -⟩
  · obtain ⟨hholds, content, m, hcontent, hparsed, hname, hlayers⟩ :=
      hs.revision n digest link (hsame ▸ hlink)
    exact ⟨hholds, content, m, h.blob_kept hoffers haddressed hseparates hcontent, hparsed, hname,
      hkept _ hlayers⟩
  · obtain rfl : bytes = link := Option.some.inj (hput.symm.trans hlink)
    cases hputs with
    | @revision _ m _ offered parsed name layers stored =>
      have hstored := manifest_stored haddressed hseparates (hoffers _ offered) stored
      exact ⟨rfl, m.raw, m, h.blob_kept hoffers haddressed hseparates hstored, parsed, name,
        hkept _ layers⟩
  · cases hgone.symm.trans hlink

include h hoffers haddressed hseparates hs in
theorem current_resolves {n : RepositoryName} {tag : Tag} {link : Bytes}
    (hlink : s'.file? (l.path (.currentLink n tag)) = some link) :
    ∃ digest, link = Bytes.ofText digest.toText ∧
      (∃ revision, s'.file? (l.path (.revisionLink n digest)) = some revision) ∧
      ∃ content m, s'.file? (l.path (.blobData digest)) = some content ∧
        SignedManifest.parse content = .ok m ∧ m.manifest.tag = tag.text := by
  rcases h.file? (.currentLink n tag) rfl with hsame | ⟨bytes, hput, hputs⟩ | ⟨hgone, -⟩
  · obtain ⟨digest, hholds, ⟨revision, hrevision⟩, content, m, hcontent, hparsed, htagged⟩ :=
      hs.current n tag link (hsame ▸ hlink)
    exact ⟨digest, hholds, h.exists_file rfl rfl hrevision, content, m,
      h.blob_kept hoffers haddressed hseparates hcontent, hparsed, htagged⟩
  · obtain rfl : bytes = link := Option.some.inj (hput.symm.trans hlink)
    cases hputs with
    | @current _ _ m revision offered parsed tagged linked =>
      -- the revision link that is there already says that the manifest is stored
      obtain ⟨-, content, -, hcontent, -⟩ := hs.revision n m.digest revision linked
      have hstored := manifest_stored haddressed hseparates (hoffers _ offered) hcontent
      exact ⟨m.digest, rfl, h.exists_file rfl rfl linked, m.raw, m,
        h.blob_kept hoffers haddressed hseparates hstored, parsed, tagged⟩
  · cases hgone.symm.trans hlink

include h hoffers haddressed hseparates hs in
/-- **An edit leaves every link resolved.** -/
theorem keeps_links : LinksResolve l s' where
  layer n digest _ hlink := h.layer_points (hs.layer n digest) hlink
  revision _ _ _ hlink := h.revision_resolves hoffers haddressed hseparates hs hlink
  current _ _ _ hlink := h.current_resolves hoffers haddressed hseparates hs hlink

end Edit

variable {l : Layout} {w : World}

theorem linksResolve_empty : LinksResolve l MemoryStore.empty where
  layer _ _ _ h := absurd h (MemoryStore.file?_empty_ne _ _)
  revision _ _ _ h := absurd h (MemoryStore.file?_empty_ne _ _)
  current _ _ _ h := absurd h (MemoryStore.file?_empty_ne _ _)

theorem Edits.keeps_links {i : Intent} {s s' : MemoryStore} {contents : Bytes → Prop}
    (h : Edits l i s s') (hoffers : ∀ content, i.offers content → contents content)
    (haddressed : s.Addressed l contents) (hseparates : Digest.Separates contents)
    (hs : LinksResolve l s) : LinksResolve l s' := by
  have hboth : s'.Addressed l contents ∧ LinksResolve l s' :=
    h.preserve (fun t => t.Addressed l contents ∧ LinksResolve l t)
      (fun _ _ he ht => ⟨he.addressed hoffers ht.1, he.keeps_links hoffers ht.1 hseparates ht.2⟩)
      ⟨haddressed, hs⟩
  exact hboth.2

/-! ### Reachable worlds -/

namespace Reachable

/-- **A stored blob has the content that its digest names**, in either algorithm. -/
theorem blob_addressed (h : Reachable l w) (digest : Digest) (content : Bytes)
    (hfile : w.store.file? (l.path (.blobData digest)) = some content) :
    Digest.ofBytes digest.algorithm content = digest :=
  (h.inv.addressed digest content hfile).1

theorem blob_addressed_sha512 : ∃ w digest content, Reachable default w ∧
    w.store.file? (Layout.path default (.blobData digest)) = some content ∧
    Digest.ofBytes .sha512 content = digest := by
  obtain ⟨w, hw, -, -, ⟨content, hblob⟩, -⟩ := exists_layer (l := default) .empty
    ⟨"team/one", by decide⟩ ⟨"00000000-0000-0000-0000-000000000001", by decide⟩
    (by simp [World.empty]) [1, 2, 3] .sha512
  exact ⟨w, _, content, hw, hblob, blob_addressed hw _ content hblob⟩

/-- **In every reachable world every link resolves**, whichever storage calls failed
on the way, if digests tell apart the contents that were offered for storing. -/
theorem linksResolve (h : Reachable l w)
    (hseparates : Digest.Separates fun content => content ∈ w.offered) :
    LinksResolve l w.store := by
  induction h with
  | empty => exact linksResolve_empty
  | @step w reached d s admitted stored op fresh ih =>
    have hw : w.Inv l := reached.inv
    have hold : ∀ content, content ∈ w.offered → content ∈ op.offers l w ++ w.offered :=
      fun _ hc => List.mem_append_right _ hc
    have heffect := Session.act_effect hw admitted stored fresh
    refine (heffect.edits hw).keeps_links (fun _ hc => List.mem_append_left _ hc)
      (fun digest content hfile => ⟨(hw.addressed digest content hfile).1,
        hold _ (hw.addressed digest content hfile).2⟩) hseparates (ih ?_)
    exact fun algorithm x y hx hy => hseparates algorithm x y (hold x hx) (hold y hy)

theorem linksResolve_layer : ∃ w n digest link, Reachable default w ∧
    w.store.file? (Layout.path default (.layerLink n digest)) = some link ∧
    LinksResolve default w.store := by
  obtain ⟨w, hw, hoffered, -, -, hlink⟩ := exists_layer (l := default) .empty
    ⟨"team/one", by decide⟩ ⟨"00000000-0000-0000-0000-000000000001", by decide⟩
    (by simp [World.empty]) [1, 2, 3] .sha256
  refine ⟨w, _, _, _, hw, hlink, linksResolve hw ?_⟩
  intro algorithm x y hx hy _
  rw [hoffered] at hx hy
  rw [List.mem_singleton.1 hx, List.mem_singleton.1 hy]

end Reachable
end ContainerRegistry
