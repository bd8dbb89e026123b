/-
# What a directory of the store lists

A directory is listed by the next components of the files beneath it, each once.
In a store that is laid out, beneath the tags of a repository lie the links of
tags and nothing else, so that the tags of a repository are the sorted texts of
the tags that have a link.

Key definitions: `MemoryStore.IsTagged`.
Key theorems: `MemoryStore.mem_children_iff`, `MemoryStore.LaidOut.mem_children_tags`,
`Repository.outcome_tags`, `eq_of_increasing`.
-/
import ContainerRegistry.Proofs.Reliable
import Mathlib.Data.List.Nodup
import Mathlib.Data.String.Basic

namespace ContainerRegistry

open ContainerRegistry.Action

/-! ### Sorted lists of texts -/

/-- Sorting texts that are all different makes them increase. -/
theorem increasing_mergeSort {texts : List String} (h : texts.Nodup) :
    (texts.mergeSort fun a b => a ≤ b).Pairwise (· < ·) := by
  have hle : (texts.mergeSort fun a b => a ≤ b).Pairwise (· ≤ ·) := by
    refine (List.pairwise_mergeSort (fun a b c => ?_) (fun a b => ?_) texts).imp fun h => ?_
    · simpa using le_trans
    · simpa using le_total a b
    · simpa using h
  have hne : (texts.mergeSort fun a b => a ≤ b).Pairwise (· ≠ ·) :=
    (List.mergeSort_perm texts _).nodup_iff.2 h
  exact (hle.and hne).imp fun h => lt_of_le_of_ne h.1 h.2

/-- Increasing texts are known by which texts they are. -/
theorem eq_of_increasing {xs ys : List String} (hxs : xs.Pairwise (· < ·))
    (hys : ys.Pairwise (· < ·)) (h : ∀ text, text ∈ xs ↔ text ∈ ys) : xs = ys := by
  have hperm : xs.Perm ys :=
    (List.perm_ext_iff_of_nodup (hxs.imp ne_of_lt) (hys.imp ne_of_lt)).2 h
  exact hperm.eq_of_pairwise (fun _ _ _ _ hab hba => absurd hab (lt_asymm hba)) hxs hys

/-- The last component of a path that an inner component was joined to. -/
theorem Path.fileName?_join_inner (p : Path) {c : Component} (h : c.IsInner) :
    (p.join c.text).fileName? = c.name? := by
  have hjoin : (p.join c.text).components = p.components ++ [c] :=
    Path.components_join_inner p (by simp) (by simpa using h)
      (by simp [Path.parts, List.intercalate])
  rw [Path.fileName?, hjoin, List.getLast?_concat]
  cases c <;> rfl

theorem Path.fileName?_join (p : Path) {text : String} (h : Path.IsName text) :
    (p.join text).fileName? = some text :=
  p.fileName?_join_inner (c := .name text) h

namespace MemoryStore

variable (s : MemoryStore)

/-- The children of a directory are the next components of the files beneath it. -/
theorem mem_children_iff {p : Path} {c : Component} :
    c ∈ s.children p ↔ ∃ rest bytes, s.files[p.components ++ c :: rest]? = some bytes := by
  simp only [children, Std.TreeSet.mem_toList, Std.TreeSet.mem_ofList, List.contains_iff_mem,
    List.mem_filterMap, mem_keys_iff, Option.bind_eq_some_iff, Components.strip?_eq_some_iff]
  constructor
  · rintro ⟨place, ⟨bytes, hfile⟩, below, rfl, hhead⟩
    obtain ⟨rest, rfl⟩ := List.head?_eq_some_iff.1 hhead
    exact ⟨rest, bytes, hfile⟩
  · rintro ⟨rest, bytes, hfile⟩
    exact ⟨_, ⟨bytes, hfile⟩, c :: rest, rfl, rfl⟩

theorem nodup_children (p : Path) : (s.children p).Nodup := by
  refine Std.TreeSet.distinct_toList.imp fun hne e => hne ?_
  rw [e]
  exact Std.ReflCmp.compare_self

/-- A directory that is no file lists its children, if there are any. -/
theorem outcome_list {p : Path} (h : s.file? p = none) : (list p).outcome s =
    match s.children p with
    | [] => (.error (.notFound engine p), s)
    | children => (.ok (children.map fun c => p.join c.text), s) := by
  rw [list, Action.outcome_bind, Action.outcome_get]
  simp only [h, Option.isSome_none, Bool.false_eq_true, if_false]
  cases s.children p <;> rfl

/-- What is found in a place that holds no file. -/
theorem outcome_found_list {p : Path} (h : s.file? p = none) :
    ∃ entries, (found (list p)).outcome s = (.ok entries, s) ∧
      entries.getD [] = (s.children p).map fun c => p.join c.text := by
  have hlist := s.outcome_list h
  cases hchildren : s.children p with
  | nil =>
    rw [hchildren] at hlist
    exact ⟨none, outcome_found_missing rfl hlist, rfl⟩
  | cons c rest =>
    rw [hchildren] at hlist
    exact ⟨some ((c :: rest).map fun c => p.join c.text), outcome_found_ok hlist, rfl⟩

/-- A text is a tag of a repository that has a link. -/
def IsTagged (l : Layout) (n : RepositoryName) (text : String) : Prop :=
  ∃ (tag : Tag) (link : Bytes), tag.text = text ∧ s.file? (l.path (.currentLink n tag)) = some link

end MemoryStore

/-- The files beneath the tags of a repository are links of tags. -/
theorem Resource.file_beneath_tags {b : Resource} {n : RepositoryName} (hb : b.isFile = true)
    (h : (tags n).place <+: b.place) : ∃ tag, b = currentLink n tag := by
  obtain ⟨hown, he⟩ := owner?_eq_of_place_isPrefix (by simp) (rfl : (tags n).owner? = some n) h
  cases b <;> simp_all [owner?, isFile, entry, List.cons_prefix_cons]

namespace MemoryStore

variable {s : MemoryStore} {l : Layout}

/-- There is no file where a directory belongs. -/
theorem LaidOut.file?_directory (h : s.LaidOut l) {r : Resource} (hr : r.isFile = false) :
    s.file? (l.path r) = none := by
  refine Option.eq_none_iff_forall_ne_some.2 fun bytes hbytes => ?_
  obtain ⟨f, hf, he⟩ := h _ bytes hbytes
  rw [l.file_ext hf he.symm, hr] at hf
  cases hf

theorem LaidOut.mem_children_tags (h : s.LaidOut l) {n : RepositoryName} {c : Component} :
    c ∈ s.children (l.path (.tags n)) ↔
      ∃ text, c = .name text ∧ s.IsTagged l n text := by
  have hplace : ∀ tag : Tag, (l.path (.currentLink n tag)).components =
      (l.path (.tags n)).components ++ [.name tag.text, .name "current", .name "link"] := by
    intro tag
    simp [Layout.components_path, Resource.place, Resource.owner?, Resource.entry, Resource.within]
  rw [mem_children_iff]
  constructor
  · rintro ⟨rest, bytes, hfile⟩
    obtain ⟨f, hf, he⟩ := h _ bytes hfile
    have hwithin : Components.isWithin (l.path (.tags n)).components (l.path f).components = true :=
      Components.isWithin_iff.2 ⟨c :: rest, he.symm⟩
    obtain ⟨tag, rfl⟩ := Resource.file_beneath_tags hf ((l.isWithin_path_iff _ _).1 hwithin)
    rw [hplace, List.append_cancel_left_eq] at he
    obtain ⟨rfl, rfl⟩ := List.cons.inj he
    rw [← hplace] at hfile
    exact ⟨tag.text, rfl, tag, bytes, rfl, hfile⟩
  · rintro ⟨text, rfl, tag, link, rfl, hfile⟩
    refine ⟨[.name "current", .name "link"], link, ?_⟩
    rw [← hplace]
    exact hfile

end MemoryStore

namespace Repository

variable {t : MemoryStore} {l : Layout}

/-- **The tags of a repository are those that have a link**, in increasing order. -/
theorem outcome_tags (ht : t.LaidOut l) (n : RepositoryName) :
    ∃ texts, (Repository.tags ⟨l.inMemory, n⟩).outcome t = (.ok texts, t) ∧
      texts.Pairwise (· < ·) ∧ ∀ text, text ∈ texts ↔ t.IsTagged l n text := by
  obtain ⟨entries, hlist, hentries⟩ :=
    t.outcome_found_list (ht.file?_directory (r := .tags n) rfl)
  -- every entry goes by the text of its tag
  have hnames : ((t.children (l.path (.tags n))).map fun c =>
      (l.path (.tags n)).join c.text).filterMap Path.fileName? =
        (t.children (l.path (.tags n))).map Component.text := by
    rw [List.filterMap_map, List.filterMap_eq_map_iff_forall_eq_some]
    intro c hc
    obtain ⟨_, rfl, tag, _, rfl, _⟩ := ht.mem_children_tags.1 hc
    exact Path.fileName?_join _ tag.isName_text
  have hnodup : ((t.children (l.path (.tags n))).map Component.text).Nodup := by
    refine List.Nodup.map_on (fun c hc c' hc' he => ?_) (t.nodup_children _)
    obtain ⟨text, rfl, -⟩ := ht.mem_children_tags.1 hc
    obtain ⟨text', rfl, -⟩ := ht.mem_children_tags.1 hc'
    exact congrArg Component.name he
  refine ⟨((t.children (l.path (.tags n))).map Component.text).mergeSort fun a b => a ≤ b, ?_,
    increasing_mergeSort hnodup, fun text => ?_⟩
  · have hfound : (found (l.inMemory.storage.list (l.inMemory.path (.tags n)))).outcome t =
        (.ok entries, t) := hlist
    rw [tags, outcome_bind, hfound]
    simp only [outcome_pure, hentries, hnames]
  · rw [(List.mergeSort_perm _ _).mem_iff, List.mem_map]
    constructor
    · rintro ⟨c, hc, rfl⟩
      obtain ⟨text, rfl, htagged⟩ := ht.mem_children_tags.1 hc
      exact htagged
    · intro htagged
      exact ⟨.name text, ht.mem_children_tags.2 ⟨text, rfl, htagged⟩, rfl⟩

end Repository
end ContainerRegistry
