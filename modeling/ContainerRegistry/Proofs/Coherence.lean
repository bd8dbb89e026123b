/-
# Listing, describing and deleting agree

Storage in memory holds files only. That something is a directory, and what it lists, is
worked out from the places of the files at each call, and the three calls that do so do it
on their own: `stat` looks for a file at or beneath the path, `list` collects what comes
next in the places beneath it, `delete` takes all of them. They agree, also where a file
lies beneath another, in every store that calls can lead to.

That calls lead to it matters: an entry is the path joined with the text of a component,
and this is the component itself only after a place that some path has
(`MemoryStore.IsSpelled`). The root and a leading dot follow the empty path alone.

Key definitions: `Driver.Call`, `Driver.after`, `MemoryStore.IsListing`.
Key theorems: `MemoryStore.IsSpelled.after`, `MemoryStore.pairwise_children`,
`MemoryStore.IsSpelled.components_join`, `MemoryStore.IsSpelled.isListing`,
`MemoryStore.list_stat_delete_agree`.
-/
import ContainerRegistry.Proofs.FileMap
import ContainerRegistry.Proofs.Listing
import ContainerRegistry.Proofs.Subtree

namespace ContainerRegistry

open ContainerRegistry.Action

/-! ### Calls of a driver -/

/-- A call of a driver: a request for a file, or for what a directory lists. -/
inductive Driver.Call where
  | file (request : FileRequest)
  | list (p : Path)
  deriving DecidableEq, Repr

/-- What a call is answered. -/
inductive Driver.Reply where
  | file (reply : FileReply)
  | listed (entries : List Path)
  deriving DecidableEq, Repr

namespace Driver

variable {σ ρ : Type} (driver : Driver σ ρ)

/-- Makes a call. -/
def perform : Call → Action σ StorageError Reply
  | .file request => .file <$> driver.serve request
  | .list p => .listed <$> driver.list p

/-- The state after a call, whatever its answer. -/
def after (s : σ) (c : Call) : σ :=
  ((driver.perform c).outcome s).2

theorem after_file (s : σ) (request : FileRequest) :
    driver.after s (.file request) = ((driver.serve request).outcome s).2 := by
  rw [after, perform, outcome_map]

/-- Only opening a stream is a call of the driver: pulling from it changes nothing. -/
theorem after_read (s : σ) (p : Path) (offset : Nat) (pieces : List Nat) :
    driver.after s (.file (.read p offset pieces)) =
      ((driver.readStream p offset).outcome s).2 := by
  rw [after_file, serve, outcome_bind]
  rcases (driver.readStream p offset).outcome s with ⟨e | stream, t⟩
  · rfl
  · simp only [outcome_bind, outcome_get]
    cases driver.drain t pieces stream <;> rfl

theorem after_list (s : σ) (p : Path) :
    driver.after s (.list p) = ((driver.list p).outcome s).2 := by
  rw [after, perform, outcome_map]

end Driver

/-! ### Entries of a directory -/

/-- Only an empty part stands for nothing before the first slash. -/
theorem Path.eq_nil_of_firstComponent {part : List Char} (h : firstComponent part = none) :
    part = [] := by
  by_contra hpart
  by_cases hdot : part = ['.']
  · rw [firstComponent, if_pos hdot] at h
    cases h
  · rw [firstComponent, if_neg hdot, laterComponent, if_neg (by simp [hpart, hdot])] at h
    split at h <;> cases h

/-- Only the empty text has no components. -/
theorem Path.text_eq_nil {p : Path} (h : p.components = []) : p.text.toList = [] := by
  obtain ⟨part, rest, hparts⟩ := List.exists_cons_of_ne_nil (List.splitOn_ne_nil '/' p.text.toList)
  rw [components, hparts] at h
  by_cases hrest : rest = []
  · subst hrest
    rw [ofParts, Option.toList_eq_nil_iff] at h
    obtain rfl := eq_nil_of_firstComponent h
    exact splitOn_eq_nil_singleton hparts
  · -- an empty part before a slash is the root
    rw [ofParts_cons part hrest, List.append_eq_nil_iff] at h
    obtain ⟨hfirst, -⟩ := h
    by_cases hpart : part = []
    · simp [hpart] at hfirst
    · rw [if_neg hpart, Option.toList_eq_nil_iff] at hfirst
      exact absurd (eq_nil_of_firstComponent hfirst) hpart

/-- What follows a path in the place of another is added to it by joining its text. -/
theorem Path.components_join_of_append {p q : Path} {c : Component} {rest : List Component}
    (h : q.components = p.components ++ c :: rest) :
    (p.join c.text).components = p.components ++ [c] := by
  have hinner : c.IsInner → (p.join c.text).components = p.components ++ [c] := fun hc =>
    components_join_inner p (by simp) (by simpa using hc) (by simp [parts, List.intercalate])
  by_cases hp : p.components = []
  · have hempty := text_eq_nil hp
    obtain ⟨first, inner, he, hinners, hfirst⟩ := q.components_eq
    rw [hp, List.nil_append] at h
    rw [h] at he
    cases first with
    | none =>
      rw [Option.toList_none, List.nil_append] at he
      exact hinner (hinners c (he ▸ List.mem_cons_self))
    | some d =>
      obtain ⟨rfl, -⟩ := List.cons.inj he
      -- the root and a dot follow the empty text
      rcases hfirst c rfl with rfl | rfl | hc
      · have hjoin : p.join Component.root.text = ⟨"/"⟩ := if_pos (by decide)
        rw [hjoin, hp]
        decide
      · have hjoin : p.join Component.here.text = ⟨"."⟩ := by
          rw [join, if_neg (by decide), if_pos (Or.inl hempty), String.toList_eq_nil_iff.1 hempty]
          rfl
        rw [hjoin, hp]
        decide
      · exact hinner hc
  · exact hinner (q.isInner_of_components h hp c List.mem_cons_self)

/-- Places are ordered by what follows a common part. -/
theorem compare_append {α : Type} [Ord α] [Std.ReflOrd α] (base : List α) (c d : α) :
    compare (base ++ [c]) (base ++ [d]) = compare c d := by
  induction base with
  | nil =>
    show List.compareLex compare [c] [d] = _
    rw [List.compareLex_cons_cons, List.compareLex_nil_nil, Ordering.then_eq]
  | cons b base ih =>
    show List.compareLex compare (b :: (base ++ [c])) (b :: (base ++ [d])) = _
    rw [List.compareLex_cons_cons, Std.compare_self]
    exact ih

namespace MemoryStore

variable {s : MemoryStore} {p : Path}

/-! ### Stores that calls lead to -/

/-- **Calls keep every file at the place of a path**, those that fail included. -/
theorem IsSpelled.after (h : s.IsSpelled) (c : Driver.Call) : (driver.after s c).IsSpelled := by
  cases c with
  | list p =>
    have hlist : driver.after s (.list p) = s :=
      (driver.after_list s p).trans (s.outcome_list_snd p)
    rw [hlist]
    exact h
  | file request =>
    cases request with
    | put p bytes =>
      rw [Driver.after_file, Driver.serve, outcome_map]
      exact h.put p bytes
    | get p =>
      have hget := s.outcome_getContent p
      rw [Driver.after_file, Driver.serve, outcome_map]
      show ((getContent p).outcome s).2.IsSpelled
      rw [hget]
      split <;> exact h
    | write p offset source =>
      rw [Driver.after_file, Driver.serve, outcome_map]
      show ((writeStream p offset source).outcome s).2.IsSpelled
      rw [s.outcome_writeStream]
      split
      · exact h
      · split
        · exact h
        · exact h.put p _
    | read p offset pieces =>
      rw [Driver.after_read]
      show ((readStream p offset).outcome s).2.IsSpelled
      rw [s.outcome_readStream]
      split
      · split <;> exact h
      · exact h
    | stat p =>
      rw [Driver.after_file, Driver.serve, outcome_map]
      show ((stat p).outcome s).2.IsSpelled
      rw [s.outcome_stat]
      split
      · exact h
      · split <;> exact h
    | delete p =>
      rw [Driver.after_file, Driver.serve, outcome_map]
      show ((delete p).outcome s).2.IsSpelled
      rw [s.outcome_delete]
      split
      · exact h.remove p
      · exact h
    | rename source destination =>
      rw [Driver.after_file, Driver.serve, outcome_map]
      show ((rename source destination).outcome s).2.IsSpelled
      rw [s.outcome_rename]
      split
      · exact h.move source destination
      · exact h

theorem IsSpelled.foldl_after {calls : List Driver.Call} (h : s.IsSpelled) :
    (calls.foldl driver.after s).IsSpelled := by
  induction calls generalizing s with
  | nil => exact h
  | cons c calls ih => exact ih (h.after c)

/-! ### What a directory lists -/

/-- The children of a directory are in order. -/
theorem pairwise_children (s : MemoryStore) (p : Path) :
    (s.children p).Pairwise fun c d => compare c d = .lt :=
  Std.TreeSet.ordered_toList

theorem occupied_of_file {bytes : Bytes} (h : s.file? p = some bytes) : s.occupied p = true :=
  s.occupied_iff.2 ⟨_, bytes, h, Components.isWithin_iff.2 ⟨[], (List.append_nil _).symm⟩⟩

/-- Where there is no file, there are children as soon as something lies beneath. -/
theorem children_eq_nil_iff (h : s.file? p = none) :
    s.children p = [] ↔ ¬ s.occupied p = true := by
  rw [not_occupied_iff, List.eq_nil_iff_forall_not_mem]
  constructor
  · intro hchildren rest
    cases rest with
    | nil =>
      rw [List.append_nil]
      exact h
    | cons c rest =>
      exact Option.eq_none_iff_forall_ne_some.2 fun bytes hfile =>
        hchildren c (s.mem_children_iff.2 ⟨rest, bytes, hfile⟩)
  · intro hvacant c hc
    obtain ⟨rest, bytes, hfile⟩ := s.mem_children_iff.1 hc
    rw [hvacant] at hfile
    cases hfile

theorem file?_of_vacant (h : ¬ s.occupied p = true) : s.file? p = none :=
  Option.eq_none_iff_forall_ne_some.2 fun _ hfile => h (occupied_of_file hfile)

theorem outcome_stat_vacant (h : ¬ s.occupied p = true) :
    (driver.stat p).outcome s = (.error (.notFound engine p), s) := by
  have hstat : (driver.stat p).outcome s = _ := s.outcome_stat p
  rw [hstat, file?_of_vacant h]
  exact if_neg h

theorem outcome_list_vacant (h : ¬ s.occupied p = true) :
    (driver.list p).outcome s = (.error (.notFound engine p), s) := by
  have hfile := file?_of_vacant h
  have hlist : (driver.list p).outcome s = _ := s.outcome_list hfile
  rw [hlist, (children_eq_nil_iff hfile).2 h]

/-- Of the three ways in which a listing can end, each has its place: a file is refused,
nothing is missing, and everything else is listed. -/
theorem outcome_list_cases (s : MemoryStore) (p : Path) :
    (∃ bytes e, s.file? p = some bytes ∧ (driver.list p).outcome s = (.error e, s) ∧
      e.kind = .invalidRequest) ∨
    (¬ s.occupied p = true ∧ (driver.list p).outcome s = (.error (.notFound engine p), s)) ∨
    (s.file? p = none ∧ s.occupied p = true ∧
      (driver.list p).outcome s = (.ok ((s.children p).map fun c => p.join c.text), s)) := by
  cases hfile : s.file? p with
  | some bytes =>
    let e : StorageError :=
      ⟨.invalidRequest, engine, some p.text, some "list", s!"not a directory: {p.text}"⟩
    refine Or.inl ⟨bytes, e, rfl, ?_, rfl⟩
    show (list p).outcome s = _
    rw [list, Action.outcome_bind, Action.outcome_get]
    simp only [hfile, Option.isSome_some, if_true]
    rfl
  | none =>
    right
    by_cases hoccupied : s.occupied p = true
    · have hlist : (driver.list p).outcome s = _ := s.outcome_list hfile
      obtain ⟨c, children, hchildren⟩ :=
        List.exists_cons_of_ne_nil fun he => (children_eq_nil_iff hfile).1 he hoccupied
      rw [hchildren] at hlist ⊢
      exact Or.inr ⟨rfl, hoccupied, hlist⟩
    · exact Or.inl ⟨hoccupied, outcome_list_vacant hoccupied⟩

theorem list_refused_iff :
    (∃ e, ((driver.list p).outcome s).1 = .error e ∧ e.kind = .invalidRequest) ↔
      ∃ bytes, s.file? p = some bytes := by
  rcases s.outcome_list_cases p with ⟨bytes, e, hfile, hlist, hkind⟩ | ⟨hvacant, hlist⟩ |
    ⟨hfile, -, hlist⟩
  · simp [hlist, hkind, hfile]
  · simp [hlist, file?_of_vacant hvacant, StorageError.notFound]
  · simp [hlist, hfile]

theorem list_missing_iff :
    (∃ e, ((driver.list p).outcome s).1 = .error e ∧ e.isNotFound = true) ↔
      ¬ s.occupied p = true := by
  rcases s.outcome_list_cases p with ⟨bytes, e, hfile, hlist, hkind⟩ | ⟨hvacant, hlist⟩ |
    ⟨-, hoccupied, hlist⟩
  · simp [hlist, StorageError.isNotFound, hkind, occupied_of_file hfile]
  · simp [hlist, hvacant, StorageError.notFound, StorageError.isNotFound]
  · simp [hlist, hoccupied]

theorem list_ok_iff {entries : List Path} :
    ((driver.list p).outcome s).1 = .ok entries ↔
      s.file? p = none ∧ s.occupied p = true ∧
        entries = (s.children p).map fun c => p.join c.text := by
  rcases s.outcome_list_cases p with ⟨bytes, e, hfile, hlist, -⟩ | ⟨hvacant, hlist⟩ |
    ⟨hfile, hoccupied, hlist⟩
  · simp [hlist, hfile]
  · simp [hlist, hvacant]
  · simp [hlist, hfile, hoccupied, eq_comm]

/-- Something is at a path if it can be described. -/
theorem stat_ok_iff :
    (∃ m, ((driver.stat p).outcome s).1 = .ok m) ↔ s.occupied p = true := by
  show (∃ m, ((stat p).outcome s).1 = .ok m) ↔ _
  rw [s.outcome_stat]
  cases hfile : s.file? p with
  | some bytes => simp [occupied_of_file hfile]
  | none => by_cases hoccupied : s.occupied p = true <;> simp [hoccupied]

theorem stat_missing_iff :
    (∃ e, ((driver.stat p).outcome s).1 = .error e ∧ e.isNotFound = true) ↔
      ¬ s.occupied p = true := by
  show (∃ e, ((stat p).outcome s).1 = .error e ∧ e.isNotFound = true) ↔ _
  rw [s.outcome_stat]
  cases hfile : s.file? p with
  | some bytes => simp [occupied_of_file hfile]
  | none =>
    by_cases hoccupied : s.occupied p = true
    · simp [hoccupied]
    · simp [hoccupied, StorageError.notFound, StorageError.isNotFound]

theorem stat_directory_iff :
    (∃ m, ((driver.stat p).outcome s).1 = .ok m ∧ m.isDirectory = true) ↔
      s.file? p = none ∧ s.occupied p = true := by
  show (∃ m, ((stat p).outcome s).1 = .ok m ∧ m.isDirectory = true) ↔ _
  rw [s.outcome_stat]
  cases hfile : s.file? p with
  | some bytes => simp
  | none => by_cases hoccupied : s.occupied p = true <;> simp [hoccupied]

theorem delete_ok_iff :
    ((driver.delete p).outcome s).1 = .ok () ↔ s.occupied p = true := by
  show ((delete p).outcome s).1 = .ok () ↔ _
  rw [s.outcome_delete]
  split <;> simp_all

theorem eq_remove_of_delete {t : MemoryStore} (h : (driver.delete p).outcome s = (.ok (), t)) :
    t = s.remove p := by
  have hdelete : (driver.delete p).outcome s = _ := s.outcome_delete p
  rw [hdelete] at h
  split at h
  · exact (Prod.mk.inj h).2.symm
  · cases h

theorem not_occupied_remove (s : MemoryStore) (p : Path) : ¬ (s.remove p).occupied p = true := by
  refine not_occupied_iff.2 fun rest => ?_
  rw [getElem?_remove, if_pos (Components.isWithin_iff.2 ⟨rest, rfl⟩)]

/-- What a listing of a directory shows: entries one component beneath it, in order, each
of which is there, and among which each file beneath the directory has exactly one to be
found under. -/
structure IsListing (s : MemoryStore) (p : Path) (entries : List Path) : Prop where
  nonempty : entries ≠ []
  increasing : entries.Pairwise fun q q' => compare q.components q'.components = .lt
  extended : ∀ q ∈ entries, ∃ c, q.components = p.components ++ [c]
  described : ∀ q ∈ entries, ∃ m, ((driver.stat q).outcome s).1 = .ok m
  covers : ∀ place bytes, s.files[place]? = some bytes → p.components <+: place →
    place ≠ p.components → ∃! q, q ∈ entries ∧ q.components <+: place

theorem IsSpelled.components_join (h : s.IsSpelled) {c : Component} (hc : c ∈ s.children p) :
    (p.join c.text).components = p.components ++ [c] := by
  obtain ⟨rest, bytes, hfile⟩ := s.mem_children_iff.1 hc
  obtain ⟨q, hq⟩ := h _ bytes hfile
  exact Path.components_join_of_append hq

/-- **The children, joined to the directory, are its listing.** -/
theorem IsSpelled.isListing (h : s.IsSpelled) (hchildren : s.children p ≠ []) :
    s.IsListing p ((s.children p).map fun c => p.join c.text) where
  nonempty := by simpa using hchildren
  increasing := by
    rw [List.pairwise_map]
    refine (s.pairwise_children p).imp_of_mem fun {c d} hc hd hlt => ?_
    rw [h.components_join hc, h.components_join hd, compare_append]
    exact hlt
  extended := by
    intro q hq
    obtain ⟨c, hc, rfl⟩ := List.mem_map.1 hq
    exact ⟨c, h.components_join hc⟩
  described := by
    intro q hq
    obtain ⟨c, hc, rfl⟩ := List.mem_map.1 hq
    obtain ⟨rest, bytes, hfile⟩ := s.mem_children_iff.1 hc
    rw [stat_ok_iff, s.occupied_iff]
    refine ⟨_, bytes, hfile, Components.isWithin_iff.2 ⟨rest, ?_⟩⟩
    rw [h.components_join hc, List.append_assoc, List.singleton_append]
  covers := by
    rintro _ bytes hfile ⟨rest, rfl⟩ hne
    have hrest : rest ≠ [] := fun he => hne (by rw [he, List.append_nil])
    obtain ⟨c, rest, rfl⟩ := List.exists_cons_of_ne_nil hrest
    have hc : c ∈ s.children p := s.mem_children_iff.2 ⟨rest, bytes, hfile⟩
    refine ⟨p.join c.text, ⟨List.mem_map.2 ⟨c, hc, rfl⟩, ?_⟩, ?_⟩
    · rw [h.components_join hc]
      exact ⟨rest, by rw [List.append_assoc, List.singleton_append]⟩
    · rintro q ⟨hq, hbeneath⟩
      obtain ⟨d, hd, rfl⟩ := List.mem_map.1 hq
      rw [h.components_join hd, List.prefix_append_right_inj, List.singleton_prefix_cons_iff]
        at hbeneath
      rw [hbeneath]

/-! ### The three calls agree -/

/-- **Listing, describing and deleting agree** in every store that calls lead to. A path is
refused as a directory where it has a file, and it has a listing where it is described as a
directory, and is missing for the one when it is for the other. What can be described can be
deleted; it is gone then, and what is not at or beneath it is as it was. -/
theorem list_stat_delete_agree (calls : List Driver.Call) (p : Path) :
    let s := calls.foldl driver.after empty
    ((∃ e, ((driver.list p).outcome s).1 = .error e ∧ e.kind = .invalidRequest) ↔
      ∃ bytes, s.file? p = some bytes) ∧
    ((∃ e, ((driver.list p).outcome s).1 = .error e ∧ e.isNotFound = true) ↔
      ∃ e, ((driver.stat p).outcome s).1 = .error e ∧ e.isNotFound = true) ∧
    ((∃ entries, ((driver.list p).outcome s).1 = .ok entries) ↔
      ∃ m, ((driver.stat p).outcome s).1 = .ok m ∧ m.isDirectory = true) ∧
    (∀ entries, ((driver.list p).outcome s).1 = .ok entries → s.IsListing p entries) ∧
    (((driver.delete p).outcome s).1 = .ok () ↔ ∃ m, ((driver.stat p).outcome s).1 = .ok m) ∧
    ∀ t, (driver.delete p).outcome s = (.ok (), t) →
      (∃ e, ((driver.stat p).outcome t).1 = .error e ∧ e.isNotFound = true) ∧
      ∀ place, ¬ p.components <+: place → t.files[place]? = s.files[place]? := by
  intro s
  have h : s.IsSpelled := isSpelled_empty.foldl_after
  rw [list_refused_iff, list_missing_iff, stat_missing_iff, stat_directory_iff, stat_ok_iff]
  refine ⟨Iff.rfl, Iff.rfl, ?_, ?_, delete_ok_iff, ?_⟩
  · constructor
    · rintro ⟨entries, hlist⟩
      obtain ⟨hfile, hoccupied, -⟩ := list_ok_iff.1 hlist
      exact ⟨hfile, hoccupied⟩
    · rintro ⟨hfile, hoccupied⟩
      exact ⟨_, list_ok_iff.2 ⟨hfile, hoccupied, rfl⟩⟩
  · intro entries hlist
    obtain ⟨hfile, hoccupied, rfl⟩ := list_ok_iff.1 hlist
    exact h.isListing fun hnil => (children_eq_nil_iff hfile).1 hnil hoccupied
  · intro t hdelete
    obtain rfl := eq_remove_of_delete hdelete
    refine ⟨stat_missing_iff.2 (not_occupied_remove s p), fun place hplace => ?_⟩
    rw [getElem?_remove, if_neg (by rwa [Components.isWithin_iff_isPrefix])]

end MemoryStore

end ContainerRegistry
