/-
# Clearing the destination of a rename in a file tree

The local driver looks at the source, makes the directories above the destination, removes a
directory that is at the destination, and then gives the source its new name. When one of the
two places lies at or beneath the other, the last of these steps moves nothing: the system
refuses it, or a file already has the name. What is left of the call is that the directory at
the destination is gone with all that was beneath it.

The two paths may hold no step up. Nothing else is asked of them: a route that the system does
not take, or that asks for a directory, ends the call at one of its steps.

Key definitions: `Disk.Built`, `Disk.Cleared`, `Disk.Admits`, `LocalStore.Clears`.
Key theorems: `Disk.built_createReversed`, `Disk.cleared_removeTree`, `Disk.outcome_rename_cases`,
`Disk.outcome_rename_overlapping`, `LocalStore.outcome_rename_overlapping`.
-/
import ContainerRegistry.Proofs.Calls
import ContainerRegistry.Proofs.Directories

namespace ContainerRegistry

open ContainerRegistry.Action

namespace Disk

variable {d d' : Disk} {r r' : Route} {names names' p : List String} {x : String}

/-! ### Directories that are made -/

/-- The tree `d'` is `d` with more directories. -/
structure Built (d d' : Disk) : Prop where
  entryAt? : ∀ q, d'.entryAt? q = d.entryAt? q ∨
    d.entryAt? q = none ∧ d'.entryAt? q = some .directory
  contents : d'.contents = d.contents

namespace Built

theorem refl (d : Disk) : d.Built d :=
  ⟨fun _ => Or.inl rfl, rfl⟩

theorem kept (h : d.Built d') {q : List String} {e : Entry} (he : d.entryAt? q = some e) :
    d'.entryAt? q = some e := by
  rcases h.entryAt? q with hsame | ⟨hnone, -⟩
  · exact hsame.trans he
  · cases hnone.symm.trans he

theorem file (h : d.Built d') {q : List String} {id : Nat}
    (he : d'.entryAt? q = some (.file id)) : d.entryAt? q = some (.file id) := by
  rcases h.entryAt? q with hsame | ⟨-, hdirectory⟩
  · exact hsame.symm.trans he
  · cases hdirectory.symm.trans he

theorem trans {d'' : Disk} (h : d.Built d') (h' : d'.Built d'') : d.Built d'' where
  entryAt? q := by
    rcases h'.entryAt? q with hsame | ⟨hnone, hdirectory⟩
    · rw [hsame]
      exact h.entryAt? q
    · refine Or.inr ⟨Option.eq_none_iff_forall_ne_some.2 fun e he => ?_, hdirectory⟩
      cases hnone.symm.trans (h.kept he)
  contents := h'.contents.trans h.contents

theorem bytes (h : d.Built d') (id : Nat) : d'.bytes id = d.bytes id := by
  rw [Disk.bytes, Disk.bytes, h.contents]

/-- The files are those that there were. -/
theorem content? (h : d.Built d') (q : List String) : d'.content? q = d.content? q := by
  rcases h.entryAt? q with hsame | ⟨hnone, hdirectory⟩
  · exact content?_congr hsame fun id _ => h.bytes id
  · rw [content?_eq_none (by simp [hdirectory]), content?_eq_none (by simp [hnone])]

theorem isDirectory (h : d.Built d') (hsteps : r.steps = names.map .name)
    (hd : d.isDirectory r = true) : d'.isDirectory r = true := by
  obtain ⟨hfault, hshort, habove⟩ := (isDirectory_iff hsteps).1 hd
  exact (isDirectory_iff hsteps).2 ⟨hfault, hshort, fun q hq => h.kept (habove q hq)⟩

end Built

theorem built_makeDirectory (r : Route) (d : Disk) : d.Built ((makeDirectory r).outcome d).2 := by
  rw [makeDirectory, outcome_bind, outcome_submit_eq]
  cases r.fault? with
  | some e => exact .refl d
  | none =>
    simp only [Option.elim_none, outcome_bind, outcome_get, outcome_answer]
    rcases d.target r.steps with e | place | ⟨parent, text⟩
    · exact .refl d
    · exact .refl d
    simp only [Except.mapError]
    cases hentry : d.entryAt? (parent ++ [text]) with
    | some e => exact .refl d
    | none =>
      refine ⟨fun q => ?_, rfl⟩
      simp only [outcome_set, entryAt?_addDirectory (p := parent ++ [text]) (by simp)]
      by_cases hq : q = parent ++ [text]
      · rw [if_pos hq, hq]
        exact Or.inr ⟨hentry, rfl⟩
      · exact Or.inl (if_neg hq)

theorem built_ensureDirectory (r : Route) (d : Disk) :
    d.Built ((ensureDirectory r).outcome d).2 := by
  have hmade := built_makeDirectory r d
  rw [ensureDirectory, outcome_bind, outcome_attempt]
  rcases hx : (makeDirectory r).outcome d with ⟨e | u, d'⟩
  · rw [hx] at hmade
    simp only [outcome_bind, outcome_get]
    split <;> exact hmade
  · rw [hx] at hmade
    exact hmade

/-- Making directories does nothing else, whether it succeeds or not. -/
theorem built_createReversed : ∀ (parts : List Part) (d : Disk),
    d.Built ((createReversed parts).outcome d).2
  | [], d => .refl d
  | .blank :: above, d | .dot :: above, d => built_createReversed above d
  | .step s :: above, d => by
    have hmade := built_makeDirectory ⟨(.step s :: above).reverse⟩ d
    rw [createReversed, outcome_bind, outcome_attempt]
    rcases hx : (makeDirectory ⟨(.step s :: above).reverse⟩).outcome d with ⟨e | u, d'⟩
    · rw [hx] at hmade
      simp only [hx]
      split
      · exact hmade
      · have habove := built_createReversed above d'
        rw [outcome_bind]
        rcases hy : (createReversed above).outcome d' with ⟨e' | u', d''⟩
        · rw [hy] at habove
          exact hmade.trans habove
        · rw [hy] at habove
          exact (hmade.trans habove).trans (built_ensureDirectory _ d'')
      · simp only [outcome_bind, outcome_get]
        split <;> exact hmade
    · rw [hx] at hmade
      simp only [hx]
      exact hmade

/-! ### A directory that is cleared -/

/-- The tree `d'` is `d` without the files at and beneath a place. -/
structure Cleared (d d' : Disk) (place : List String) : Prop where
  outside : ∀ q, ¬ place <+: q → d'.entryAt? q = d.entryAt? q
  beneath : ∀ q, place <+: q → ∀ id, d'.entryAt? q ≠ some (.file id)
  contents : d'.contents = d.contents

theorem Cleared.content? (h : d.Cleared d' names) (q : List String) :
    d'.content? q = if names <+: q then none else d.content? q := by
  by_cases hq : names <+: q
  · rw [if_pos hq, content?_eq_none (h.beneath q hq)]
  · rw [if_neg hq]
    exact content?_congr (h.outside q hq) fun id _ => by rw [Disk.bytes, Disk.bytes, h.contents]

theorem cleared_clear (d : Disk) (names : List String) : d.Cleared (d.clear names) names where
  outside q hq := by
    rw [entryAt?_clear, if_neg fun he : q = names => hq (he ▸ List.prefix_rfl), if_neg hq]
  beneath q hq id he := by
    rw [entryAt?_clear, if_pos hq] at he
    split at he <;> cases he
  contents := contents_clear d names

/-- Removing a directory clears it, and succeeds only if nothing is left of it. -/
theorem cleared_removeTree (hsteps : r.steps = names.map .name) (h : d.isDirectory r = true) :
    ∃ x d', (removeTree r).outcome d = (x, d') ∧ d.Cleared d' names ∧
      (x = .ok () → ∀ q, names <+: q → d'.entryAt? q = none) := by
  have hremoved := outcome_removeTree_of_steps hsteps h
  by_cases hlast : r.last? = none
  · rw [if_pos hlast] at hremoved
    exact ⟨_, _, hremoved, cleared_clear d names, fun hok => by cases hok⟩
  · rw [if_neg hlast] at hremoved
    have hne : names ≠ [] := by
      obtain ⟨x, hx⟩ := Option.ne_none_iff_exists'.1 hlast
      obtain ⟨p, rfl, -⟩ := of_last? hsteps hx
      simp
    have hgone : ∀ q, names <+: q → ((d.clear names).prune names).entryAt? q = none := by
      intro q hq
      rw [entryAt?_prune hne, if_pos hq]
    refine ⟨_, _, hremoved, ⟨fun q hq => ?_, fun q hq id he => ?_, contents_clear d names⟩,
      fun _ => hgone⟩
    · rw [entryAt?_prune_clear hne, entryAt?_prune hne, if_neg hq]
    · rw [hgone q hq] at he
      cases he

/-! ### Renaming -/

/-- A call that leaves the tree alone fails, or goes on with what it answers. -/
theorem outcome_bind_cases {α β : Type} {call : Call α} {next : α → Call β}
    (hquiet : (call.outcome d).2 = d) :
    (∃ e, (call >>= next).outcome d = (.error e, d)) ∨
      ∃ a, (call.outcome d).1 = .ok a ∧ (call >>= next).outcome d = (next a).outcome d := by
  rw [outcome_bind]
  rcases ho : call.outcome d with ⟨e | a, d'⟩
  · rw [ho] at hquiet
    exact Or.inl ⟨e, congrArg (Prod.mk _) hquiet⟩
  · rw [ho] at hquiet
    exact Or.inr ⟨a, rfl, congrArg (next a).outcome hquiet⟩

/-- What the system asks for before it gives the entry at a place another name: directories above
both, neither place beneath the other, and an entry that the routes may lead to. -/
structure Admits (d : Disk) (r r' : Route) (p p' : List String) (x x' : String) (entry : Entry) :
    Prop where
  fault : r.fault? = none ∧ r'.fault? = none
  walk : d.walk [] r.leading = .ok p ∧ d.walk [] r'.leading = .ok p'
  last : r.last? = some x ∧ r'.last? = some x'
  short : x.utf8ByteSize ≤ Route.longestName ∧ x'.utf8ByteSize ≤ Route.longestName
  entry : d.entryAt? (p ++ [x]) = some entry
  notInside : ¬ isWithin (p ++ [x]) p' = true
  notAbove : ¬ isWithin (p' ++ [x']) p = true

/-- **A rename fails, does nothing or gives an entry another place.** -/
theorem outcome_rename_cases (r r' : Route) (d : Disk) :
    (∃ e, (rename r r').outcome d = (.error e, d)) ∨
      ∃ p p' x x' entry, d.Admits r r' p p' x x' entry ∧ (rename r r').outcome d =
        (.ok (), if p ++ [x] = p' ++ [x'] then d else d.relabel (p ++ [x]) (p' ++ [x'])) := by
  rw [rename]
  rcases outcome_bind_cases (outcome_submit_snd r d) with hfailed | ⟨⟨⟩, hsubmit, hgo⟩
  · exact Or.inl hfailed
  rw [hgo]
  rcases outcome_bind_cases (outcome_submit_snd r' d) with hfailed | ⟨⟨⟩, hsubmit', hgo⟩
  · exact Or.inl hfailed
  rw [hgo, outcome_bind, outcome_get]
  simp only
  rcases outcome_bind_cases (outcome_answer_snd (d.walk [] r.leading) d) with
    hfailed | ⟨p, hwalk, hgo⟩
  · exact Or.inl hfailed
  rw [hgo]
  rcases outcome_bind_cases (outcome_answer_snd (d.walk [] r'.leading) d) with
    hfailed | ⟨p', hwalk', hgo⟩
  · exact Or.inl hfailed
  rw [hgo]
  rcases hlast : r.last? with _ | x
  · exact Or.inl ⟨_, rfl⟩
  rcases hlast' : r'.last? with _ | x'
  · exact Or.inl ⟨_, rfl⟩
  simp only
  by_cases hlong : Route.longestName < x.utf8ByteSize
  · exact Or.inl ⟨_, by rw [if_pos hlong]; rfl⟩
  rw [if_neg hlong]
  rcases hentry : d.entryAt? (p ++ [x]) with _ | entry
  · exact Or.inl ⟨_, rfl⟩
  simp only
  by_cases hlong' : Route.longestName < x'.utf8ByteSize
  · exact Or.inl ⟨_, by rw [if_pos hlong']; rfl⟩
  rw [if_neg hlong']
  by_cases hasks : (entry != .directory && (r.asksDirectory || r'.asksDirectory)) = true
  · exact Or.inl ⟨_, by rw [if_pos hasks]; rfl⟩
  rw [if_neg hasks]
  by_cases hinside : isWithin (p ++ [x]) p' = true
  · exact Or.inl ⟨_, by rw [if_pos hinside]; rfl⟩
  rw [if_neg hinside]
  by_cases habove : isWithin (p' ++ [x']) p = true
  · exact Or.inl ⟨_, by rw [if_pos habove]; rfl⟩
  rw [if_neg habove]
  have hadmits : d.Admits r r' p p' x x' entry :=
    ⟨⟨of_outcome_submit hsubmit, of_outcome_submit hsubmit'⟩,
      ⟨of_outcome_answer hwalk, of_outcome_answer hwalk'⟩, ⟨hlast, hlast'⟩,
      ⟨Nat.not_lt.1 hlong, Nat.not_lt.1 hlong'⟩, hentry, hinside, habove⟩
  by_cases he : p ++ [x] = p' ++ [x']
  · rw [← he, hentry]
    refine Or.inr ⟨p, p', x, x', entry, hadmits, ?_⟩
    rw [if_pos he]
    cases entry with
    | directory =>
      simp only [bne_self_eq_false, Bool.false_eq_true, if_false, if_true]
      rfl
    | file id =>
      have hfile : (Entry.file id != .directory) = true := rfl
      simp only [hfile, Bool.not_true, Bool.false_eq_true, if_false, if_true]
      rfl
  have hmoved : ∀ u : Unit, (Except.ok u, d.relabel (p ++ [x]) (p' ++ [x'])) =
      ((Except.ok (), if p ++ [x] = p' ++ [x'] then d else d.relabel (p ++ [x]) (p' ++ [x'])) :
        Except IoError Unit × Disk) := fun u => by rw [if_neg he]
  rcases d.entryAt? (p' ++ [x']) with _ | _ | id
  · exact Or.inr ⟨p, p', x, x', entry, hadmits, hmoved ()⟩
  · cases entry with
    | file id => exact Or.inl ⟨_, rfl⟩
    | directory =>
      simp only [bne_self_eq_false, Bool.false_eq_true, if_false, if_neg he]
      by_cases hempty : (d.names (p' ++ [x'])).isEmpty = true
      · rw [if_pos hempty]
        exact Or.inr ⟨p, p', x, x', .directory, hadmits, hmoved ()⟩
      · exact Or.inl ⟨_, by rw [if_neg hempty]; rfl⟩
  · cases entry with
    | directory => exact Or.inl ⟨_, rfl⟩
    | file id' =>
      simp only [if_neg he]
      exact Or.inr ⟨p, p', x, x', .file id', hadmits, hmoved ()⟩

/-- **Between places that overlap, a rename moves nothing.** It succeeds only from a place to
itself. -/
theorem outcome_rename_overlapping (hsteps : r.steps = names.map .name)
    (hsteps' : r'.steps = names'.map .name) (h : names <+: names' ∨ names' <+: names) :
    ∃ x, (rename r r').outcome d = (x, d) ∧ (x = .ok () → names = names' ∧
      (d.isDirectory r' = true ∨ ∃ id, d.entryAt? names = some (.file id))) := by
  rcases outcome_rename_cases r r' d with ⟨e, hfailed⟩ | ⟨p, p', x, x', entry, hadmits, hrenamed⟩
  · exact ⟨_, hfailed, fun hok => by cases hok⟩
  obtain ⟨p, rfl, hp⟩ := of_last? hsteps hadmits.last.1
  obtain ⟨p', rfl, hp'⟩ := of_last? hsteps' hadmits.last.2
  obtain ⟨hwalk, hwalk'⟩ := hadmits.walk
  rw [hp] at hwalk
  rw [hp'] at hwalk'
  obtain ⟨rfl, -, -⟩ := directories_of_walk d.entryAt?_nil hwalk
  obtain ⟨rfl, hshort, habove⟩ := directories_of_walk d.entryAt?_nil hwalk'
  simp only [List.nil_append] at hadmits hrenamed habove
  have hinside := hadmits.notInside
  have hbeneath := hadmits.notAbove
  rw [isWithin, List.isPrefixOf_iff_prefix] at hinside hbeneath
  -- neither place is strictly beneath the other
  have he : p ++ [x] = p' ++ [x'] := by
    rcases h with hle | hle
    · exact (List.prefix_concat_iff.1 hle).resolve_right hinside
    · exact ((List.prefix_concat_iff.1 hle).resolve_right hbeneath).symm
  rw [if_pos he] at hrenamed
  refine ⟨_, hrenamed, fun _ => ⟨he, ?_⟩⟩
  cases entry with
  | file id => exact Or.inr ⟨id, hadmits.entry⟩
  | directory =>
    refine Or.inl ((isDirectory_iff hsteps').2 ⟨hadmits.fault.2, ?_, ?_⟩)
    · rw [List.forall_mem_append, List.forall_mem_singleton]
      exact ⟨hshort, hadmits.short.2⟩
    · intro above hle
      rcases List.prefix_concat_iff.1 hle with rfl | hle
      · rw [← he, hadmits.entry]
      · exact habove above hle

end Disk

namespace LocalStore

variable {place : Place} {s : LocalStore} {p source destination : Path}

/-! ### What the driver says of a path -/

theorem stat_ok_iff : (∃ m, ((stat place p).outcome s).1 = .ok m) ↔
    ∃ a, ((Disk.look (route place p)).outcome s.disk).1 = .ok a := by
  rw [stat, outcome_call, outcome_bind]
  rcases (Disk.look (route place p)).outcome s.disk with ⟨e | ⟨q, _ | id⟩, d⟩
  · simp [Except.mapError]
  · exact ⟨fun _ => ⟨_, rfl⟩, fun _ => ⟨_, rfl⟩⟩
  · exact ⟨fun _ => ⟨_, rfl⟩, fun _ => ⟨_, rfl⟩⟩

theorem stat_directory_iff : ((stat place p).outcome s).1 = .ok ⟨0, true⟩ ↔
    s.disk.isDirectory (route place p) = true := by
  rw [stat, outcome_call, outcome_bind, Disk.outcome_look_eq, Disk.isDirectory]
  rcases (route place p).fault? with _ | e
  · rcases s.disk.find (route place p) with e | ⟨q, _ | id⟩
    · simp [Except.mapError]
    · exact ⟨fun _ => rfl, fun _ => rfl⟩
    · refine ⟨fun h => ?_, fun h => by cases h⟩
      cases congrArg Metadata.isDirectory (Except.ok.inj h)
  · simp [Except.mapError]

/-! ### Renaming between paths that overlap -/

/-- The names from the top of the tree to what a path leads to. -/
def Place.locate (place : Place) (p : Path) : List String :=
  place.root ++ p.entryNames

theorem steps_locate (place : Place) (h : .up ∉ p.components) :
    (route place p).steps = (place.locate p).map .name := by
  have hnames : ∀ cs : List Component, .up ∉ cs →
      cs.filterMap Component.step? = (cs.filterMap Component.name?).map .name := by
    intro cs hcs
    rw [List.map_filterMap]
    refine List.filterMap_congr fun c hc => ?_
    cases c with
    | up => exact absurd hc hcs
    | root | here | name text => rfl
  rw [steps_route, hnames _ h, Place.locate, Path.entryNames, List.map_append]

/-- A rename gets as far as clearing its destination: the source is there, and the destination
is a directory. -/
def Clears (place : Place) (s : LocalStore) (source destination : Path) : Prop :=
  (∃ m, ((stat place source).outcome s).1 = .ok m) ∧
    ((stat place destination).outcome s).1 = .ok ⟨0, true⟩

/-- A file is not cleared. -/
theorem not_clears_of_file {id : Nat} (hup : .up ∉ destination.components)
    (hfile : s.disk.entryAt? (place.locate destination) = some (.file id)) :
    ¬ Clears place s source destination := by
  rintro ⟨-, hstat⟩
  have hdirectory := (Disk.isDirectory_iff (steps_locate place hup)).1 (stat_directory_iff.1 hstat)
  cases hfile.symm.trans (hdirectory.2.2 _ List.prefix_rfl)

/-- The directories above a directory are there already. -/
theorem outcome_createParent_isDirectory (h : s.disk.Sound) (hup : .up ∉ p.components)
    (hdirectory : s.disk.isDirectory (route place p) = true) :
    ∃ d, (createParent p (route place p)).outcome s = (.ok (), { s with disk := d }) ∧
      s.disk.Built d := by
  have hsteps := steps_locate place hup
  obtain ⟨hfault, hshort, habove⟩ := (Disk.isDirectory_iff hsteps).1 hdirectory
  have htaken := Route.IsTaken.of_steps hfault hsteps hshort
  have hle := List.dropLast_prefix (place.locate p)
  obtain ⟨rest, hrest⟩ := hle
  have hfits : Route.Fits (place.locate p).dropLast := by
    have hall := htaken.fits hsteps
    rw [← hrest] at hall
    exact hall.of_append
  obtain ⟨d, hmade, -⟩ := Disk.outcome_createDirectories h hfits fun q hq id he => by
    rw [habove q (hq.trans (List.dropLast_prefix _))] at he
    cases he
  have hbuilt := Disk.built_createReversed (route place p).parent.parts.reverse s.disk
  rw [← Disk.createDirectories_taken htaken hsteps] at hmade
  rw [← Disk.createDirectories, hmade] at hbuilt
  refine ⟨d, ?_, hbuilt⟩
  rw [createParent, outcome_call, hmade]
  rfl

theorem outcome_rename_missing
    (h : ¬ ∃ a, ((Disk.look (route place source)).outcome s.disk).1 = .ok a) :
    ∃ e, (rename place source destination).outcome s = (.error e, s) := by
  have hquiet := Disk.outcome_look_snd (route place source) s.disk
  rw [LocalStore.rename, outcome_bind, outcome_call]
  rcases hlook : (Disk.look (route place source)).outcome s.disk with ⟨e | a, d⟩
  · rw [hlook] at hquiet
    obtain rfl : d = s.disk := hquiet
    exact ⟨_, rfl⟩
  · exact absurd ⟨a, congrArg Prod.fst hlook⟩ h

section Steps

-- the source is there, and the directories above the destination have been made
variable {a : List String × Entry} {d : Disk}
  (hlook : (Disk.look (route place source)).outcome s.disk = (.ok a, s.disk))
  (hmade : (createParent destination (route place destination)).outcome s =
    (.ok (), { s with disk := d }))

include hlook hmade

theorem outcome_rename_free (hfree : d.isDirectory (route place destination) = false) :
    (rename place source destination).outcome s =
      (call source "rename" (Disk.rename (route place source) (route place destination))).outcome
        { s with disk := d } := by
  rw [LocalStore.rename, outcome_bind, outcome_call, hlook]
  simp only [Except.mapError, outcome_bind, hmade, outcome_get, hfree, Bool.false_eq_true, if_false]

theorem outcome_rename_directory (htaken : d.isDirectory (route place destination) = true) :
    (rename place source destination).outcome s =
      (call destination "clear rename destination" (Disk.removeTree (route place destination)) >>=
        fun _ => call source "rename"
          (Disk.rename (route place source) (route place destination))).outcome
        { s with disk := d } := by
  rw [LocalStore.rename, outcome_bind, outcome_call, hlook]
  simp only [Except.mapError, outcome_bind, hmade, outcome_get, htaken, if_true]

/-- A directory at the destination is cleared, and then there is nothing to rename, or no name to
give it. -/
theorem outcome_rename_cleared (hup : .up ∉ source.components) (hup' : .up ∉ destination.components)
    (hoverlap : place.locate source <+: place.locate destination ∨
      place.locate destination <+: place.locate source)
    (htaken : d.isDirectory (route place destination) = true) :
    ∃ e t, (rename place source destination).outcome s = (.error e, t) ∧
      ∀ q, t.disk.content? q =
        if place.locate destination <+: q then none else d.content? q := by
  have hsteps := steps_locate place hup
  have hsteps' := steps_locate place hup'
  obtain ⟨x, d', hremoved, hcleared, hgone⟩ := Disk.cleared_removeTree hsteps' htaken
  rw [outcome_rename_directory hlook hmade htaken, outcome_bind, outcome_call, hremoved]
  cases x with
  | error e => exact ⟨_, _, rfl, hcleared.content?⟩
  | ok u =>
    simp only [Except.mapError]
    obtain ⟨y, hrenamed, hok⟩ := Disk.outcome_rename_overlapping (d := d') hsteps hsteps' hoverlap
    rw [outcome_call, hrenamed]
    cases y with
    | error e => exact ⟨_, _, rfl, hcleared.content?⟩
    | ok v =>
      obtain ⟨he, hthere⟩ := hok rfl
      have hnone := hgone rfl (place.locate destination) List.prefix_rfl
      rcases hthere with hdirectory | ⟨id, hfile⟩
      · have hentry := ((Disk.isDirectory_iff hsteps').1 hdirectory).2.2 _ List.prefix_rfl
        cases hnone.symm.trans hentry
      · rw [he, hnone] at hfile
        cases hfile

end Steps

/-- **In a file tree, a rename between paths that overlap moves nothing.** It succeeds only from
a file to itself, and all that it does to files is to clear its destination. -/
theorem outcome_rename_overlapping (h : s.disk.Sound) (hup : .up ∉ source.components)
    (hup' : .up ∉ destination.components)
    (hoverlap : place.locate source <+: place.locate destination ∨
      place.locate destination <+: place.locate source) :
    ∃ x t, (rename place source destination).outcome s = (x, t) ∧
      (x = .ok () → place.locate source = place.locate destination ∧
        ∃ id, s.disk.entryAt? (place.locate source) = some (.file id)) ∧
      (Clears place s source destination → ∀ q, t.disk.content? q =
        if place.locate destination <+: q then none else s.disk.content? q) ∧
      (¬ Clears place s source destination → ∀ q, t.disk.content? q = s.disk.content? q) := by
  have hsteps := steps_locate place hup
  have hsteps' := steps_locate place hup'
  by_cases hfound : ∃ a, ((Disk.look (route place source)).outcome s.disk).1 = .ok a
  case neg =>
    obtain ⟨e, hfailed⟩ := outcome_rename_missing hfound
    refine ⟨_, s, hfailed, (fun hok => by cases hok), fun hclears => ?_, fun _ _ => rfl⟩
    exact absurd (stat_ok_iff.1 hclears.1) hfound
  obtain ⟨a, ha⟩ := hfound
  have hlook : (Disk.look (route place source)).outcome s.disk = (.ok a, s.disk) :=
    Prod.ext ha (Disk.outcome_look_snd _ _)
  by_cases hclears : Clears place s source destination
  · -- the destination is a directory from the start
    have hdirectory := stat_directory_iff.1 hclears.2
    obtain ⟨d, hmade, hbuilt⟩ := outcome_createParent_isDirectory h hup' hdirectory
    obtain ⟨e, t, hrenamed, hcleared⟩ := outcome_rename_cleared hlook hmade hup hup' hoverlap
      (hbuilt.isDirectory hsteps' hdirectory)
    refine ⟨_, t, hrenamed, (fun hok => by cases hok), fun _ q => ?_,
      fun hnot => absurd hclears hnot⟩
    rw [hcleared, hbuilt.content?]
  have hnot : s.disk.isDirectory (route place destination) ≠ true := fun hdirectory =>
    hclears ⟨stat_ok_iff.2 ⟨a, ha⟩, stat_directory_iff.2 hdirectory⟩
  obtain ⟨y, d, hmade, hbuilt⟩ :
      ∃ y d, (createParent destination (route place destination)).outcome s =
        (y, { s with disk := d }) ∧ s.disk.Built d :=
    ⟨_, _, outcome_call _ _ _ s, Disk.built_createReversed _ _⟩
  cases y with
  | error e =>
    refine ⟨.error e, { s with disk := d }, ?_, (fun hok => by cases hok),
      fun hyes => absurd hyes hclears, fun _ => hbuilt.content?⟩
    rw [LocalStore.rename, outcome_bind, outcome_call, hlook]
    simp only [Except.mapError, outcome_bind, hmade]
  | ok u =>
    by_cases hdirectory : d.isDirectory (route place destination) = true
    · -- the directory at the destination is a new one
      obtain ⟨e, t, hrenamed, hcleared⟩ :=
        outcome_rename_cleared hlook hmade hup hup' hoverlap hdirectory
      refine ⟨_, t, hrenamed, (fun hok => by cases hok), fun hyes => absurd hyes hclears,
        fun _ q => ?_⟩
      obtain ⟨hfault, hshort, habove⟩ := (Disk.isDirectory_iff hsteps').1 hdirectory
      have hnew : s.disk.entryAt? (place.locate destination) ≠ some .directory := fun hold =>
        hnot ((Disk.isDirectory_iff hsteps').2 ⟨hfault, hshort, h.directories hold⟩)
      rw [hcleared, hbuilt.content?]
      by_cases hq : place.locate destination <+: q
      · rw [if_pos hq, Disk.content?_eq_none fun id hfile => ?_]
        by_cases he : q = place.locate destination
        · have hkept := hbuilt.kept (he ▸ hfile)
          rw [habove _ List.prefix_rfl] at hkept
          cases hkept
        · rw [h.free hnew q hq he] at hfile
          cases hfile
      · rw [if_neg hq]
    · have hrenamed := outcome_rename_free hlook hmade (by simpa using hdirectory)
      obtain ⟨x, hdone, hok⟩ := Disk.outcome_rename_overlapping (d := d) hsteps hsteps' hoverlap
      rw [outcome_call, hdone] at hrenamed
      refine ⟨_, _, hrenamed, fun hsucceeded => ?_, fun hyes => absurd hyes hclears,
        fun _ => hbuilt.content?⟩
      cases x with
      | error e => cases hsucceeded
      | ok v =>
        obtain ⟨he, hthere⟩ := hok rfl
        obtain ⟨id, hfile⟩ := hthere.resolve_left hdirectory
        exact ⟨he, id, hbuilt.file hfile⟩

end LocalStore
end ContainerRegistry
