/-
# Renaming between places of a file tree that are apart

The local driver removes a directory that is at the destination of a rename, whatever is in it,
and leaves the rest to the system. The system puts a directory in the place of nothing, and a
file in the place of nothing or of a file, and then all that was at and beneath the source is at
and beneath the destination, and nothing else is. But it puts no directory in the place of a file,
and the driver does not remove a file: such a rename fails, although the destination of a rename
is to be replaced whatever it is. In memory it succeeds.

Key definitions: `Entry.MayReplace`, `Disk.IsMove`.
Key theorems: `Disk.outcome_rename_apart`, `Disk.Grown.isMove_relabel`,
`LocalStore.rename_moves_tree`.
-/
import ContainerRegistry.Proofs.Overlap

namespace ContainerRegistry

open ContainerRegistry.Action

/-- What may be put in the place of what is there, by routes that end in these ways. A directory
never replaces a file, and a file does not take a route that asks for a directory. -/
def Entry.MayReplace (r r' : Route) : Entry → Option Entry → Prop
  | .file _, _ => r.ending = .plain ∧ r'.ending = .plain
  | .directory, some (.file _) => False
  | .directory, _ => r.ending ≠ .dot ∧ r'.ending ≠ .dot

section MayReplace

variable {r r' : Route} {e : Entry} {there : Option Entry}

/-- What is put anywhere is named by both routes. -/
theorem Entry.MayReplace.ending (h : e.MayReplace r r' there) :
    r.ending ≠ .dot ∧ r'.ending ≠ .dot := by
  cases e with
  | file id =>
    obtain ⟨hplain, hplain'⟩ := h
    simp [hplain, hplain']
  | directory =>
    rcases there with _ | _ | id
    · exact h
    · exact h
    · exact h.elim

/-- Whether a directory would be needed: one for a route of a file, or one to be replaced by a
directory. -/
def Entry.needsDirectory (r r' : Route) : Entry → Option Entry → Bool
  | .file _, _ => r.asksDirectory || r'.asksDirectory
  | .directory, there => there.isSome

/-- Where there is no directory, none may be needed. -/
theorem Entry.mayReplace_iff (hdot : r.ending ≠ .dot ∧ r'.ending ≠ .dot)
    (hthere : there ≠ some .directory) :
    e.MayReplace r r' there ↔ ¬ e.needsDirectory r r' there = true := by
  cases e with
  | file id => simp [MayReplace, needsDirectory, Route.asksDirectory]
  | directory =>
    rcases there with _ | _ | id
    · exact ⟨fun _ hno => Bool.noConfusion hno, fun _ => hdot⟩
    · exact absurd rfl hthere
    · exact ⟨fun hno => hno.elim, fun hno => hno rfl⟩

/-- An entry may be put where there is a directory just if it may once the directory is gone. -/
theorem Entry.mayReplace_none :
    e.MayReplace r r' none ↔ e.MayReplace r r' (some .directory) := by
  cases e <;> rfl

/-- By routes that end in a name, only a directory is not put in the place of a file. -/
theorem Entry.mayReplace_of_plain (h : r.ending = .plain) (h' : r'.ending = .plain) :
    e.MayReplace r r' there ↔ ¬ (e = .directory ∧ ∃ id, there = some (.file id)) := by
  rcases e with _ | id
  · rcases there with _ | _ | id <;> simp [MayReplace, h, h']
  · simp [MayReplace, h, h']

end MayReplace

namespace Disk

variable {d d' d'' : Disk} {r r' : Route} {p p' old new : List String} {x x' : String} {e : Entry}

/-! ### Moves -/

/-- The tree `d'` is `d` with all there is at and beneath `old` put at `new`. What was at and
beneath `new` is gone, and nothing is left of `old`; other places are as they were, but that
there are directories above `new` now. -/
structure IsMove (d d' : Disk) (old new : List String) : Prop where
  arrived : ∀ rest, d'.entryAt? (new ++ rest) = d.entryAt? (old ++ rest)
  left : ∀ rest, d'.entryAt? (old ++ rest) = none
  kept : ∀ q, ¬ old <+: q → ¬ new <+: q → d'.entryAt? q = d.entryAt? q ∨
    q <+: new ∧ d.entryAt? q = none ∧ d'.entryAt? q = some .directory
  bytes : ∀ id, d'.bytes id = d.bytes id

theorem IsMove.content?_arrived (h : d.IsMove d' old new) (rest : List String) :
    d'.content? (new ++ rest) = d.content? (old ++ rest) := by
  rw [content?, content?, h.arrived]
  rcases d.entryAt? (old ++ rest) with _ | _ | id
  · rfl
  · rfl
  · exact congrArg some (h.bytes id)

theorem IsMove.content?_kept (h : d.IsMove d' old new) {q : List String} (hold : ¬ old <+: q)
    (hnew : ¬ new <+: q) : d'.content? q = d.content? q := by
  rcases h.kept q hold hnew with hsame | ⟨-, hnone, hdirectory⟩
  · exact content?_congr hsame fun id _ => h.bytes id
  · rw [content?_eq_none (by simp [hdirectory]), content?_eq_none (by simp [hnone])]

/-- Directories that were made above a place that no file stands above. -/
theorem Grown.built (h : d.Grown d' p') (hclear : d.IsClear (p' ++ [x'])) : d.Built d' where
  entryAt? q := by
    rw [h.entryAt?]
    by_cases hq : q <+: p'
    · rw [if_pos hq]
      cases hwas : d.entryAt? q with
      | none => exact Or.inr ⟨rfl, rfl⟩
      | some e =>
        cases e with
        | directory => exact Or.inl rfl
        | file id =>
          have hne : q ≠ p' ++ [x'] := fun he => not_concat_isPrefix p' x' (he ▸ hq)
          exact absurd hwas (hclear q (hq.trans (List.prefix_append _ _)) hne id)
    · exact Or.inl (if_neg hq)
  contents := h.contents

/-- A place is given to an entry after the directories above the place were made, and what was at
and beneath it may have been cleared. -/
theorem Grown.isMove_relabel (hgrown : d.Grown d' p') (hclear : d.IsClear (p' ++ [x']))
    (hcleared : ∀ q, ¬ p' ++ [x'] <+: q → d''.entryAt? q = d'.entryAt? q)
    (hcontents : d''.contents = d'.contents)
    (hapart : ¬ old <+: p' ++ [x'] ∧ ¬ p' ++ [x'] <+: old) :
    d.IsMove (d''.relabel old (p' ++ [x'])) old (p' ++ [x']) := by
  have hne : old ≠ [] := fun h0 => hapart.1 (h0 ▸ List.nil_prefix)
  have hentry : ∀ q, (d''.relabel old (p' ++ [x'])).entryAt? q = _ :=
    entryAt?_relabel hne (by simp)
  -- nothing beneath the one place is beneath the other, or above it
  have hbeneath : ∀ rest, ¬ p' ++ [x'] <+: old ++ rest := fun rest hle =>
    (List.prefix_or_prefix_of_prefix hle (List.prefix_append _ _)).elim hapart.2 hapart.1
  have habove : ∀ rest, ¬ old ++ rest <+: p' := fun rest hle =>
    hapart.1 (((List.prefix_append _ _).trans hle).trans (List.prefix_append _ _))
  constructor
  case arrived =>
    intro rest
    rw [hentry, if_pos (List.prefix_append _ _), List.drop_left, hcleared _ (hbeneath rest),
      hgrown.entryAt?, if_neg (habove rest)]
  case left =>
    intro rest
    rw [hentry, if_neg (hbeneath rest), if_pos (List.prefix_append _ _)]
  case kept =>
    intro q hold hnew
    rw [hentry, if_neg hnew, if_neg hold, hcleared q hnew]
    by_cases hq : q <+: p'
    · refine ((hgrown.built hclear).entryAt? q).imp_right fun hmade => ?_
      exact ⟨hq.trans (List.prefix_append _ _), hmade⟩
    · exact Or.inl (by rw [hgrown.entryAt?, if_neg hq])
  case bytes =>
    intro id
    have hbytes : (d''.relabel old (p' ++ [x'])).bytes id = d''.bytes id := rfl
    rw [hbytes, ← hgrown.bytes, Disk.bytes, Disk.bytes, hcontents]

/-! ### What the system puts in the place of what -/

/-- The entry that a route of names leads to. -/
theorem find_entry (h : d.Sound) (hsteps : r.steps = (p ++ [x]).map .name) (htaken : r.IsTaken)
    (hold : d.entryAt? (p ++ [x]) = some e) : d.find r =
      if e ≠ .directory ∧ r.asksDirectory = true then .error .notDirectory
      else .ok (p ++ [x], e) := by
  rw [find, hsteps, ← Route.steps_ofNames,
    target_concat (htaken.fits hsteps) (h.directories (h.parent hold))]
  cases e with
  | directory => simp [bind, Except.bind, hold]
  | file id => simp [bind, Except.bind, hold]

/-- A route that does not end in a dot is about its last name. -/
theorem last_of_steps (hsteps : r.steps = (p ++ [x]).map .name) (hdot : r.ending ≠ .dot) :
    r.leading = p.map .name ∧ r.last? = some x := by
  constructor
  · rw [Route.leading, if_neg hdot, hsteps, List.map_append, List.map_singleton,
      List.dropLast_concat]
  · rw [Route.last?, if_neg hdot, Route.fileName?, hsteps, List.map_append, List.map_singleton,
      List.getLast?_concat]

theorem walk_of_directory (h : d.Sound) (hsteps : r.steps = (p ++ [x]).map .name)
    (htaken : r.IsTaken) (hp : d.entryAt? p = some .directory) :
    d.walk [] (p.map .name) = .ok p :=
  walk_directories (fun n hn => ((htaken.fits hsteps).usable n (by simp [hn])).1) (h.directories hp)

section Apart

variable (h : d.Sound) (hsteps : r.steps = (p ++ [x]).map .name)
  (hsteps' : r'.steps = (p' ++ [x']).map .name) (htaken : r.IsTaken) (htaken' : r'.IsTaken)
  (hold : d.entryAt? (p ++ [x]) = some e) (hp' : d.entryAt? p' = some .directory)
  (hnew : d.entryAt? (p' ++ [x']) ≠ some .directory)
  (hapart : ¬ p ++ [x] <+: p' ++ [x'] ∧ ¬ p' ++ [x'] <+: p ++ [x])

include h hsteps hsteps' htaken htaken' hold hp' hnew hapart

/-- Between places that are apart, only the kinds of the two entries and the ends of the routes
matter. -/
theorem outcome_rename_of_not_dot (hdot : r.ending ≠ .dot) (hdot' : r'.ending ≠ .dot) :
    (rename r r').outcome d =
      if e.needsDirectory r r' (d.entryAt? (p' ++ [x'])) = true then
        (.error (.system .notDirectory), d)
      else (.ok (), d.relabel (p ++ [x]) (p' ++ [x'])) := by
  obtain ⟨hleading, hlast⟩ := last_of_steps hsteps hdot
  obtain ⟨hleading', hlast'⟩ := last_of_steps hsteps' hdot'
  have hshort : ¬ Route.longestName < x.utf8ByteSize :=
    Nat.not_lt.2 ((htaken.fits hsteps).usable x (by simp)).1
  have hshort' : ¬ Route.longestName < x'.utf8ByteSize :=
    Nat.not_lt.2 ((htaken'.fits hsteps').usable x' (by simp)).1
  have hinside : isWithin (p ++ [x]) p' = false := by
    rw [isWithin, Bool.eq_false_iff, ne_eq, List.isPrefixOf_iff_prefix]
    exact fun hle => hapart.1 (hle.trans (List.prefix_append _ _))
  have hbeneath : isWithin (p' ++ [x']) p = false := by
    rw [isWithin, Bool.eq_false_iff, ne_eq, List.isPrefixOf_iff_prefix]
    exact fun hle => hapart.2 (hle.trans (List.prefix_append _ _))
  have hne : p ++ [x] ≠ p' ++ [x'] := fun he => hapart.1 (he ▸ List.prefix_rfl)
  rw [rename, outcome_bind, outcome_submit_eq, htaken.fault]
  simp only [Option.elim_none, outcome_bind, outcome_submit_eq, htaken'.fault, outcome_get,
    outcome_answer, hleading, hleading', walk_of_directory h hsteps htaken (h.parent hold),
    walk_of_directory h hsteps' htaken' hp', Except.mapError, hlast, hlast', hold, if_neg hshort,
    if_neg hshort', hinside, hbeneath, Bool.false_eq_true, if_false, if_neg hne]
  cases e with
  | file id =>
    have hfile : (Entry.file id != .directory) = true := rfl
    simp only [hfile, Bool.true_and]
    by_cases hasks : (Entry.file id).needsDirectory r r' (d.entryAt? (p' ++ [x'])) = true
    · rw [if_pos hasks, if_pos (show (r.asksDirectory || r'.asksDirectory) = true from hasks)]
      rfl
    · rw [if_neg hasks, if_neg (show ¬ (r.asksDirectory || r'.asksDirectory) = true from hasks)]
      rcases hthere : d.entryAt? (p' ++ [x']) with _ | _ | id'
      · rfl
      · exact absurd hthere hnew
      · rfl
  | directory =>
    rcases hthere : d.entryAt? (p' ++ [x']) with _ | _ | id'
    · rfl
    · exact absurd hthere hnew
    · rfl

/-- **What the system puts in the place of what.** -/
theorem outcome_rename_apart :
    (e.MayReplace r r' (d.entryAt? (p' ++ [x'])) →
      (rename r r').outcome d = (.ok (), d.relabel (p ++ [x]) (p' ++ [x']))) ∧
    (¬ e.MayReplace r r' (d.entryAt? (p' ++ [x'])) →
      ∃ err, (rename r r').outcome d = (.error err, d)) := by
  by_cases hdot : r.ending ≠ .dot ∧ r'.ending ≠ .dot
  · have hrun := outcome_rename_of_not_dot h hsteps hsteps' htaken htaken' hold hp' hnew hapart
      hdot.1 hdot.2
    rw [Entry.mayReplace_iff hdot hnew, not_not]
    exact ⟨fun hmay => hrun.trans (if_neg hmay), fun hnot => ⟨_, hrun.trans (if_pos hnot)⟩⟩
  · refine ⟨fun hmay => absurd hmay.ending hdot, fun _ => ?_⟩
    rcases outcome_rename_cases r r' d with hfailed | ⟨_, _, _, _, _, hadmits, -⟩
    · exact hfailed
    · refine absurd ⟨fun he => ?_, fun he => ?_⟩ hdot
      · cases (if_pos he).symm.trans hadmits.last.1
      · cases (if_pos he).symm.trans hadmits.last.2

end Apart

end Disk

namespace LocalStore

variable {place : Place} {s : LocalStore} {source destination : Path} {e : Entry}
  {p p' : List String} {x x' : String} {d d' : Disk}

/-- The directories above a place are made, whatever the end of the path. -/
theorem outcome_createParent_above (hs : s.disk.Sound)
    (hsteps : (route place destination).steps = (p' ++ [x']).map .name)
    (htaken : (route place destination).IsTaken) (hclear : s.disk.IsClear (p' ++ [x'])) :
    ∃ d, (createParent destination (route place destination)).outcome s =
        (.ok (), { s with disk := d }) ∧ s.disk.Grown d p' := by
  obtain ⟨d, hmade, hgrown⟩ := Disk.outcome_createAbove hs (htaken.fits hsteps) hclear
  refine ⟨d, ?_, hgrown⟩
  rw [createParent, outcome_call, Disk.createDirectories_taken htaken hsteps, List.dropLast_concat,
    hmade]
  rfl

section Apart

variable (hs : s.disk.Sound) (hsteps : (route place source).steps = (p ++ [x]).map .name)
  (hsteps' : (route place destination).steps = (p' ++ [x']).map .name)
  (htaken : (route place source).IsTaken) (htaken' : (route place destination).IsTaken)
  (hapart : ¬ p ++ [x] <+: p' ++ [x'] ∧ ¬ p' ++ [x'] <+: p ++ [x])
  (hclear : s.disk.IsClear (p' ++ [x'])) (hold : s.disk.entryAt? (p ++ [x]) = some e)

include hs hsteps htaken hold in
/-- A file is not found by a route that asks for a directory. -/
theorem outcome_look_source : (Disk.look (route place source)).outcome s.disk =
    (if e ≠ .directory ∧ (route place source).asksDirectory = true then
      .error (.system .notDirectory) else .ok (p ++ [x], e), s.disk) := by
  rw [Disk.outcome_look_eq, htaken.fault, Option.elim_none, Disk.find_entry hs hsteps htaken hold]
  split <;> rfl

include hs hsteps htaken hold in
/-- A file that is asked for as a directory is not renamed, and nothing happens. -/
theorem rename_asking (hasks : e ≠ .directory ∧ (route place source).asksDirectory = true)
    (there : Option Entry) :
    ¬ e.MayReplace (route place source) (route place destination) there ∧
      ∃ err, (rename place source destination).outcome s = (.error err, s) := by
  constructor
  · intro hmay
    cases e with
    | directory => exact hasks.1 rfl
    | file id =>
      have hplain := hasks.2
      rw [Route.asksDirectory, hmay.1] at hplain
      cases hplain
  · refine outcome_rename_missing ?_
    rw [outcome_look_source hs hsteps htaken hold, if_pos hasks]
    rintro ⟨a, ha⟩
    cases ha

include hsteps hsteps' htaken htaken' hapart hclear hold

/-- The last step of a rename: the directories above the destination have been made, and a
directory at the destination was removed. -/
theorem outcome_rename_last (hgrown : s.disk.Grown d p') (hsound : d'.Sound)
    (hcleared : ∀ q, ¬ p' ++ [x'] <+: q → d'.entryAt? q = d.entryAt? q)
    (hcontents : d'.contents = d.contents)
    (hnew : d'.entryAt? (p' ++ [x']) ≠ some .directory) :
    let r := route place source
    let r' := route place destination
    (e.MayReplace r r' (d'.entryAt? (p' ++ [x'])) →
      ∃ t, (call source "rename" (Disk.rename r r')).outcome { s with disk := d' } = (.ok (), t) ∧
        t.disk.Sound ∧ s.disk.IsMove t.disk (p ++ [x]) (p' ++ [x'])) ∧
    (¬ e.MayReplace r r' (d'.entryAt? (p' ++ [x'])) →
      ∃ err, (call source "rename" (Disk.rename r r')).outcome { s with disk := d' } =
        (.error err, { s with disk := d' })) := by
  have habove : ¬ p ++ [x] <+: p' := fun hle => hapart.1 (hle.trans (List.prefix_append _ _))
  have hold' : d'.entryAt? (p ++ [x]) = some e := by
    rw [hcleared _ hapart.2, hgrown.entryAt?, if_neg habove, hold]
  have hp' : d'.entryAt? p' = some .directory := by
    rw [hcleared _ (not_concat_isPrefix p' x'), hgrown.entryAt?, if_pos List.prefix_rfl]
  obtain ⟨hdone, hrefused⟩ := Disk.outcome_rename_apart hsound hsteps hsteps' htaken htaken' hold'
    hp' hnew hapart
  constructor
  · intro hmay
    refine ⟨{ s with disk := d'.relabel (p ++ [x]) (p' ++ [x']) }, ?_,
      hsound.relabel (by simp) hp' habove, hgrown.isMove_relabel hclear hcleared hcontents hapart⟩
    rw [outcome_call, hdone hmay]
    rfl
  · intro hnot
    obtain ⟨err, herr⟩ := hrefused hnot
    refine ⟨failure source "rename" err, ?_⟩
    rw [outcome_call, herr]
    rfl

include hs

/-- Where there is no directory, nothing is removed, and a rename that fails changes no file. -/
theorem rename_onto_free
    (hlook : (Disk.look (route place source)).outcome s.disk = (.ok (p ++ [x], e), s.disk))
    (hfree : s.disk.entryAt? (p' ++ [x']) ≠ some .directory) :
    let may := e.MayReplace (route place source) (route place destination)
      (s.disk.entryAt? (p' ++ [x']))
    (may → ∃ t, (rename place source destination).outcome s = (.ok (), t) ∧
      t.disk.Sound ∧ s.disk.IsMove t.disk (p ++ [x]) (p' ++ [x'])) ∧
    (¬ may → ∃ err t, (rename place source destination).outcome s = (.error err, t) ∧
      ∀ q, t.disk.content? q = s.disk.content? q) := by
  obtain ⟨d, hmade, hgrown⟩ := outcome_createParent_above hs hsteps' htaken' hclear
  have hsound := hgrown.sound hs
  have hsame : d.entryAt? (p' ++ [x']) = s.disk.entryAt? (p' ++ [x']) := hgrown.entryAt?_concat x'
  have hnew : d.entryAt? (p' ++ [x']) ≠ some .directory := hsame ▸ hfree
  have hrun := outcome_rename_free hlook hmade (Bool.eq_false_iff.2 fun hdirectory =>
    hnew (((Disk.isDirectory_iff hsteps').1 hdirectory).2.2 _ List.prefix_rfl))
  obtain ⟨hdone, hrefused⟩ := outcome_rename_last hsteps hsteps' htaken htaken' hapart hclear hold
    hgrown hsound (fun _ _ => rfl) rfl hnew
  rw [hsame, ← hrun] at hdone hrefused
  refine ⟨hdone, fun hnot => ?_⟩
  obtain ⟨err, herr⟩ := hrefused hnot
  exact ⟨err, _, herr, (hgrown.built hclear).content?⟩

/-- A directory is removed with all that is in it, and then there is nothing where it was. -/
theorem rename_onto_directory
    (hlook : (Disk.look (route place source)).outcome s.disk = (.ok (p ++ [x], e), s.disk))
    (hdirectory : s.disk.entryAt? (p' ++ [x']) = some .directory) :
    let may := e.MayReplace (route place source) (route place destination) (some .directory)
    (may → ∃ t, (rename place source destination).outcome s = (.ok (), t) ∧
      t.disk.Sound ∧ s.disk.IsMove t.disk (p ++ [x]) (p' ++ [x'])) ∧
    (¬ may → ∃ err t, (rename place source destination).outcome s = (.error err, t)) := by
  obtain ⟨d, hmade, hgrown⟩ := outcome_createParent_above hs hsteps' htaken' hclear
  have hsound := hgrown.sound hs
  have hthere : d.isDirectory (route place destination) = true := by
    refine (Disk.isDirectory_iff hsteps').2 ⟨htaken'.fault, fun n hn => ?_, hsound.directories ?_⟩
    · exact ((htaken'.fits hsteps').usable n hn).1
    · rw [hgrown.entryAt?_concat, hdirectory]
  have hrun := outcome_rename_directory hlook hmade hthere
  rw [outcome_bind, outcome_call, Disk.outcome_removeTree_of_steps hsteps' hthere] at hrun
  by_cases hlast : (route place destination).last? = none
  · rw [if_pos hlast] at hrun
    refine ⟨fun hmay => ?_, fun _ => ⟨_, _, hrun⟩⟩
    have hsome := (Disk.last_of_steps hsteps' hmay.ending.2).2
    rw [hlast] at hsome
    cases hsome
  rw [if_neg hlast] at hrun
  have hentry := Disk.entryAt?_prune_clear (d := d) (p := p' ++ [x']) (by simp)
  have hgone : ((d.clear (p' ++ [x'])).prune (p' ++ [x'])).entryAt? (p' ++ [x']) = none := by
    rw [hentry, Disk.entryAt?_prune (by simp), if_pos List.prefix_rfl]
  obtain ⟨hdone, hrefused⟩ := outcome_rename_last hsteps hsteps' htaken htaken' hapart hclear hold
    hgrown ((hsound.prune (by simp)).congr hentry (Disk.nextId_clear d _))
    (fun q hq => by rw [hentry, Disk.entryAt?_prune (by simp), if_neg hq])
    (Disk.contents_clear d _) (by simp [hgone])
  rw [hgone, Entry.mayReplace_none] at hdone hrefused
  simp only [Except.mapError] at hrun
  rw [← hrun] at hdone hrefused
  exact ⟨hdone, fun hnot => (hrefused hnot).imp fun err herr => ⟨_, herr⟩⟩

end Apart

/-- An absolute path of names ends in a name, however it is spelled. -/
theorem ending_route (h : destination.Spells p) (hne : destination.entryNames ≠ [])
    (htaken : (route place destination).IsTaken) : (route place destination).ending = .plain := by
  have hnames : destination.entryNames = p := by
    have hcomponents : destination.components = .root :: p.map .name := h
    rw [Path.entryNames, hcomponents, List.filterMap_cons_none rfl, List.filterMap_map]
    exact List.filterMap_some
  exact (spells_route place h (hnames ▸ hne) htaken).ending

/-- By absolute paths of names everything may replace everything, but a directory a file. -/
theorem mayReplace_of_spells (htaken : (route place source).IsTaken)
    (htaken' : (route place destination).IsTaken)
    (hapart : ¬ place.locate source <+: place.locate destination ∧
      ¬ place.locate destination <+: place.locate source) (there : Option Entry)
    {names names' : List String} (h : source.Spells names) (h' : destination.Spells names') :
    e.MayReplace (route place source) (route place destination) there ↔
      ¬ (e = .directory ∧ ∃ id, there = some (.file id)) := by
  -- the root itself is not apart from what lies beneath it
  have hne : source.entryNames ≠ [] := fun h0 => hapart.1 <| by
    rw [Place.locate, h0, List.append_nil]
    exact List.prefix_append _ _
  have hne' : destination.entryNames ≠ [] := fun h0 => hapart.2 <| by
    rw [Place.locate, h0, List.append_nil]
    exact List.prefix_append _ _
  exact Entry.mayReplace_of_plain (ending_route h hne htaken) (ending_route h' hne' htaken')

/-- **A rename between places that are apart** is a move, of a file or a directory to where there
is nothing, a file or a directory, empty or not. Only a directory does not replace a file: by
absolute paths everything else succeeds, and if there was no directory at the destination, a
rename that fails changes no file. -/
theorem rename_moves_tree (hs : s.disk.Sound) (hup : .up ∉ source.components)
    (hup' : .up ∉ destination.components) (htaken : (route place source).IsTaken)
    (htaken' : (route place destination).IsTaken)
    (hapart : ¬ place.locate source <+: place.locate destination ∧
      ¬ place.locate destination <+: place.locate source)
    (hclear : s.disk.IsClear (place.locate destination))
    (hold : s.disk.entryAt? (place.locate source) = some e) :
    let there := s.disk.entryAt? (place.locate destination)
    let may := e.MayReplace (route place source) (route place destination) there
    (may → ∃ t, ((driver place).rename source destination).outcome s = (.ok (), t) ∧
      t.disk.Sound ∧ s.disk.IsMove t.disk (place.locate source) (place.locate destination)) ∧
    (¬ may → ∃ err t, ((driver place).rename source destination).outcome s = (.error err, t) ∧
      (there ≠ some .directory → ∀ q, t.disk.content? q = s.disk.content? q)) ∧
    ∀ names names', source.Spells names → destination.Spells names' →
      (may ↔ ¬ (e = .directory ∧ ∃ id, there = some (.file id))) := by
  have hspelled := fun names names' (h : source.Spells names) (h' : destination.Spells names') =>
    mayReplace_of_spells (e := e) htaken htaken' hapart (s.disk.entryAt? (place.locate destination))
      h h'
  have hsteps := steps_locate place hup
  have hsteps' := steps_locate place hup'
  -- neither place is the top, since nothing is apart from the top
  obtain ⟨p, x, hp⟩ : ∃ p x, place.locate source = p ++ [x] :=
    (List.eq_nil_or_concat' _).resolve_left fun h0 => hapart.1 (h0 ▸ List.nil_prefix)
  obtain ⟨p', x', hp'⟩ : ∃ p' x', place.locate destination = p' ++ [x'] :=
    (List.eq_nil_or_concat' _).resolve_left fun h0 => hapart.2 (h0 ▸ List.nil_prefix)
  rw [hp] at hsteps hapart hold ⊢
  rw [hp'] at hsteps' hapart hclear hspelled ⊢
  rw [← and_assoc]
  refine ⟨?_, hspelled⟩
  have hlook := outcome_look_source hs hsteps htaken hold
  by_cases hasks : e ≠ .directory ∧ (route place source).asksDirectory = true
  · obtain ⟨hnot, err, herr⟩ := rename_asking hs hsteps htaken hold hasks
      (s.disk.entryAt? (p' ++ [x']))
    exact ⟨fun hmay => absurd hmay hnot, fun _ => ⟨err, s, herr, fun _ _ => rfl⟩⟩
  rw [if_neg hasks] at hlook
  by_cases hdirectory : s.disk.entryAt? (p' ++ [x']) = some .directory
  · obtain ⟨hdone, hfailed⟩ := rename_onto_directory hs hsteps hsteps' htaken htaken' hapart hclear
      hold hlook hdirectory
    rw [hdirectory]
    refine ⟨hdone, fun hnot => ?_⟩
    obtain ⟨err, t, herr⟩ := hfailed hnot
    exact ⟨err, t, herr, fun hno => absurd rfl hno⟩
  · obtain ⟨hdone, hfailed⟩ := rename_onto_free hs hsteps hsteps' htaken htaken' hapart hclear hold
      hlook hdirectory
    refine ⟨hdone, fun hnot => ?_⟩
    obtain ⟨err, t, herr, hsame⟩ := hfailed hnot
    exact ⟨err, t, herr, fun _ => hsame⟩

/-- Two directories with a file in each, and a file beside them. -/
def withTrees : LocalStore :=
  ⟨((Disk.withFile.addDirectory ["b"]).addFile ["b", "y"] [121]).addFile ["c"] [122], 0, []⟩

/-- Only the top is above a place in the top. -/
theorem isClear_withTrees (x : String) : withTrees.disk.IsClear [x] := by
  intro q hq hne id he
  rcases List.prefix_cons_iff.1 hq with rfl | ⟨rest, rfl, hrest⟩
  · cases he
  · exact hne (congrArg _ (List.prefix_nil.1 hrest))

theorem isTaken_withTrees : ∀ p ∈ [Path.mk "/a", ⟨"//b/./"⟩, ⟨"/c"⟩],
    (route ⟨[], 0⟩ p).IsTaken := by
  intro p hp
  refine .of_steps ?_ (steps_locate ⟨[], 0⟩ ?_) ?_
  · revert p
    decide
  · revert p
    decide
  · revert p
    decide

theorem sound_withTrees : withTrees.disk.Sound := by
  have hdirectory : (Disk.withFile.addDirectory ["b"]).Sound :=
    (Disk.grown_addDirectory (p := []) fun q hq => by rw [List.prefix_nil.1 hq]; rfl).sound
      Disk.sound_withFile
  have hfile : ((Disk.withFile.addDirectory ["b"]).addFile ["b", "y"] [121]).Sound :=
    hdirectory.addFile (p := ["b"]) rfl rfl [121]
  exact hfile.addFile (p := []) rfl rfl [122]

/-- A directory replaces a directory that is not empty, but not a file. -/
theorem rename_moves_tree_onto_directory :
    (∃ t, ((driver ⟨[], 0⟩).rename ⟨"/a"⟩ ⟨"//b/./"⟩).outcome withTrees = (.ok (), t) ∧
      t.disk.content? ["b", "x"] = some [120] ∧ t.disk.entryAt? ["b", "y"] = none ∧
      t.disk.entryAt? ["a"] = none ∧ t.disk.content? ["c"] = some [122]) ∧
    ∃ err t, ((driver ⟨[], 0⟩).rename ⟨"/a"⟩ ⟨"/c"⟩).outcome withTrees = (.error err, t) ∧
      t.disk.content? ["a", "x"] = some [120] ∧ t.disk.content? ["c"] = some [122] := by
  have htaken := isTaken_withTrees
  constructor
  · obtain ⟨hmoved, -, hmay⟩ := @rename_moves_tree ⟨[], 0⟩ withTrees ⟨"/a"⟩ ⟨"//b/./"⟩ .directory
      sound_withTrees (by decide) (by decide) (htaken _ (by simp)) (htaken _ (by simp)) (by decide)
      (isClear_withTrees _) rfl
    obtain ⟨t, houtcome, -, hmove⟩ :=
      hmoved ((hmay ["a"] ["b"] (by decide) (by decide)).2 fun ⟨_, id, hfile⟩ => by cases hfile)
    exact ⟨t, houtcome, hmove.content?_arrived ["x"], hmove.arrived ["y"], hmove.left [],
      hmove.content?_kept (by decide) (by decide)⟩
  · obtain ⟨-, hfailed, hmay⟩ := @rename_moves_tree ⟨[], 0⟩ withTrees ⟨"/a"⟩ ⟨"/c"⟩ .directory
      sound_withTrees (by decide) (by decide) (htaken _ (by simp)) (htaken _ (by simp)) (by decide)
      (isClear_withTrees _) rfl
    obtain ⟨err, t, houtcome, hsame⟩ :=
      hfailed fun h => (hmay ["a"] ["c"] (by decide) (by decide)).1 h ⟨rfl, _, rfl⟩
    have hkept := hsame fun hdirectory => by cases hdirectory
    exact ⟨err, t, houtcome, hkept ["a", "x"], hkept ["c"]⟩

/-- The destination is not replaced when a directory is renamed to a file. -/
theorem not_forall_rename_replaces :
    ¬ ∀ (place : Place) (s : LocalStore) (source destination : Path) (names names' : List String)
      (e : Entry), s.disk.Sound → source.Spells names → destination.Spells names' →
      (route place source).IsTaken → (route place destination).IsTaken →
      ¬ names <+: names' ∧ ¬ names' <+: names → s.disk.IsClear (place.root ++ names') →
      s.disk.entryAt? (place.root ++ names) = some e →
      ∃ t, ((driver place).rename source destination).outcome s = (.ok (), t) ∧
        s.disk.IsMove t.disk (place.root ++ names) (place.root ++ names') := by
  intro h
  have htaken := isTaken_withTrees
  obtain ⟨t, houtcome, -⟩ := h ⟨[], 0⟩ withTrees ⟨"/a"⟩ ⟨"/c"⟩ ["a"] ["c"] .directory
    sound_withTrees (by decide) (by decide) (htaken _ (by simp)) (htaken _ (by simp)) (by decide)
    (isClear_withTrees _) rfl
  have hrefused : ((rename ⟨[], 0⟩ ⟨"/a"⟩ ⟨"/c"⟩).outcome withTrees).1 =
      .error (failure ⟨"/a"⟩ "rename" (.system .notDirectory)) := rfl
  cases hrefused.symm.trans (congrArg Prod.fst houtcome)

end LocalStore
end ContainerRegistry
