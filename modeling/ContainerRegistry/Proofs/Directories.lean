/-
# Routes that lead to a directory

What a route makes of its names does not hang on how it ends, or on whether the system takes
it: what it leads to is at the place of the names, beneath directories only. It leads to a
directory just if the system takes it and there are directories all the way. Such a directory
is removed by emptying it first, with what lies beneath it at any depth; then its name is
removed, for which the route must end in one.

Key theorems: `Disk.of_find`, `Disk.isDirectory_iff`, `Disk.outcome_removeTree_of_steps`,
`Disk.outcome_removeTree`.
-/
import ContainerRegistry.Proofs.Disk

namespace ContainerRegistry

open ContainerRegistry.Action

namespace Disk

variable {d : Disk} {r : Route} {names p : List String} {x : String}

/-! ### Where a route of names leads -/

theorem outcome_submit_eq (r : Route) (d : Disk) :
    (submit r).outcome d = (r.fault?.elim (.ok ()) .error, d) := by
  rw [submit]
  cases r.fault? <;> rfl

theorem outcome_submit_snd (r : Route) (d : Disk) : ((submit r).outcome d).2 = d := by
  rw [outcome_submit_eq]

theorem outcome_answer_snd {α : Type} (x : Except Errno α) (d : Disk) :
    ((answer x).outcome d).2 = d := by
  rw [outcome_answer]

theorem of_outcome_submit {u : Unit} (h : ((submit r).outcome d).1 = .ok u) : r.fault? = none := by
  rw [outcome_submit_eq] at h
  cases hfault : r.fault? with
  | none => rfl
  | some e => simp [hfault] at h

theorem of_outcome_answer {α : Type} {x : Except Errno α} {a : α}
    (h : ((answer x).outcome d).1 = .ok a) : x = .ok a := by
  rw [outcome_answer] at h
  cases x with
  | error e => cases h
  | ok b => exact congrArg Except.ok (Except.ok.inj h)

theorem outcome_look_eq (r : Route) (d : Disk) : (look r).outcome d =
    (r.fault?.elim ((d.find r).mapError .system) .error, d) := by
  rw [look, outcome_bind, outcome_submit_eq]
  cases r.fault? with
  | none => exact outcome_answer _ _
  | some e => rfl

theorem outcome_look_snd (r : Route) (d : Disk) : ((look r).outcome d).2 = d := by
  rw [outcome_look_eq]

/-- The name that a route of names ends in, and the names before it. -/
theorem of_last? (hsteps : r.steps = names.map .name) (h : r.last? = some x) :
    ∃ p, names = p ++ [x] ∧ r.leading = p.map .name := by
  rw [Route.last?] at h
  by_cases hdot : r.ending = .dot
  · rw [if_pos hdot] at h
    cases h
  rw [if_neg hdot, Route.fileName?, hsteps, List.getLast?_map] at h
  obtain ⟨p, rfl⟩ : ∃ p, names = p ++ [x] := by
    cases hlast : names.getLast? with
    | none => simp [hlast] at h
    | some y =>
      obtain rfl : y = x := by simpa [hlast] using h
      exact List.getLast?_eq_some_iff.1 hlast
  refine ⟨p, rfl, ?_⟩
  rw [Route.leading, if_neg hdot, hsteps, List.map_append, List.map_singleton, List.dropLast_concat]

/-- What a route of names has before its end are some of the names. -/
theorem leading_of_steps (hsteps : r.steps = names.map .name) :
    ∃ above, above <+: names ∧ r.leading = above.map .name := by
  rw [Route.leading, hsteps]
  by_cases hdot : r.ending = .dot
  · exact ⟨names, List.prefix_rfl, if_pos hdot⟩
  · exact ⟨names.dropLast, List.dropLast_prefix _, by rw [if_neg hdot, List.map_dropLast]⟩

/-- An entry that a route of names leads to is at the place of the names, beneath directories. -/
theorem of_find {q : List String} {e : Entry} (hsteps : r.steps = names.map .name)
    (h : d.find r = .ok (q, e)) :
    q = names ∧ d.entryAt? names = some e ∧ (∀ n ∈ names, n.utf8ByteSize ≤ Route.longestName) ∧
      ∀ above, above <+: names → above ≠ names → d.entryAt? above = some .directory := by
  rcases List.eq_nil_or_concat' names with rfl | ⟨p, x, rfl⟩
  · rw [find, target, hsteps] at h
    cases h
    exact ⟨rfl, rfl, by simp, fun above habove hne => absurd (List.prefix_nil.1 habove) hne⟩
  rw [find, target, hsteps, List.map_append, List.map_singleton, List.dropLast_concat,
    List.getLast?_concat] at h
  cases hwalk : d.walk [] (p.map .name) with
  | error e => simp [hwalk, bind, Except.bind] at h
  | ok parent =>
    obtain ⟨hparent, hshort, habove⟩ := directories_of_walk d.entryAt?_nil hwalk
    rw [hwalk, hparent] at h
    simp only [bind, Except.bind, List.nil_append] at h habove
    by_cases hlong : Route.longestName < x.utf8ByteSize
    · simp [hlong] at h
    simp only [if_neg hlong] at h
    have hnames : ∀ n ∈ p ++ [x], n.utf8ByteSize ≤ Route.longestName := by
      rw [List.forall_mem_append, List.forall_mem_singleton]
      exact ⟨hshort, Nat.not_lt.1 hlong⟩
    have hdirectories : ∀ above, above <+: p ++ [x] → above ≠ p ++ [x] →
        d.entryAt? above = some .directory := fun above hle hne =>
      habove above ((List.prefix_concat_iff.1 hle).resolve_left hne)
    cases hentry : d.entryAt? (p ++ [x]) with
    | none => simp [hentry] at h
    | some entry =>
      cases entry with
      | directory =>
        simp only [hentry, Except.ok.injEq, Prod.mk.injEq] at h
        obtain ⟨rfl, rfl⟩ := h
        exact ⟨rfl, rfl, hnames, hdirectories⟩
      | file id =>
        by_cases hasks : r.asksDirectory = true
        · simp [hentry, hasks] at h
        · simp only [hentry, if_neg hasks, Except.ok.injEq, Prod.mk.injEq] at h
          obtain ⟨rfl, rfl⟩ := h
          exact ⟨rfl, rfl, hnames, hdirectories⟩

theorem find_directory (hsteps : r.steps = names.map .name)
    (hshort : ∀ n ∈ names, n.utf8ByteSize ≤ Route.longestName)
    (h : ∀ q, q <+: names → d.entryAt? q = some .directory) :
    d.find r = .ok (names, .directory) := by
  rcases List.eq_nil_or_concat' names with rfl | ⟨p, x, rfl⟩
  · rw [find, target, hsteps]
    rfl
  have hwalk : d.walk [] (p.map .name) = .ok p :=
    walk_directories (fun n hn => hshort n (List.mem_append_left _ hn)) fun q hq =>
      h q (hq.trans (List.prefix_append _ _))
  have hx : ¬ Route.longestName < x.utf8ByteSize := Nat.not_lt.2 (hshort x (by simp))
  rw [find, target, hsteps, List.map_append, List.map_singleton, List.dropLast_concat,
    List.getLast?_concat, hwalk]
  simp only [bind, Except.bind, if_neg hx, h (p ++ [x]) List.prefix_rfl]

/-- **A route of names leads to a directory** if the system takes it and there are directories
all the way. -/
theorem isDirectory_iff (hsteps : r.steps = names.map .name) :
    d.isDirectory r = true ↔ r.fault? = none ∧
      (∀ n ∈ names, n.utf8ByteSize ≤ Route.longestName) ∧
      ∀ q, q <+: names → d.entryAt? q = some .directory := by
  rw [isDirectory]
  constructor
  · intro h
    cases hfault : r.fault? with
    | some e => simp [hfault] at h
    | none =>
      rcases hfind : d.find r with e | ⟨q, _ | id⟩
      · simp [hfault, hfind] at h
      · obtain ⟨-, hentry, hshort, habove⟩ := of_find hsteps hfind
        refine ⟨rfl, hshort, fun above hle => ?_⟩
        by_cases he : above = names
        · rwa [he]
        · exact habove above hle he
      · simp [hfault, hfind] at h
  · rintro ⟨hfault, hshort, h⟩
    rw [hfault, find_directory hsteps hshort h]

/-! ### Removing a directory -/

theorem entryAt?_clear (d : Disk) (p q : List String) : (d.clear p).entryAt? q =
    if q = p then some .directory else if p <+: q then none else d.entryAt? q := by
  by_cases hp : p = []
  · subst hp
    rw [clear, if_pos rfl]
    by_cases hq : q = []
    · rw [if_pos hq, hq, entryAt?_nil]
    · rw [if_neg hq, if_pos List.nil_prefix, entryAt?_of_ne_nil hq, prune,
        Std.TreeMap.getElem?_filter']
      cases d.entries[q]? <;> simp [isWithin, Option.filter]
  · rw [clear, if_neg hp, entryAt?_addDirectory hp, entryAt?_prune hp]

/-- Clearing a directory before it is removed makes no difference. -/
theorem entryAt?_prune_clear (hp : p ≠ []) (q : List String) :
    ((d.clear p).prune p).entryAt? q = (d.prune p).entryAt? q := by
  rw [entryAt?_prune hp, entryAt?_prune hp, entryAt?_clear]
  by_cases hq : p <+: q
  · rw [if_pos hq, if_pos hq]
  · rw [if_neg hq, if_neg fun he : q = p => hq (he ▸ List.prefix_rfl)]

theorem contents_clear (d : Disk) (p : List String) : (d.clear p).contents = d.contents := by
  rw [clear]
  split <;> rfl

theorem nextId_clear (d : Disk) (p : List String) : (d.clear p).nextId = d.nextId := by
  rw [clear]
  split <;> rfl

/-- Clearing a directory leaves it where it is. -/
theorem entryAt?_clear_above (h : ∀ q, q <+: names → d.entryAt? q = some .directory)
    {q : List String} (hq : q <+: names) : (d.clear names).entryAt? q = some .directory := by
  rw [entryAt?_clear]
  by_cases he : q = names
  · rw [if_pos he]
  · rw [if_neg he, if_neg fun hle => he (hq.eq_of_length_le hle.length_le), h q hq]

theorem names_clear (d : Disk) (p : List String) : (d.clear p).names p = [] := by
  rw [List.eq_nil_iff_forall_not_mem]
  intro y hy
  obtain ⟨e, he⟩ := mem_names_iff.1 hy
  rw [entryAt?_clear, if_neg (by simp), if_pos (List.prefix_append _ _)] at he
  cases he

/-- **A directory goes with everything beneath it**, and only that goes if its route does not end
in its name. -/
theorem outcome_removeTree_of_steps (hsteps : r.steps = names.map .name)
    (h : d.isDirectory r = true) : (removeTree r).outcome d =
      if r.last? = none then
        (.error (.system (if r.ending = .dot then .invalid else .notEmpty)), d.clear names)
      else (.ok (), (d.clear names).prune names) := by
  obtain ⟨hfault, hshort, habove⟩ := (isDirectory_iff hsteps).1 h
  obtain ⟨above, hle, hleading⟩ := leading_of_steps hsteps
  have hwalk : (d.clear names).walk [] r.leading = .ok above := by
    rw [hleading]
    exact walk_directories (fun n hn => hshort n (hle.subset hn)) fun q hq =>
      entryAt?_clear_above habove (hq.trans hle)
  rw [removeTree, outcome_bind, outcome_look_eq, hfault, find_directory hsteps hshort habove]
  simp only [Option.elim_none, Except.mapError, outcome_bind, outcome_modify, outcome_attempt,
    removeDirectory, outcome_submit_eq, hfault, outcome_get, outcome_answer, hwalk]
  cases hlast : r.last? with
  | none =>
    by_cases hdot : r.ending = .dot <;> simp [hdot, fail, outcome_throw]
  | some x =>
    obtain ⟨p, rfl, hp⟩ := of_last? hsteps hlast
    obtain rfl : above = p :=
      List.map_injective_iff.2 (fun _ _ => Step.name.inj) (hleading.symm.trans hp)
    simp only [entryAt?_clear_above habove List.prefix_rfl, names_clear, List.isEmpty_nil, if_true,
      outcome_set, outcome_pure, reduceCtorEq, if_false]

theorem outcome_removeTree (h : d.Sound) (hfits : Route.Fits (p ++ [x]))
    (hdir : d.entryAt? (p ++ [x]) = some .directory) :
    ∃ d', (removeTree (.ofNames (p ++ [x]))).outcome d = (.ok (), d') ∧ d'.Sound ∧
      d'.nextId = d.nextId ∧
      (∀ q, d'.entryAt? q = if p ++ [x] <+: q then none else d.entryAt? q) ∧
      ∀ id, d'.bytes id = d.bytes id := by
  have hsteps := Route.steps_ofNames (p ++ [x])
  have hisDirectory : d.isDirectory (.ofNames (p ++ [x])) = true :=
    (isDirectory_iff hsteps).2
      ⟨hfits.fault?, fun n hn => (hfits.usable n hn).1, h.directories hdir⟩
  have hlast : (Route.ofNames (p ++ [x])).last? ≠ none := by
    simp [Route.last?_ofNames]
  have hentry := entryAt?_prune_clear (d := d) (p := p ++ [x]) (by simp)
  have hnext : ((d.clear (p ++ [x])).prune (p ++ [x])).nextId = d.nextId := nextId_clear d _
  refine ⟨(d.clear (p ++ [x])).prune (p ++ [x]), ?_, (h.prune (by simp)).congr hentry hnext, hnext,
    fun q => by rw [hentry, entryAt?_prune (by simp)], fun id => ?_⟩
  · rw [outcome_removeTree_of_steps hsteps hisDirectory, if_neg hlast]
  · rw [Disk.bytes, Disk.bytes, prune, contents_clear]

end Disk
end ContainerRegistry
