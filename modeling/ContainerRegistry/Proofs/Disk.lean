/-
# System calls on routes of names

A route that is made of names alone, short enough for the system, is walked
without surprises: what a call does is known from the entries at and above the
place. In a sound tree an entry lies in a directory and a file has one name, so
that nothing lies beneath a file and a rename of a file moves one entry.

Key definitions: `Route.Fits`, `Disk.Sound`, `Disk.IsClear`, `Disk.Grown`, `Disk.moved`.
Key theorems: `Disk.outcome_look`, `Disk.outcome_createDirectories`,
`Disk.outcome_writeFile`, `Disk.entryAt?_relabel`, `Disk.Sound.relabel`,
`Disk.outcome_rename`, `Disk.mem_names_iff`.
-/
import ContainerRegistry.Proofs.Path
import ContainerRegistry.Storage.Disk
import Mathlib.Data.List.Infix
import Mathlib.Data.List.Nodup
import Std.Data.TreeMap.Lemmas

namespace ContainerRegistry

/-! ### Routes of names -/

namespace Route

variable {names : List String}

theorem steps_ofNames (names : List String) : (ofNames names).steps = names.map .name := by
  simp [steps, ofNames, List.filterMap_map, Function.comp_def, Part.step?]

theorem trimEnd_ofNames (names : List String) :
    Part.trimEnd (ofNames names).parts = (ofNames names).parts := by
  rcases List.eq_nil_or_concat' names with rfl | ⟨names, last, rfl⟩
  · rfl
  · simp [Part.trimEnd, ofNames, Part.isIdle, Part.step?]

theorem ending_ofNames (names : List String) : (ofNames names).ending = .plain := by
  rcases List.eq_nil_or_concat' names with rfl | ⟨names, last, rfl⟩
  · rfl
  · simp [ending, ofNames, Part.isIdle, Part.step?]

theorem asksDirectory_ofNames (names : List String) : (ofNames names).asksDirectory = false := by
  rw [asksDirectory, ending_ofNames]
  rfl

theorem leading_ofNames (names : List String) :
    (ofNames names).leading = names.dropLast.map .name := by
  rw [leading, ending_ofNames, if_neg (by decide), steps_ofNames, List.map_dropLast]

theorem fileName?_ofNames (names : List String) : (ofNames names).fileName? = names.getLast? := by
  rw [fileName?, steps_ofNames, List.getLast?_map]
  cases names.getLast? <;> rfl

theorem last?_ofNames (names : List String) : (ofNames names).last? = names.getLast? := by
  rw [last?, ending_ofNames, if_neg (by decide), fileName?_ofNames]

theorem parent_ofNames (names : List String) :
    (ofNames names).parent = ofNames names.dropLast := by
  have hdrop : (ofNames names).parts.dropLast = (ofNames names.dropLast).parts := by
    simp [ofNames]
  rw [parent, trimEnd_ofNames, hdrop, trimEnd_ofNames]

theorem withFileName_ofNames (names : List String) (last name : String) :
    (ofNames (names ++ [last])).withFileName name = ofNames (names ++ [name]) := by
  rw [withFileName, fileName?_ofNames, parent_ofNames]
  simp [ofNames]

theorem size_ofNames_append (names more : List String) :
    (ofNames (names ++ more)).size = (ofNames names).size + (ofNames more).size := by
  induction names with
  | nil => simp [ofNames, size]
  | cons n names ih =>
    simp only [ofNames, size, List.map_append, List.cons_append, List.map_cons,
      List.foldr_cons] at ih ⊢
    omega

/-- A name that the system takes. -/
def IsUsable (name : String) : Prop :=
  name.utf8ByteSize ≤ longestName ∧ ∀ c ∈ name.toList, c.toNat ≠ 0

instance (name : String) : Decidable (IsUsable name) :=
  @instDecidableAnd _ _ (Nat.decLe _ _)
    (List.decidableBAll (fun c : Char => c.toNat ≠ 0) name.toList)

/-- Names that the system takes as one route. -/
structure Fits (names : List String) : Prop where
  usable : ∀ name ∈ names, IsUsable name
  size : (ofNames names).size ≤ longestRoute

theorem Fits.of_append {more : List String} (h : Fits (names ++ more)) : Fits names where
  usable name hname := h.usable name (List.mem_append_left _ hname)
  size := by
    have := h.size
    rw [size_ofNames_append] at this
    omega

theorem Fits.fault? (h : Fits names) : (ofNames names).fault? = none := by
  have hnul : (ofNames names).parts.any Part.holdsNul = false := by
    simp only [ofNames, List.any_map, List.any_eq_false, Function.comp_apply, Part.holdsNul,
      Bool.not_eq_true, beq_eq_false_iff_ne]
    exact fun name hname => (h.usable name hname).2
  rw [Route.fault?, hnul, if_neg (by simp), if_neg (Nat.not_lt.2 h.size)]

end Route

namespace Disk

variable {d d' : Disk} {p names : List String} {x : String}

theorem outcome_answer {α : Type} (x : Except Errno α) (d : Disk) :
    (answer x).outcome d = (x.mapError .system, d) := by
  cases x <;> rfl

theorem outcome_submit (h : Route.Fits names) (d : Disk) :
    (submit (.ofNames names)).outcome d = (.ok (), d) := by
  rw [submit, h.fault?]
  rfl

/-! ### Entries -/

theorem entryAt?_nil (d : Disk) : d.entryAt? [] = some .directory := rfl

theorem entryAt?_of_ne_nil (hp : p ≠ []) : d.entryAt? p = d.entries[p]? :=
  if_neg hp

theorem entryAt?_concat (d : Disk) (p : List String) (x : String) :
    d.entryAt? (p ++ [x]) = d.entries[p ++ [x]]? :=
  if_neg (by simp)

theorem entryAt?_addDirectory (hp : p ≠ []) (q : List String) :
    (d.addDirectory p).entryAt? q = if q = p then some .directory else d.entryAt? q := by
  by_cases hq : q = []
  · subst hq
    rw [if_neg (Ne.symm hp), entryAt?_nil, entryAt?_nil]
  · rw [entryAt?_of_ne_nil hq, entryAt?_of_ne_nil hq, addDirectory, Std.TreeMap.getElem?_insert]
    simp [eq_comm (a := q)]

theorem entryAt?_addFile (hp : p ≠ []) (bytes : Bytes) (q : List String) :
    (d.addFile p bytes).entryAt? q = if q = p then some (.file d.nextId) else d.entryAt? q := by
  by_cases hq : q = []
  · subst hq
    rw [if_neg (Ne.symm hp), entryAt?_nil, entryAt?_nil]
  · rw [entryAt?_of_ne_nil hq, entryAt?_of_ne_nil hq, addFile, Std.TreeMap.getElem?_insert]
    simp [eq_comm (a := q)]

theorem bytes_setBytes (d : Disk) (id : Nat) (bytes : Bytes) (id' : Nat) :
    (d.setBytes id bytes).bytes id' = if id' = id then bytes else d.bytes id' := by
  rw [Disk.bytes, Disk.bytes, setBytes, Std.TreeMap.getElem?_insert]
  by_cases h : id' = id
  · simp [h]
  · simp [h, Ne.symm h]

theorem bytes_addFile (d : Disk) (p : List String) (bytes : Bytes) (id : Nat) :
    (d.addFile p bytes).bytes id = if id = d.nextId then bytes else d.bytes id :=
  d.bytes_setBytes d.nextId bytes id

theorem entryAt?_prune (hp : p ≠ []) (q : List String) :
    (d.prune p).entryAt? q = if p <+: q then none else d.entryAt? q := by
  by_cases hq : q = []
  · subst hq
    rw [if_neg (by simpa using hp), entryAt?_nil, entryAt?_nil]
  · rw [entryAt?_of_ne_nil hq, entryAt?_of_ne_nil hq, prune, Std.TreeMap.getElem?_filter']
    by_cases hpq : p <+: q <;> cases d.entries[q]? <;> simp [isWithin, hpq, Option.filter]

/-- A tree in which every entry lies in a directory and a file has one name. -/
structure Sound (d : Disk) : Prop where
  parent : ∀ {p x e}, d.entryAt? (p ++ [x]) = some e → d.entryAt? p = some .directory
  fresh : ∀ {p id}, d.entryAt? p = some (.file id) → id < d.nextId
  lone : ∀ {p q id}, d.entryAt? p = some (.file id) → d.entryAt? q = some (.file id) → p = q

/-- What lies strictly above an entry is a directory. -/
theorem Sound.directory (h : d.Sound) : ∀ {rest p : List String} {e : Entry}, rest ≠ [] →
    d.entryAt? (p ++ rest) = some e → d.entryAt? p = some .directory
  | [], _, _, hne, _ => absurd rfl hne
  | [x], p, e, _, he => h.parent he
  | x :: y :: rest, p, e, _, he => by
    have hbelow : d.entryAt? (p ++ [x] ++ y :: rest) = some e := by simpa using he
    exact h.parent (h.directory (by simp) hbelow)

/-- What lies at or above a directory is a directory. -/
theorem Sound.directories (h : d.Sound) (hp : d.entryAt? p = some .directory) :
    ∀ q, q <+: p → d.entryAt? q = some .directory := by
  rintro q ⟨rest, rfl⟩
  by_cases hrest : rest = []
  · rw [hrest, List.append_nil] at hp
    exact hp
  · exact h.directory hrest hp

/-- Nothing lies beneath a file. -/
theorem Sound.beneath_file (h : d.Sound) {id : Nat} (hp : d.entryAt? p = some (.file id))
    {q : List String} (hq : p <+: q) (hne : q ≠ p) : d.entryAt? q = none := by
  obtain ⟨rest, rfl⟩ := hq
  refine Option.eq_none_iff_forall_ne_some.2 fun e he => ?_
  have hdir := h.directory (by simpa using hne) he
  rw [hp] at hdir
  cases hdir

/-! ### Looking -/

/-- No file stands strictly above a place. -/
def IsClear (d : Disk) (names : List String) : Prop :=
  ∀ q, q <+: names → q ≠ names → ∀ id, d.entryAt? q ≠ some (.file id)

theorem walk_directories : ∀ {names p : List String},
    (∀ n ∈ names, n.utf8ByteSize ≤ Route.longestName) →
    (∀ q, q <+: names → d.entryAt? (p ++ q) = some .directory) →
    d.walk p (names.map .name) = .ok (p ++ names)
  | [], p, _, _ => by rw [List.map_nil, walk, List.append_nil]
  | n :: names, p, hn, hd => by
    have hfirst : d.entryAt? (p ++ [n]) = some .directory := hd [n] (by simp)
    have hrest : d.walk (p ++ [n]) (names.map .name) = .ok (p ++ [n] ++ names) := by
      refine walk_directories (fun m hm => hn m (List.mem_cons_of_mem _ hm)) fun q hq => ?_
      simpa using hd (n :: q) (by simpa using hq)
    have hshort : ¬ Route.longestName < n.utf8ByteSize :=
      Nat.not_lt.2 (hn n List.mem_cons_self)
    rw [List.map_cons, walk, if_neg hshort, hfirst]
    simpa using hrest

/-- A walk along names comes through directories only. -/
theorem directories_of_walk : ∀ {names p q : List String}, d.entryAt? p = some .directory →
    d.walk p (names.map .name) = .ok q →
    q = p ++ names ∧ (∀ n ∈ names, n.utf8ByteSize ≤ Route.longestName) ∧
      ∀ r, r <+: names → d.entryAt? (p ++ r) = some .directory
  | [], p, q, hp, h => by
    rw [List.map_nil, walk] at h
    obtain rfl := Except.ok.inj h
    refine ⟨(List.append_nil p).symm, by simp, fun r hr => ?_⟩
    rw [List.prefix_nil.1 hr, List.append_nil]
    exact hp
  | n :: names, p, q, hp, h => by
    rw [List.map_cons, walk] at h
    by_cases hlong : Route.longestName < n.utf8ByteSize
    · rw [if_pos hlong] at h
      cases h
    rw [if_neg hlong] at h
    cases hfirst : d.entryAt? (p ++ [n]) with
    | none => simp [hfirst] at h
    | some e =>
      cases e with
      | file id => simp [hfirst] at h
      | directory =>
        simp only [hfirst] at h
        obtain ⟨rfl, hshort, hrest⟩ := directories_of_walk hfirst h
        refine ⟨by simp, List.forall_mem_cons.2 ⟨Nat.not_lt.1 hlong, hshort⟩, fun r hr => ?_⟩
        rcases List.prefix_cons_iff.1 hr with rfl | ⟨r, rfl, hbelow⟩
        · rwa [List.append_nil]
        · simpa using hrest r hbelow

theorem walk_missing : ∀ {names p : List String}, (∀ n ∈ names, Route.IsUsable n) →
    (∀ q, q <+: names → ∀ id, d.entryAt? (p ++ q) ≠ some (.file id)) →
    d.entryAt? p = some .directory → d.entryAt? (p ++ names) ≠ some .directory →
    d.walk p (names.map .name) = .error .noEntry
  | [], p, _, _, hp, hgone => absurd (by simpa using hp) hgone
  | n :: names, p, hn, hclear, _, hgone => by
    have hshort : ¬ Route.longestName < n.utf8ByteSize :=
      Nat.not_lt.2 (hn n List.mem_cons_self).1
    rw [List.map_cons, walk, if_neg hshort]
    cases hfirst : d.entryAt? (p ++ [n]) with
    | none => rfl
    | some e =>
      cases e with
      | file id => exact absurd hfirst (hclear [n] (by simp) id)
      | directory =>
        refine walk_missing (fun m hm => hn m (List.mem_cons_of_mem _ hm)) (fun q hq id => ?_)
          hfirst (by simpa using hgone)
        simpa using hclear (n :: q) (by simpa using hq) id

theorem target_concat (hfits : Route.Fits (p ++ [x]))
    (hp : ∀ q, q <+: p → d.entryAt? q = some .directory) :
    d.target (Route.ofNames (p ++ [x])).steps = .ok (.named p x) := by
  have hshort : ¬ Route.longestName < x.utf8ByteSize :=
    Nat.not_lt.2 (hfits.usable x (by simp)).1
  have hwalk : d.walk [] (p.map .name) = .ok p :=
    walk_directories (fun n hn => (hfits.usable n (by simp [hn])).1) hp
  rw [target, Route.steps_ofNames, List.map_append, List.map_singleton, List.dropLast_concat,
    List.getLast?_concat, hwalk]
  simp only [bind, Except.bind, if_neg hshort]

theorem target_missing (hfits : Route.Fits (p ++ [x])) (hclear : d.IsClear (p ++ [x]))
    (hp : d.entryAt? p ≠ some .directory) :
    d.target (Route.ofNames (p ++ [x])).steps = .error .noEntry := by
  have hwalk : d.walk [] (p.map .name) = .error .noEntry := by
    refine walk_missing (fun n hn => hfits.usable n (by simp [hn])) (fun q hq id => ?_) rfl hp
    exact hclear q (hq.trans (List.prefix_append _ _))
      (fun he => not_concat_isPrefix p x (he ▸ hq)) id
  rw [target, Route.steps_ofNames, List.map_append, List.map_singleton, List.dropLast_concat,
    hwalk]
  rfl

/-- **A route of names leads to the entry at its place.** -/
theorem find_ofNames (h : d.Sound) (hfits : Route.Fits names) (hclear : d.IsClear names) :
    d.find (.ofNames names) =
      match d.entryAt? names with
      | some e => .ok (names, e)
      | none => .error .noEntry := by
  rcases List.eq_nil_or_concat' names with rfl | ⟨p, x, rfl⟩
  · rfl
  by_cases hp : d.entryAt? p = some .directory
  · rw [find, target_concat hfits (h.directories hp), Route.asksDirectory_ofNames]
    simp only [bind, Except.bind]
    rcases d.entryAt? (p ++ [x]) with _ | ⟨_ | _⟩ <;> rfl
  · have hgone : d.entryAt? (p ++ [x]) = none :=
      Option.eq_none_iff_forall_ne_some.2 fun e he => hp (h.parent he)
    rw [find, target_missing hfits hclear hp, hgone]
    rfl

theorem outcome_look (h : d.Sound) (hfits : Route.Fits names) (hclear : d.IsClear names) :
    (look (.ofNames names)).outcome d =
      match d.entryAt? names with
      | some e => (.ok (names, e), d)
      | none => (.error (.system .noEntry), d) := by
  rw [look, Action.outcome_bind, outcome_submit hfits]
  simp only [Action.outcome_bind, Action.outcome_get, outcome_answer, find_ofNames h hfits hclear]
  cases d.entryAt? names <;> rfl

theorem isDirectory_ofNames (h : d.Sound) (hfits : Route.Fits names) (hclear : d.IsClear names) :
    d.isDirectory (.ofNames names) = true ↔ d.entryAt? names = some .directory := by
  rw [isDirectory, hfits.fault?, find_ofNames h hfits hclear]
  rcases d.entryAt? names with _ | ⟨_ | _⟩ <;> simp

/-! ### Making directories -/

/-- Directories were made at and above a place, and nothing else was done. -/
structure Grown (d d' : Disk) (names : List String) : Prop where
  entryAt? : ∀ q, d'.entryAt? q = if q <+: names then some .directory else d.entryAt? q
  contents : d'.contents = d.contents
  nextId : d'.nextId = d.nextId

theorem Grown.bytes (h : d.Grown d' names) (id : Nat) : d'.bytes id = d.bytes id := by
  rw [Disk.bytes, Disk.bytes, h.contents]

/-- Directories that are there need not be made. -/
theorem Grown.refl (h : ∀ q, q <+: names → d.entryAt? q = some .directory) : d.Grown d names where
  entryAt? q := by
    by_cases hq : q <+: names
    · rw [if_pos hq, h q hq]
    · rw [if_neg hq]
  contents := rfl
  nextId := rfl

theorem Grown.trans {d'' : Disk} (h : d.Grown d' p) (h' : d'.Grown d'' names) (hp : p <+: names) :
    d.Grown d'' names where
  entryAt? q := by
    rw [h'.entryAt?, h.entryAt?]
    by_cases hq : q <+: names
    · rw [if_pos hq, if_pos hq]
    · rw [if_neg hq, if_neg hq, if_neg fun hqp => hq (hqp.trans hp)]
  contents := h'.contents.trans h.contents
  nextId := h'.nextId.trans h.nextId

theorem Grown.entryAt?_concat (h : d.Grown d' p) (x : String) :
    d'.entryAt? (p ++ [x]) = d.entryAt? (p ++ [x]) := by
  rw [h.entryAt?, if_neg (not_concat_isPrefix p x)]

/-- Making directories puts no file above a place. -/
theorem Grown.isClear (h : d.Grown d' p) (hclear : d.IsClear names) : d'.IsClear names := by
  intro q hq hne id he
  rw [h.entryAt?] at he
  split at he
  · cases he
  · exact hclear q hq hne id he

/-- The entries once a file has a place for which only the directories were made. -/
theorem Grown.entryAt?_arrived {d'' : Disk} (h : d.Grown d' p) {old : Option (List String)}
    {id : Nat}
    (hentry : ∀ q, d''.entryAt? q = if q = p ++ [x] then some (.file id)
      else if old = some q then none else d'.entryAt? q)
    (hold : ∀ q, old = some q → ¬ q <+: p) (q : List String) :
    d''.entryAt? q = if q = p ++ [x] then some (.file id)
      else if q <+: p ++ [x] then some .directory
      else if old = some q then none else d.entryAt? q := by
  rw [hentry, h.entryAt?]
  by_cases hq : q = p ++ [x]
  · rw [if_pos hq, if_pos hq]
  rw [if_neg hq, if_neg hq]
  by_cases hpre : q <+: p ++ [x]
  · have habove := (List.prefix_concat_iff.1 hpre).resolve_left hq
    rw [if_pos hpre, if_neg fun he => hold q he habove, if_pos habove]
  · have habove : ¬ q <+: p := fun hq => hpre (hq.trans (List.prefix_append _ _))
    rw [if_neg hpre, if_neg habove]

theorem Grown.sound (h : d.Grown d' names) (hd : d.Sound) : d'.Sound := by
  have hfile : ∀ {q id}, d'.entryAt? q = some (.file id) → d.entryAt? q = some (.file id) := by
    intro q id hq
    rw [h.entryAt?] at hq
    split at hq
    · cases hq
    · exact hq
  constructor
  case parent =>
    intro p x e he
    rw [h.entryAt?] at he ⊢
    by_cases hp : p <+: names
    · rw [if_pos hp]
    · rw [if_neg fun hx => hp ((List.prefix_append p [x]).trans hx)] at he
      rw [if_neg hp]
      exact hd.parent he
  case fresh =>
    intro p id hp
    rw [h.nextId]
    exact hd.fresh (hfile hp)
  case lone =>
    intro p q id hp hq
    exact hd.lone (hfile hp) (hfile hq)

theorem outcome_makeDirectory (hfits : Route.Fits (p ++ [x]))
    (hp : ∀ q, q <+: p → d.entryAt? q = some .directory) :
    (makeDirectory (.ofNames (p ++ [x]))).outcome d =
      match d.entryAt? (p ++ [x]) with
      | some _ => (.error (.system .exists), d)
      | none => (.ok (), d.addDirectory (p ++ [x])) := by
  rw [makeDirectory, Action.outcome_bind, outcome_submit hfits]
  simp only [Action.outcome_bind, Action.outcome_get, outcome_answer, target_concat hfits hp,
    Except.mapError]
  cases d.entryAt? (p ++ [x]) <;> rfl

theorem outcome_makeDirectory_missing (hfits : Route.Fits (p ++ [x]))
    (hclear : d.IsClear (p ++ [x])) (hp : d.entryAt? p ≠ some .directory) :
    (makeDirectory (.ofNames (p ++ [x]))).outcome d = (.error (.system .noEntry), d) := by
  rw [makeDirectory, Action.outcome_bind, outcome_submit hfits]
  simp only [Action.outcome_bind, Action.outcome_get, outcome_answer,
    target_missing hfits hclear hp, Except.mapError]

/-- A new directory in an old one. -/
theorem grown_addDirectory (hp : ∀ q, q <+: p → d.entryAt? q = some .directory) :
    d.Grown (d.addDirectory (p ++ [x])) (p ++ [x]) where
  entryAt? q := by
    rw [entryAt?_addDirectory (by simp)]
    by_cases hq : q = p ++ [x]
    · rw [if_pos hq, if_pos (hq ▸ List.prefix_rfl)]
    · rw [if_neg hq]
      by_cases hpre : q <+: p ++ [x]
      · rw [if_pos hpre, hp q ((List.prefix_concat_iff.1 hpre).resolve_left hq)]
      · rw [if_neg hpre]
  contents := rfl
  nextId := rfl

theorem createDirectories_concat (p : List String) (x : String) :
    createDirectories (.ofNames (p ++ [x])) = (do
      match ← (makeDirectory (.ofNames (p ++ [x]))).attempt with
      | .ok _ => pure ()
      | .error (.system .noEntry) => do
        createDirectories (.ofNames p)
        ensureDirectory (.ofNames (p ++ [x]))
      | .error e => if (← get).isDirectory (.ofNames (p ++ [x])) then pure () else throw e) := by
  have hparts : (Route.ofNames (p ++ [x])).parts.reverse =
      .step (.name x) :: (Route.ofNames p).parts.reverse := by
    simp [Route.ofNames]
  have hroute : Route.mk ((Part.step (.name x) :: (Route.ofNames p).parts.reverse).reverse) =
      .ofNames (p ++ [x]) := by
    simp [Route.ofNames]
  rw [createDirectories, hparts, createReversed, hroute]
  rfl

/-- **Directories can be made wherever no file is in the way.** -/
theorem outcome_createDirectories (h : d.Sound) (hfits : Route.Fits names)
    (hclear : ∀ q, q <+: names → ∀ id, d.entryAt? q ≠ some (.file id)) :
    ∃ d', (createDirectories (.ofNames names)).outcome d = (.ok (), d') ∧ d.Grown d' names := by
  induction names using List.reverseRecOn with
  | nil => exact ⟨d, rfl, .refl fun q hq => by rw [List.prefix_nil.1 hq, entryAt?_nil]⟩
  | append_singleton p x ih =>
    have hclear' : d.IsClear (p ++ [x]) := fun q hq _ => hclear q hq
    rw [createDirectories_concat, Action.outcome_bind, Action.outcome_attempt]
    by_cases hp : d.entryAt? p = some .directory
    · rw [outcome_makeDirectory hfits (h.directories hp)]
      cases hx : d.entryAt? (p ++ [x]) with
      | none => exact ⟨_, rfl, grown_addDirectory (h.directories hp)⟩
      | some e =>
        have he : e = .directory := by
          cases e with
          | directory => rfl
          | file id => exact absurd hx (hclear _ List.prefix_rfl id)
        subst he
        have hdir := (isDirectory_ofNames h hfits hclear').2 hx
        refine ⟨d, ?_, .refl (h.directories hx)⟩
        simp only [Action.outcome_bind, Action.outcome_get, hdir, if_true, Action.outcome_pure]
    · -- what is above is made first, and then there is room for the directory
      obtain ⟨d', hmade, hgrown⟩ :=
        ih hfits.of_append fun q hq => hclear q (hq.trans (List.prefix_append _ _))
      have hdirs : ∀ q, q <+: p → d'.entryAt? q = some .directory := fun q hq => by
        rw [hgrown.entryAt?, if_pos hq]
      have hgone : d'.entryAt? (p ++ [x]) = none := by
        rw [hgrown.entryAt?_concat]
        exact Option.eq_none_iff_forall_ne_some.2 fun e he => hp (h.parent he)
      refine ⟨d'.addDirectory (p ++ [x]), ?_,
        hgrown.trans (grown_addDirectory hdirs) (List.prefix_append _ _)⟩
      rw [outcome_makeDirectory_missing hfits hclear' hp]
      simp only [Action.outcome_bind, hmade, ensureDirectory, Action.outcome_attempt,
        outcome_makeDirectory hfits hdirs, hgone, Action.outcome_pure]

/-- The directories above a place can be made where no file stands above it. -/
theorem outcome_createAbove (h : d.Sound) (hfits : Route.Fits (p ++ [x]))
    (hclear : d.IsClear (p ++ [x])) :
    ∃ d', (createDirectories (.ofNames p)).outcome d = (.ok (), d') ∧ d.Grown d' p :=
  outcome_createDirectories h hfits.of_append fun q hq =>
    hclear q (hq.trans (List.prefix_append _ _)) fun he => not_concat_isPrefix p x (he ▸ hq)

/-! ### Files -/

theorem outcome_openFile_new (hfits : Route.Fits (p ++ [x]))
    (hp : ∀ q, q <+: p → d.entryAt? q = some .directory) (hx : d.entryAt? (p ++ [x]) = none) :
    (openFile (.ofNames (p ++ [x])) true).outcome d =
      (.ok d.nextId, d.addFile (p ++ [x]) []) := by
  have hending : ((Route.ofNames (p ++ [x])).ending == .slash) = false := by
    rw [Route.ending_ofNames]
    rfl
  rw [openFile, Action.outcome_bind, outcome_submit hfits]
  simp only [Action.outcome_bind, Action.outcome_get, outcome_answer, target_concat hfits hp,
    Except.mapError, hending, hx, Route.asksDirectory_ofNames, Bool.and_false, Bool.false_eq_true,
    if_false, Bool.not_true, Bool.or_self, Action.outcome_set, Action.outcome_pure]

theorem outcome_openFile_old (h : d.Sound) (hfits : Route.Fits (p ++ [x])) {id : Nat}
    (hx : d.entryAt? (p ++ [x]) = some (.file id)) (create : Bool) :
    (openFile (.ofNames (p ++ [x])) create).outcome d = (.ok id, d) := by
  have hending : ((Route.ofNames (p ++ [x])).ending == .slash) = false := by
    rw [Route.ending_ofNames]
    rfl
  rw [openFile, Action.outcome_bind, outcome_submit hfits]
  simp only [Action.outcome_bind, Action.outcome_get, outcome_answer,
    target_concat hfits (h.directories (h.parent hx)), Except.mapError, hending, hx,
    Route.asksDirectory_ofNames, Bool.and_false, Bool.false_eq_true, if_false, Action.outcome_pure]

/-- A file that is not there is not opened unless it may be created. -/
theorem outcome_openFile_missing (h : d.Sound) (hfits : Route.Fits (p ++ [x]))
    (hclear : d.IsClear (p ++ [x])) (hgone : d.entryAt? (p ++ [x]) = none) :
    (openFile (.ofNames (p ++ [x])) false).outcome d = (.error (.system .noEntry), d) := by
  rw [openFile, Action.outcome_bind, outcome_submit hfits]
  by_cases hdir : d.entryAt? p = some .directory
  · simp only [Action.outcome_bind, Action.outcome_get, outcome_answer,
      target_concat hfits (h.directories hdir), Except.mapError, hgone, Bool.false_and,
      Bool.false_eq_true, if_false, Bool.not_false, Bool.true_or, if_true]
    rfl
  · simp only [Action.outcome_bind, Action.outcome_get, outcome_answer,
      target_missing hfits hclear hdir, Except.mapError, Bool.false_and, Bool.false_eq_true,
      if_false]

theorem Sound.congr (h : d.Sound) (hentry : ∀ q, d'.entryAt? q = d.entryAt? q)
    (hnext : d'.nextId = d.nextId) : d'.Sound where
  parent he := by
    rw [hentry] at he ⊢
    exact h.parent he
  fresh he := by
    rw [hnext]
    exact h.fresh ((hentry _).symm.trans he)
  lone hp hq := h.lone ((hentry _).symm.trans hp) ((hentry _).symm.trans hq)

theorem Sound.setBytes (h : d.Sound) (id : Nat) (bytes : Bytes) : (d.setBytes id bytes).Sound :=
  ⟨h.parent, h.fresh, h.lone⟩

/-- A new file in an old directory. -/
theorem Sound.addFile (h : d.Sound) (hp : d.entryAt? p = some .directory)
    (hx : d.entryAt? (p ++ [x]) = none) (bytes : Bytes) : (d.addFile (p ++ [x]) bytes).Sound := by
  have hentry : ∀ q, (d.addFile (p ++ [x]) bytes).entryAt? q =
      if q = p ++ [x] then some (.file d.nextId) else d.entryAt? q :=
    entryAt?_addFile (by simp) bytes
  constructor
  case parent =>
    intro q y e he
    rw [hentry] at he ⊢
    by_cases hq : q ++ [y] = p ++ [x]
    · obtain ⟨rfl, -⟩ := List.append_inj' hq rfl
      rw [if_neg (by simp), hp]
    · rw [if_neg hq] at he
      have hdir := h.parent he
      rw [if_neg, hdir]
      rintro rfl
      cases hdir.symm.trans hx
  case fresh =>
    intro q id he
    rw [hentry] at he
    show id < d.nextId + 1
    split at he
    · cases he
      exact Nat.lt_succ_self _
    · exact Nat.lt_succ_of_lt (h.fresh he)
  case lone =>
    intro q r id hq hr
    rw [hentry] at hq hr
    -- the identity of the new file is new
    have hnew : ∀ {q}, d.entryAt? q ≠ some (.file d.nextId) := fun he =>
      Nat.lt_irrefl _ (h.fresh he)
    split at hq <;> split at hr
    · rename_i h1 h2
      exact h1.trans h2.symm
    · cases hq
      exact absurd hr hnew
    · cases hr
      exact absurd hq hnew
    · exact h.lone hq hr

/-- A file that is not there yet is created. -/
theorem outcome_writeFile (hfits : Route.Fits (p ++ [x]))
    (hp : ∀ q, q <+: p → d.entryAt? q = some .directory) (hx : d.entryAt? (p ++ [x]) = none)
    (bytes : Bytes) : (writeFile (.ofNames (p ++ [x])) bytes).outcome d =
      (.ok (), (d.addFile (p ++ [x]) []).setBytes d.nextId bytes) := by
  rw [writeFile, Action.outcome_bind, outcome_openFile_new hfits hp hx]
  rfl

theorem outcome_removeFile (h : d.Sound) (hfits : Route.Fits names) (hclear : d.IsClear names)
    {id : Nat} (hfile : d.entryAt? names = some (.file id)) :
    (removeFile (.ofNames names)).outcome d = (.ok (), d.prune names) := by
  rw [removeFile, Action.outcome_bind, outcome_look h hfits hclear, hfile]
  rfl

/-! ### Renaming -/

/-- The entries at and beneath a place, each with the place that it gets beneath another. -/
def moved (d : Disk) (old new : List String) : List (List String × Entry) :=
  (d.entries.toList.filter fun e => isWithin old e.1).map fun e =>
    (new ++ e.1.drop old.length, e.2)

section Relabel

variable {old new : List String}

theorem mem_moved_iff (hold : old ≠ []) {q : List String} {e : Entry} :
    (q, e) ∈ d.moved old new ↔ ∃ rest, q = new ++ rest ∧ d.entryAt? (old ++ rest) = some e := by
  have hne : ∀ rest, old ++ rest ≠ [] := fun rest h0 => hold (List.append_eq_nil_iff.1 h0).1
  simp only [moved, List.mem_map, List.mem_filter, Std.TreeMap.mem_toList_iff_getElem?_eq_some,
    isWithin, List.isPrefixOf_iff_prefix, Prod.exists, Prod.mk.injEq]
  constructor
  · rintro ⟨_, e, ⟨he, rest, rfl⟩, rfl, rfl⟩
    exact ⟨rest, by rw [List.drop_left], by rwa [entryAt?_of_ne_nil (hne rest)]⟩
  · rintro ⟨rest, rfl, he⟩
    rw [entryAt?_of_ne_nil (hne rest)] at he
    exact ⟨_, e, ⟨he, rest, rfl⟩, by rw [List.drop_left], rfl⟩

/-- No two entries get one place. -/
theorem pairwise_moved (d : Disk) (old new : List String) :
    (d.moved old new).Pairwise fun a b => ¬ compare a.1 b.1 = .eq := by
  refine List.pairwise_map.2 ?_
  refine (Std.TreeMap.distinct_keys_toList.filter _).imp_of_mem fun {a b} ha hb hdistinct he => ?_
  simp only [List.mem_filter, isWithin, List.isPrefixOf_iff_prefix] at ha hb
  obtain ⟨rest, hrest⟩ := ha.2
  obtain ⟨rest', hrest'⟩ := hb.2
  rw [← hrest, ← hrest', List.drop_left, List.drop_left, Std.LawfulEqCmp.compare_eq_iff_eq] at he
  refine hdistinct ?_
  rw [← hrest, ← hrest', List.append_cancel_left he]
  exact Std.ReflCmp.compare_self

theorem entries_relabel (d : Disk) (old new : List String) : (d.relabel old new).entries.Equiv
    (((d.prune new).prune old).entries.insertMany (d.moved old new)) := by
  refine Std.TreeMap.Equiv.symm (Std.TreeMap.insertMany_list_equiv_foldl.trans ?_)
  rw [moved, List.foldl_map]
  exact .rfl

/-- **What was at and beneath the old place is at and beneath the new one**, and nothing else is. -/
theorem entryAt?_relabel (hold : old ≠ []) (hnew : new ≠ []) (q : List String) :
    (d.relabel old new).entryAt? q =
      if new <+: q then d.entryAt? (old ++ q.drop new.length)
      else if old <+: q then none else d.entryAt? q := by
  by_cases hq : q = []
  · rw [hq, if_neg (by simpa using hnew), if_neg (by simpa using hold), entryAt?_nil, entryAt?_nil]
  rw [entryAt?_of_ne_nil hq, (d.entries_relabel old new).getElem?_eq]
  -- where nothing is moved to, only what is cleared has changed
  have hkept : (∀ e, (q, e) ∉ d.moved old new) →
      (((d.prune new).prune old).entries.insertMany (d.moved old new))[q]? =
        if old <+: q then none else if new <+: q then none else d.entryAt? q := by
    intro hnot
    rw [Std.TreeMap.getElem?_insertMany_list_of_contains_eq_false, ← entryAt?_of_ne_nil hq,
      entryAt?_prune hold, entryAt?_prune hnew]
    simpa using hnot
  by_cases hbeneath : new <+: q
  · obtain ⟨rest, rfl⟩ := hbeneath
    rw [if_pos (List.prefix_append _ _), List.drop_left]
    cases hentry : d.entryAt? (old ++ rest) with
    | some e =>
      exact Std.TreeMap.getElem?_insertMany_list_of_mem Std.ReflCmp.compare_self
        (d.pairwise_moved old new) ((mem_moved_iff hold).2 ⟨rest, rfl, hentry⟩)
    | none =>
      rw [hkept, if_pos (List.prefix_append _ _), ite_self]
      intro e he
      obtain ⟨rest', hrest, he⟩ := (mem_moved_iff hold).1 he
      rw [← List.append_cancel_left hrest, hentry] at he
      cases he
  · rw [if_neg hbeneath, hkept, if_neg hbeneath]
    intro e he
    obtain ⟨rest, rfl, -⟩ := (mem_moved_iff hold).1 he
    exact hbeneath (List.prefix_append _ _)

/-- What is moved with a file is the file alone. -/
theorem entryAt?_relabel_file (h : d.Sound) {id : Nat} (hold : d.entryAt? old = some (.file id))
    (hnew : new ≠ []) (hfree : ∀ q, new <+: q → q ≠ new → d.entryAt? q = none) (q : List String) :
    (d.relabel old new).entryAt? q =
      if q = new then some (.file id) else if q = old then none else d.entryAt? q := by
  have hne : old ≠ [] := by
    rintro rfl
    cases hold
  rw [entryAt?_relabel hne hnew]
  by_cases hbeneath : new <+: q
  · obtain ⟨rest, rfl⟩ := hbeneath
    rw [if_pos (List.prefix_append _ _), List.drop_left]
    by_cases hrest : rest = []
    · rw [hrest, List.append_nil, List.append_nil, if_pos rfl, hold]
    · rw [h.beneath_file hold (List.prefix_append _ _) (by simpa using hrest),
        if_neg (by simpa using hrest), hfree _ (List.prefix_append _ _) (by simpa using hrest),
        ite_self]
  · rw [if_neg hbeneath, if_neg fun he : q = new => hbeneath (he ▸ List.prefix_rfl)]
    by_cases hq : q = old
    · rw [if_pos hq, if_pos (hq ▸ List.prefix_rfl)]
    rw [if_neg hq]
    by_cases hwithin : old <+: q
    · rw [if_pos hwithin, h.beneath_file hold hwithin hq]
    · rw [if_neg hwithin]

/-- What is put in a directory that is not moved itself still lies in directories. -/
theorem Sound.relabel (h : d.Sound) (hold : old ≠ []) (hp : d.entryAt? p = some .directory)
    (hinside : ¬ old <+: p) : (d.relabel old (p ++ [x])).Sound := by
  have hentry : ∀ q, (d.relabel old (p ++ [x])).entryAt? q = _ :=
    entryAt?_relabel hold (by simp)
  -- an entry comes from the old place, or is where it was
  have hfrom : ∀ {q e}, (d.relabel old (p ++ [x])).entryAt? q = some e →
      (∃ rest, q = p ++ [x] ++ rest ∧ d.entryAt? (old ++ rest) = some e) ∨
        (¬ p ++ [x] <+: q ∧ ¬ old <+: q) ∧ d.entryAt? q = some e := by
    intro q e he
    rw [hentry] at he
    by_cases hbeneath : p ++ [x] <+: q
    · obtain ⟨rest, rfl⟩ := hbeneath
      rw [if_pos (List.prefix_append _ _), List.drop_left] at he
      exact Or.inl ⟨rest, rfl, he⟩
    · rw [if_neg hbeneath] at he
      by_cases hwithin : old <+: q
      · rw [if_pos hwithin] at he
        cases he
      · rw [if_neg hwithin] at he
        exact Or.inr ⟨⟨hbeneath, hwithin⟩, he⟩
  constructor
  case parent =>
    intro q y e he
    rcases hfrom he with ⟨rest, hq, hsource⟩ | ⟨⟨hbeneath, hwithin⟩, hkept⟩
    · rcases List.eq_nil_or_concat' rest with rfl | ⟨rest, z, rfl⟩
      · -- the directory that holds the new place
        rw [List.append_nil] at hq
        obtain ⟨rfl, -⟩ := List.append_inj' hq rfl
        rw [hentry, if_neg (not_concat_isPrefix q x), if_neg hinside, hp]
      · rw [← List.append_assoc] at hq hsource
        obtain ⟨rfl, -⟩ := List.append_inj' hq rfl
        rw [hentry, if_pos (List.prefix_append _ _), List.drop_left]
        exact h.parent hsource
    · rw [hentry, if_neg fun hq => hbeneath (hq.trans (List.prefix_append _ _)),
        if_neg fun hq => hwithin (hq.trans (List.prefix_append _ _))]
      exact h.parent hkept
  case fresh =>
    intro q id he
    rcases hfrom he with ⟨rest, -, he⟩ | ⟨-, he⟩
    · exact h.fresh he
    · exact h.fresh he
  case lone =>
    intro q r id hq hr
    rcases hfrom hq with ⟨rest, rfl, hsource⟩ | ⟨⟨-, hout⟩, hkept⟩
    · rcases hfrom hr with ⟨rest', rfl, hsource'⟩ | ⟨⟨-, hout⟩, hkept⟩
      · rw [List.append_cancel_left (h.lone hsource hsource')]
      · exact absurd (h.lone hsource hkept ▸ List.prefix_append _ _) hout
    · rcases hfrom hr with ⟨rest, rfl, hsource⟩ | ⟨-, hkept'⟩
      · exact absurd (h.lone hsource hkept ▸ List.prefix_append _ _) hout
      · exact h.lone hkept hkept'

end Relabel

/-- Where there is a file or nothing, nothing is beneath. -/
theorem Sound.free (h : d.Sound) {new : List String} (hnew : d.entryAt? new ≠ some .directory) :
    ∀ q, new <+: q → q ≠ new → d.entryAt? q = none := by
  rintro q ⟨rest, rfl⟩ hne
  exact Option.eq_none_iff_forall_ne_some.2 fun e he =>
    hnew (h.directory (by simpa using hne) he)

/-- **A file takes the place of a file or of nothing.** -/
theorem outcome_rename (h : d.Sound) {p' : List String} {x' : String} {id : Nat}
    (hfits : Route.Fits (p ++ [x])) (hfits' : Route.Fits (p' ++ [x']))
    (hold : d.entryAt? (p ++ [x]) = some (.file id)) (hp' : d.entryAt? p' = some .directory)
    (hnew : d.entryAt? (p' ++ [x']) ≠ some .directory) (hne : p ++ [x] ≠ p' ++ [x']) :
    (rename (.ofNames (p ++ [x])) (.ofNames (p' ++ [x']))).outcome d =
      (.ok (), d.relabel (p ++ [x]) (p' ++ [x'])) := by
  have hwalk : ∀ {p x}, Route.Fits (p ++ [x]) → d.entryAt? p = some .directory →
      d.walk [] (Route.ofNames (p ++ [x])).leading = .ok p := by
    intro p x hfits hp
    rw [Route.leading_ofNames, List.dropLast_concat]
    exact walk_directories (fun n hn => (hfits.usable n (by simp [hn])).1) (h.directories hp)
  have hshort : ∀ {p x}, Route.Fits (p ++ [x]) → ¬ Route.longestName < x.utf8ByteSize :=
    fun hfits => Nat.not_lt.2 (hfits.usable _ (by simp)).1
  -- neither place is above the directory that holds the other
  have hinside : isWithin (p ++ [x]) p' = false := by
    rw [isWithin, Bool.eq_false_iff, ne_eq, List.isPrefixOf_iff_prefix]
    intro hpre
    rw [h.directories hp' _ hpre] at hold
    cases hold
  have hbeneath : isWithin (p' ++ [x']) p = false := by
    rw [isWithin, Bool.eq_false_iff, ne_eq, List.isPrefixOf_iff_prefix]
    exact fun hpre => hnew (h.directories (h.parent hold) _ hpre)
  have hfile : (Entry.file id != .directory) = true := rfl
  rw [rename, Action.outcome_bind, outcome_submit hfits]
  simp only [Action.outcome_bind, Action.outcome_get, outcome_submit hfits', outcome_answer,
    hwalk hfits (h.parent hold), hwalk hfits' hp', Except.mapError, Route.last?_ofNames,
    List.getLast?_concat, hold, hshort hfits, hshort hfits', hfile, Route.asksDirectory_ofNames,
    hinside, hbeneath, if_false, Bool.true_and, Bool.or_self, Bool.false_eq_true]
  cases hx' : d.entryAt? (p' ++ [x']) with
  | none => rfl
  | some e =>
    cases e with
    | directory => exact absurd hx' hnew
    | file id' =>
      simp only [Bool.not_true, Bool.false_eq_true, if_false, if_neg hne]
      rfl

/-- **A file is replaced by way of another name**, which is free before and after. -/
theorem outcome_replace (h : d.Sound) {y : String} (hfits : Route.Fits (p ++ [x]))
    (hfits' : Route.Fits (p ++ [y])) (hp : d.entryAt? p = some .directory)
    (hx : d.entryAt? (p ++ [x]) = none) (hy : d.entryAt? (p ++ [y]) ≠ some .directory) (hxy : x ≠ y)
    (bytes : Bytes) : ∃ written d',
      (writeFile (.ofNames (p ++ [x])) bytes).outcome d = (.ok (), written) ∧
      (rename (.ofNames (p ++ [x])) (.ofNames (p ++ [y]))).outcome written = (.ok (), d') ∧
      d'.Sound ∧ d'.nextId = d.nextId + 1 ∧
      (∀ q, d'.entryAt? q = if q = p ++ [y] then some (.file d.nextId) else d.entryAt? q) ∧
      ∀ id, d'.bytes id = if id = d.nextId then bytes else d.bytes id := by
  obtain ⟨written, hwritten⟩ : ∃ w, w = (d.addFile (p ++ [x]) []).setBytes d.nextId bytes :=
    ⟨_, rfl⟩
  have hentry : ∀ q, written.entryAt? q =
      if q = p ++ [x] then some (.file d.nextId) else d.entryAt? q := by
    rw [hwritten]
    exact entryAt?_addFile (by simp) []
  have hsound : written.Sound := by
    rw [hwritten]
    exact (h.addFile hp hx []).setBytes _ _
  have hold : written.entryAt? (p ++ [x]) = some (.file d.nextId) := by
    rw [hentry, if_pos rfl]
  have hp' : written.entryAt? p = some .directory := by
    rw [hentry, if_neg (by simp), hp]
  have hnew : written.entryAt? (p ++ [y]) ≠ some .directory := by
    rwa [hentry, if_neg (by simpa using Ne.symm hxy)]
  refine ⟨written, written.relabel (p ++ [x]) (p ++ [y]), ?_, ?_,
    hsound.relabel (by simp) hp' (not_concat_isPrefix p x), ?_, fun q => ?_, fun id => ?_⟩
  · rw [outcome_writeFile hfits (h.directories hp) hx, hwritten]
  · exact outcome_rename hsound hfits hfits' hold hp' hnew (by simpa using hxy)
  · rw [hwritten]
    rfl
  · rw [entryAt?_relabel_file hsound hold (by simp) (hsound.free hnew), hentry]
    by_cases hqx : q = p ++ [x]
    · rw [if_pos hqx, hqx, hx]
    · rw [if_neg hqx, if_neg hqx]
  · have hbytes : (written.relabel (p ++ [x]) (p ++ [y])).bytes id = written.bytes id := rfl
    rw [hbytes, hwritten, bytes_setBytes]
    by_cases hid : id = d.nextId
    · rw [if_pos hid, if_pos hid]
    · rw [if_neg hid, if_neg hid, bytes_addFile, if_neg hid]

/-! ### Listing directories -/

theorem Sound.prune (h : d.Sound) (hp : p ≠ []) : (d.prune p).Sound := by
  have hentry : ∀ {q e}, (d.prune p).entryAt? q = some e → ¬ p <+: q ∧ d.entryAt? q = some e := by
    intro q e he
    rw [entryAt?_prune hp] at he
    split at he
    · cases he
    · rename_i hq
      exact ⟨hq, he⟩
  constructor
  case parent =>
    intro q y e he
    obtain ⟨hq, he⟩ := hentry he
    rw [entryAt?_prune hp, if_neg fun hpq => hq (hpq.trans (List.prefix_append _ _))]
    exact h.parent he
  case fresh => exact fun he => h.fresh (hentry he).2
  case lone => exact fun hq hr => h.lone (hentry hq).2 (hentry hr).2

/-- A place that ends in a name in a directory is the place of that name. -/
theorem eq_concat_of_last {q : List String} (h : (match q.getLast? with
    | some name => if q.dropLast = p then some name else none
    | none => none) = some x) : q = p ++ [x] := by
  cases hname : q.getLast? with
  | none => simp [hname] at h
  | some last =>
    obtain ⟨q, rfl⟩ := List.getLast?_eq_some_iff.1 hname
    simp only [hname, List.dropLast_concat, Option.ite_none_right_eq_some] at h
    rw [h.1, Option.some.inj h.2]

theorem mem_names_iff : x ∈ d.names p ↔ ∃ e, d.entryAt? (p ++ [x]) = some e := by
  rw [entryAt?_concat, ← Option.isSome_iff_exists, ← Std.TreeMap.mem_iff_isSome_getElem?,
    ← Std.TreeMap.mem_keys, names, List.mem_filterMap]
  constructor
  · rintro ⟨q, hq, hlast⟩
    rwa [← eq_concat_of_last hlast]
  · intro hmem
    exact ⟨p ++ [x], hmem, by simp⟩

theorem nodup_names (d : Disk) (p : List String) : (d.names p).Nodup := by
  refine List.Nodup.filterMap (fun q q' name hq hq' => ?_) d.entries.nodup_keys
  rw [eq_concat_of_last hq, eq_concat_of_last hq']

theorem outcome_children (h : d.Sound) (hfits : Route.Fits p) (hclear : d.IsClear p) :
    (children (.ofNames p)).outcome d =
      match d.entryAt? p with
      | some .directory => (.ok (d.names p), d)
      | some (.file _) => (.error (.system .notDirectory), d)
      | none => (.error (.system .noEntry), d) := by
  rw [children, Action.outcome_bind, outcome_look h hfits hclear]
  rcases d.entryAt? p with _ | ⟨_ | _⟩ <;> rfl

end Disk
end ContainerRegistry
