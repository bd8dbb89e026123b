/-
# A call does not depend on how a path is spelled

A path may repeat its slashes and hold single dots between its names. Its route
then has idle parts between the steps. They count when the system decides whether
a route is too long, and for nothing else: on a route that the system takes, each
call does what it does on the route of the names alone.

Key definitions: `Path.Spells`, `Route.IsTaken`, `Route.Spells`.
Key theorems: `LocalStore.spells_route`, `Route.Spells.withFileName`,
`Disk.look_spelled`, `Disk.openFile_spelled`, `Disk.rename_spelled`,
`Disk.createDirectories_spelled`.
-/
import ContainerRegistry.Proofs.Place

namespace ContainerRegistry

/-! ### Absolute paths -/

namespace Path

/-- An absolute path of these names, however it is spelled. -/
def Spells (p : Path) (names : List String) : Prop :=
  p.components = .root :: names.map .name

instance (p : Path) (names : List String) : Decidable (p.Spells names) :=
  inferInstanceAs (Decidable (_ = _))

theorem laterComponent_ne_root (part : List Char) : laterComponent part ≠ some .root := by
  rw [laterComponent]
  split
  · simp
  · split <;> simp

theorem firstComponent_ne_root (part : List Char) : firstComponent part ≠ some .root := by
  rw [firstComponent]
  split
  · simp
  · exact laterComponent_ne_root part

/-- A function that passes over a root and a dot sees the parts of a path alike. -/
theorem filterMap_ofParts {α : Type} {f : Component → Option α} (hroot : f .root = none)
    (hhere : f .here = none) (parts : List (List Char)) :
    (ofParts parts).filterMap f = (parts.filterMap laterComponent).filterMap f := by
  have hfirst : ∀ part, (firstComponent part).toList.filterMap f =
      (laterComponent part).toList.filterMap f := by
    intro part
    rw [firstComponent]
    split
    · rename_i hdot
      simp [hdot, laterComponent, hhere]
    · rfl
  have hcons : ∀ part rest, (part :: rest).filterMap laterComponent =
      (laterComponent part).toList ++ rest.filterMap laterComponent := by
    intro part rest
    cases hc : laterComponent part <;> simp [hc]
  rcases parts with _ | ⟨part, rest⟩
  · rfl
  by_cases hrest : rest = []
  · rw [hrest, ofParts, hcons, hfirst, List.filterMap_nil, List.append_nil]
  rw [ofParts_cons part hrest, List.filterMap_append, hcons, List.filterMap_append]
  congr 1
  by_cases hpart : part = []
  · simp [hpart, hroot, laterComponent]
  · rw [if_neg hpart, hfirst]

/-- Only an empty part before a slash is the root. -/
theorem ofParts_root {parts : List (List Char)} {cs : List Component}
    (h : ofParts parts = .root :: cs) :
    ∃ rest, parts = [] :: rest ∧ rest ≠ [] ∧ rest.filterMap laterComponent = cs := by
  rcases parts with _ | ⟨part, rest⟩
  · simp [ofParts] at h
  have hfirst : (firstComponent part).toList ≠ .root :: cs := by
    cases hc : firstComponent part with
    | none => simp
    | some c =>
      rw [Option.toList_some, ne_eq, List.cons.injEq]
      exact fun he => firstComponent_ne_root part (hc.trans (congrArg some he.1))
  by_cases hrest : rest = []
  · rw [hrest, ofParts] at h
    exact absurd h hfirst
  rw [ofParts_cons part hrest] at h
  by_cases hpart : part = []
  · refine ⟨rest, by rw [hpart], hrest, ?_⟩
    simpa [hpart] using h
  · rw [if_neg hpart] at h
    cases hc : firstComponent part with
    | some c =>
      rw [hc, Option.toList_some, List.singleton_append, List.cons.injEq] at h
      exact absurd (hc.trans (congrArg some h.1)) (firstComponent_ne_root part)
    | none =>
      rw [hc, Option.toList_none, List.nil_append] at h
      have hmem : Component.root ∈ rest.filterMap laterComponent := by simp [h]
      obtain ⟨part', -, hpart'⟩ := List.mem_filterMap.1 hmem
      exact absurd hpart' (laterComponent_ne_root part')

theorem isAbsolute_of_splitOn {p : Path} {rest : List (List Char)} (hrest : rest ≠ [])
    (h : p.text.toList.splitOn '/' = [] :: rest) : p.isAbsolute = true := by
  rw [isAbsolute]
  cases htext : p.text.toList with
  | nil =>
    rw [htext, List.splitOn_nil, List.cons.injEq] at h
    exact absurd h.2.symm hrest
  | cons c cs =>
    rw [htext, List.splitOn_cons_eq_if_modifyHead] at h
    by_cases hc : (c == '/') = true
    · simpa using hc
    · rw [if_neg hc] at h
      obtain ⟨first, more, hsplit⟩ := List.exists_cons_of_ne_nil (List.splitOn_ne_nil '/' cs)
      simp [hsplit] at h

end Path

/-! ### Routes that the system takes -/

/-- The component of a path that a step goes by. -/
def Step.component : Step → Component
  | up => .up
  | name text => .name text

/-- The step that a component of a path is. -/
def Component.step? : Component → Option Step
  | up => some .up
  | name text => some (.name text)
  | _ => none

theorem Step.component_injective : Function.Injective Step.component := by
  intro a b h
  cases a <;> cases b <;> simp_all [component]

namespace Part

/-- A trimmed list of parts ends in a step. -/
theorem getLast?_trimEnd {parts : List Part} (h : trimEnd parts ≠ []) :
    ∃ s, (trimEnd parts).getLast? = some (.step s) := by
  rw [trimEnd, List.getLast?_reverse]
  rw [trimEnd, ne_eq, List.reverse_eq_nil_iff] at h
  obtain ⟨p, rest, hp⟩ := List.exists_cons_of_ne_nil h
  have hidle : p.isIdle = false := by
    simpa [hp] using List.head?_dropWhile_not isIdle parts.reverse
  rw [hp, List.head?_cons]
  cases p with
  | step s => exact ⟨s, rfl⟩
  | blank | dot => cases hidle

theorem trimEnd_isPrefix (parts : List Part) : trimEnd parts <+: parts := by
  have h := List.dropWhile_suffix isIdle (l := parts.reverse)
  rw [← List.reverse_prefix, List.reverse_reverse] at h
  exact h

end Part

namespace Route

variable {r r' : Route} {names p : List String} {x last : String}

theorem size_append (parts more : List Part) :
    (Route.mk (parts ++ more)).size = (Route.mk parts).size + (Route.mk more).size := by
  induction parts with
  | nil => simp [size]
  | cons part parts ih =>
    simp only [size, List.cons_append, List.foldr_cons] at ih ⊢
    omega

/-- A route is no shorter than its names. -/
theorem size_ofNames_le_size : ∀ {parts : List Part} {names : List String},
    parts.filterMap Part.step? = names.map .name → (ofNames names).size ≤ (Route.mk parts).size
  | [], names, h => by
    rw [List.map_eq_nil_iff.1 h.symm]
    exact Nat.le_refl _
  | .blank :: parts, names, h | .dot :: parts, names, h => by
    have ih : (ofNames names).size ≤ (Route.mk parts).size := size_ofNames_le_size h
    simp only [size, List.foldr_cons] at ih ⊢
    omega
  | .step s :: parts, [], h => by simp [Part.step?] at h
  | .step s :: parts, n :: names, h => by
    have hstep : s :: parts.filterMap Part.step? = .name n :: names.map .name := h
    rw [List.cons.injEq] at hstep
    have ih := size_ofNames_le_size hstep.2
    rw [hstep.1]
    simp only [ofNames, size, List.map_cons, List.foldr_cons] at ih ⊢
    omega

/-- A route that the system takes: it is not too long, and neither is a name in it. -/
structure IsTaken (r : Route) : Prop where
  fault : r.fault? = none
  short : ∀ text, Step.name text ∈ r.steps → text.utf8ByteSize ≤ longestName

theorem fault?_eq_none_iff :
    r.fault? = none ↔ r.parts.any Part.holdsNul = false ∧ r.size ≤ longestRoute := by
  rw [fault?]
  cases r.parts.any Part.holdsNul with
  | true => simp
  | false => simp

theorem IsTaken.of_steps (hfault : r.fault? = none) (hsteps : r.steps = names.map .name)
    (hshort : ∀ n ∈ names, n.utf8ByteSize ≤ longestName) : r.IsTaken where
  fault := hfault
  short text htext := hshort text (by simpa [hsteps] using htext)

theorem IsTaken.nulFree (h : r.IsTaken) (hx : Step.name x ∈ r.steps) :
    ∀ c ∈ x.toList, c.toNat ≠ 0 := by
  obtain ⟨hnul, -⟩ := fault?_eq_none_iff.1 h.fault
  obtain ⟨part, hpart, hstep⟩ := List.mem_filterMap.1 hx
  intro c hc h0
  have hholds : part.holdsNul = true := by
    cases part with
    | blank | dot => cases hstep
    | step s =>
      obtain rfl : s = .name x := Option.some.inj hstep
      exact List.any_eq_true.2 ⟨c, hc, by simpa using h0⟩
  rw [List.any_eq_false] at hnul
  exact hnul part hpart hholds

theorem size_le_of_isPrefix (hp : r'.parts <+: r.parts) : r'.size ≤ r.size := by
  obtain ⟨more, hmore⟩ := hp
  have hr : r = ⟨r'.parts ++ more⟩ := by rw [hmore]
  rw [hr, size_append]
  exact Nat.le_add_right _ _

/-- The way to a directory above is taken with the way to what lies beneath. -/
theorem IsTaken.of_isPrefix (h : r.IsTaken) (hp : r'.parts <+: r.parts) : r'.IsTaken := by
  obtain ⟨hnul, hsize⟩ := fault?_eq_none_iff.1 h.fault
  constructor
  case fault =>
    rw [fault?_eq_none_iff]
    rw [List.any_eq_false] at hnul ⊢
    exact ⟨fun part hpart => hnul part (hp.subset hpart), (size_le_of_isPrefix hp).trans hsize⟩
  case short =>
    intro text htext
    obtain ⟨part, hpart, hstep⟩ := List.mem_filterMap.1 htext
    exact h.short text (List.mem_filterMap.2 ⟨part, hp.subset hpart, hstep⟩)

/-- The way to an entry is taken if there is room for its name. -/
theorem IsTaken.concat (h : r.IsTaken) (hx : IsUsable x)
    (hsize : r.size + (x.utf8ByteSize + 1) ≤ longestRoute) :
    (Route.mk (r.parts ++ [.step (.name x)])).IsTaken := by
  obtain ⟨hnul, -⟩ := fault?_eq_none_iff.1 h.fault
  constructor
  case fault =>
    rw [fault?_eq_none_iff, size_append]
    refine ⟨?_, hsize⟩
    rw [List.any_append, hnul, Bool.false_or]
    simpa [Part.holdsNul] using hx.2
  case short =>
    intro text htext
    rw [steps, List.filterMap_append, List.mem_append] at htext
    rcases htext with htext | htext
    · exact h.short text htext
    · obtain rfl : text = x := by simpa [Part.step?] using htext
      exact hx.1

theorem getLast?_steps (h : r.fileName? = some x) : r.steps.getLast? = some (.name x) := by
  rw [fileName?] at h
  split at h
  · rename_i text htext
    rw [htext, Option.some.inj h]
  · cases h

theorem parent_isPrefix (r : Route) : r.parent.parts <+: r.parts :=
  (Part.trimEnd_isPrefix _).trans ((List.dropLast_prefix _).trans (Part.trimEnd_isPrefix _))

theorem parts_withFileName (h : r.fileName? = some last) (x : String) :
    (r.withFileName x).parts = r.parent.parts ++ [.step (.name x)] := by
  rw [withFileName, h]

/-- Of a route that the system takes, the names alone are a route that it takes. -/
theorem IsTaken.fits (h : r.IsTaken) (hsteps : r.steps = names.map .name) : Fits names := by
  obtain ⟨-, hsize⟩ := fault?_eq_none_iff.1 h.fault
  constructor
  case usable =>
    intro name hname
    have hmem : Step.name name ∈ r.steps := by
      rw [hsteps]
      exact List.mem_map_of_mem hname
    exact ⟨h.short name hmem, h.nulFree hmem⟩
  case size => exact (size_ofNames_le_size hsteps).trans hsize

/-- A route that the system takes, which leads from name to name. -/
structure Spells (r : Route) (names : List String) : Prop where
  steps : r.steps = names.map .name
  ending : r.ending = .plain
  taken : r.IsTaken

theorem ending_of_getLast? {s : Step} (h : r.parts.getLast? = some (.step s)) :
    r.ending = .plain := by
  obtain ⟨front, hparts⟩ := List.getLast?_eq_some_iff.1 h
  simp [ending, hparts, Part.isIdle, Part.step?]

theorem Fits.spells (h : Fits names) : (ofNames names).Spells names where
  steps := steps_ofNames names
  ending := ending_ofNames names
  taken := .of_steps h.fault? (steps_ofNames names) fun n hn => (h.usable n hn).1

namespace Spells

theorem fits (h : r.Spells names) : Fits names :=
  h.taken.fits h.steps

theorem asksDirectory (h : r.Spells names) : r.asksDirectory = false := by
  rw [Route.asksDirectory, h.ending]
  rfl

theorem leading (h : r.Spells names) : r.leading = (ofNames names).leading := by
  rw [Route.leading, h.ending, if_neg (by decide), h.steps, leading_ofNames, List.map_dropLast]

theorem fileName? (h : r.Spells names) : r.fileName? = names.getLast? := by
  rw [Route.fileName?, h.steps, List.getLast?_map]
  cases names.getLast? <;> rfl

theorem last? (h : r.Spells names) : r.last? = (ofNames names).last? := by
  rw [Route.last?, h.ending, if_neg (by decide), h.fileName?, last?_ofNames]

/-- The route with another name at its end. -/
theorem withFileName (h : r.Spells (p ++ [last])) (htaken : (r.withFileName x).IsTaken) :
    (r.withFileName x).Spells (p ++ [x]) := by
  have hparts := parts_withFileName (h.fileName?.trans List.getLast?_concat) x
  have hparent : r.parent.steps = p.map .name := by
    rw [steps_parent, h.steps, ← List.map_dropLast, List.dropLast_concat]
  constructor
  case steps =>
    rw [Route.steps, hparts, List.filterMap_append, ← Route.steps, hparent, List.map_append]
    rfl
  case ending => exact ending_of_getLast? (s := .name x) (by rw [hparts, List.getLast?_concat])
  case taken => exact htaken

end Spells
end Route

namespace LocalStore

/-- A part is a step just where it is a component. -/
theorem component_step?_part (text : List Char) :
    (part text).step?.map Step.component = Path.laterComponent text := by
  by_cases h0 : text = []
  · rw [h0]
    rfl
  by_cases h1 : text = ['.']
  · rw [h1]
    rfl
  by_cases h2 : text = ['.', '.']
  · rw [h2]
    rfl
  simp [part, Path.laterComponent, h0, h1, h2, Part.step?, Step.component]

theorem filterMap_step?_part {texts : List (List Char)} {names : List String}
    (h : texts.filterMap Path.laterComponent = names.map .name) :
    (texts.map part).filterMap Part.step? = names.map .name := by
  refine List.map_injective_iff.2 Step.component_injective ?_
  rw [List.filterMap_map, List.map_filterMap, List.map_map]
  refine Eq.trans (List.filterMap_congr fun text _ => ?_) h
  exact component_step?_part text

/-- The steps of a path beneath the root are its components, but for a root or a dot. -/
theorem steps_route (place : Place) (p : Path) :
    (route place p).steps = place.root.map .name ++ p.components.filterMap Component.step? := by
  have hparts : (partsBeneath p).filterMap Part.step? =
      ((p.text.toList.splitOn '/').map part).filterMap Part.step? := by
    rw [partsBeneath]
    by_cases habsolute : p.isAbsolute = true
    · simp only [habsolute, Bool.not_true, Bool.false_eq_true, if_false]
      have htrim :=
        Part.filterMap_trimEnd (((p.text.toList.splitOn '/').map part).dropWhile Part.isIdle)
      rw [Part.filterMap_dropWhile] at htrim
      split
      · rename_i hempty
        rw [← htrim, ← Part.trim, List.isEmpty_iff.1 hempty]
        rfl
      · exact htrim
    · simp [habsolute]
  have hsteps : (partsBeneath p).filterMap Part.step? =
      (((p.text.toList.splitOn '/').filterMap Path.laterComponent).filterMap Component.step?) := by
    rw [hparts, List.filterMap_map, List.filterMap_filterMap]
    refine List.filterMap_congr fun text _ => ?_
    rw [← component_step?_part, Function.comp_apply]
    cases (part text).step? with
    | none => rfl
    | some s => cases s <;> rfl
  rw [Route.steps, route, List.filterMap_append, hsteps, ← Route.steps, Route.steps_ofNames,
    Path.components, Path.filterMap_ofParts rfl rfl]

/-- **The route of an absolute path leads from name to name.** -/
theorem spells_route (place : Place) {p : Path} {names : List String} (h : p.Spells names)
    (hne : names ≠ []) (htaken : (route place p).IsTaken) :
    (route place p).Spells (place.root ++ names) := by
  obtain ⟨rest, hsplit, hrest, hnames⟩ := Path.ofParts_root h
  have hsteps : (Part.trim ((p.text.toList.splitOn '/').map part)).filterMap Part.step? =
      names.map .name := by
    rw [Part.trim, Part.filterMap_trimEnd, Part.filterMap_dropWhile, hsplit]
    exact filterMap_step?_part hnames
  have hfull : Part.trim ((p.text.toList.splitOn '/').map part) ≠ [] := by
    intro h0
    rw [h0] at hsteps
    exact hne (List.map_eq_nil_iff.1 hsteps.symm)
  have hparts : (route place p).parts =
      (Route.ofNames place.root).parts ++ Part.trim ((p.text.toList.splitOn '/').map part) := by
    have hbeneath : partsBeneath p = Part.trim ((p.text.toList.splitOn '/').map part) := by
      have hempty : (Part.trim ((p.text.toList.splitOn '/').map part)).isEmpty = false := by
        simpa using hfull
      simp only [partsBeneath, Path.isAbsolute_of_splitOn hrest hsplit, hempty, Bool.not_true,
        Bool.false_eq_true, if_false]
    rw [route, hbeneath]
  constructor
  case steps =>
    rw [Route.steps, hparts, List.filterMap_append, hsteps, ← Route.steps, Route.steps_ofNames,
      List.map_append]
  case ending =>
    obtain ⟨s, hs⟩ := Part.getLast?_trimEnd hfull
    refine Route.ending_of_getLast? (s := s) ?_
    rw [hparts, List.getLast?_append_of_ne_nil _ hfull]
    exact hs
  case taken => exact htaken

end LocalStore

/-! ### Calls -/

namespace Disk

variable {r r' : Route} {names names' : List String}

theorem submit_spelled (h : r.Spells names) : submit r = submit (.ofNames names) := by
  rw [submit, submit, h.taken.fault, h.fits.fault?]

theorem find_spelled (h : r.Spells names) (d : Disk) : d.find r = d.find (.ofNames names) := by
  rw [find, find, h.steps, Route.steps_ofNames, h.asksDirectory, Route.asksDirectory_ofNames]

theorem look_spelled (h : r.Spells names) : look r = look (.ofNames names) := by
  rw [look, look, submit_spelled h]
  simp only [find_spelled h]

theorem isDirectory_spelled (h : r.Spells names) (d : Disk) :
    d.isDirectory r = d.isDirectory (.ofNames names) := by
  rw [isDirectory, isDirectory, find_spelled h, h.taken.fault, h.fits.fault?]

theorem makeDirectory_spelled (h : r.Spells names) :
    makeDirectory r = makeDirectory (.ofNames names) := by
  rw [makeDirectory, makeDirectory, submit_spelled h, h.steps, Route.steps_ofNames]

theorem ensureDirectory_spelled (h : r.Spells names) :
    ensureDirectory r = ensureDirectory (.ofNames names) := by
  rw [ensureDirectory, ensureDirectory, makeDirectory_spelled h]
  simp only [isDirectory_spelled h]

theorem openFile_spelled (h : r.Spells names) (create : Bool) :
    openFile r create = openFile (.ofNames names) create := by
  rw [openFile, openFile, submit_spelled h, h.ending, Route.ending_ofNames, h.steps,
    Route.steps_ofNames, h.leading, h.asksDirectory, Route.asksDirectory_ofNames]

theorem writeFile_spelled (h : r.Spells names) (bytes : Bytes) :
    writeFile r bytes = writeFile (.ofNames names) bytes := by
  rw [writeFile, writeFile, openFile_spelled h]

theorem rename_spelled (h : r.Spells names) (h' : r'.Spells names') :
    rename r r' = rename (.ofNames names) (.ofNames names') := by
  rw [rename, rename, submit_spelled h, submit_spelled h', h.leading, h'.leading, h.last?, h'.last?,
    h.asksDirectory, h'.asksDirectory, Route.asksDirectory_ofNames, Route.asksDirectory_ofNames]

theorem removeFile_spelled (h : r.Spells names) :
    removeFile r = removeFile (.ofNames names) := by
  rw [removeFile, removeFile, look_spelled h]

/-- Idle parts are passed over when directories are made. -/
theorem createReversed_spelled : ∀ {parts : List Part} {names : List String},
    parts.reverse.filterMap Part.step? = names.map .name → (Route.mk parts.reverse).IsTaken →
    createReversed parts = createDirectories (.ofNames names)
  | [], names, h, _ => by
    rw [List.map_eq_nil_iff.1 h.symm]
    rfl
  | .blank :: above, names, h, htaken | .dot :: above, names, h, htaken => by
    rw [List.reverse_cons] at h htaken
    rw [List.filterMap_append] at h
    have habove : above.reverse.filterMap Part.step? = names.map .name :=
      (List.append_nil _).symm.trans h
    have hrest : createReversed above = createDirectories (.ofNames names) :=
      createReversed_spelled habove (htaken.of_isPrefix (List.prefix_append _ _))
    exact hrest
  | .step s :: above, names, h, htaken => by
    have habove : above.reverse.filterMap Part.step? ++ [s] = names.map .name := by
      simpa [List.filterMap_append, Part.step?] using h
    obtain ⟨p, x, rfl⟩ : ∃ p x, names = p ++ [x] :=
      (List.eq_nil_or_concat' names).resolve_left fun h0 => by simp [h0] at habove
    rw [List.map_append, List.map_singleton] at habove
    obtain ⟨hp, hx⟩ := List.append_inj' habove rfl
    have hspells : Route.Spells ⟨(.step s :: above).reverse⟩ (p ++ [x]) := by
      refine ⟨h, Route.ending_of_getLast? (s := s) (by simp), htaken⟩
    have hrest : createReversed above = createDirectories (.ofNames p) := by
      refine createReversed_spelled hp (htaken.of_isPrefix ?_)
      rw [List.reverse_cons]
      exact List.prefix_append _ _
    have hcreate := createDirectories_concat p x
    rw [← makeDirectory_spelled hspells, ← hrest, ← ensureDirectory_spelled hspells] at hcreate
    simp only [← isDirectory_spelled hspells] at hcreate
    exact hcreate.symm

theorem createDirectories_taken (htaken : r.IsTaken) (hsteps : r.steps = names.map .name) :
    createDirectories r.parent = createDirectories (.ofNames names.dropLast) := by
  have hparent : r.parent.steps = names.dropLast.map .name := by
    rw [Route.steps_parent, hsteps, List.map_dropLast]
  refine createReversed_spelled ?_ ?_
  · rw [List.reverse_reverse]
    exact hparent
  · rw [List.reverse_reverse]
    exact htaken.of_isPrefix r.parent_isPrefix

theorem createDirectories_spelled (h : r.Spells names) :
    createDirectories r.parent = createDirectories (.ofNames names.dropLast) :=
  createDirectories_taken h.taken h.steps

end Disk
end ContainerRegistry
