/-
# Joining a path appends its components

A text of names or steps up, each set off from the next by one slash, adds exactly
these components to whatever path it is joined to (`Path.components_join_inner`). The
base may be empty, end in a slash or hold repeated slashes and `.` parts: only
its components count. And every component of a path but the first is a name or a step
up, so that all there is beneath a path can be joined to another.

Key definitions: `Path.IsName`, `Component.IsInner`.
Key theorems: `Path.components_join_inner`, `Path.components_join`,
`Path.isInner_of_components`.
-/
import ContainerRegistry.Path

namespace ContainerRegistry

/-- A text that stands for one named entry. -/
def Path.IsName (text : String) : Prop :=
  text.toList ≠ [] ∧ text.toList ≠ ['.'] ∧ text.toList ≠ ['.', '.'] ∧ '/' ∉ text.toList

instance (text : String) : Decidable (Path.IsName text) :=
  inferInstanceAs (Decidable (_ ∧ _ ∧ _ ∧ _))

/-- A component that may follow another one: a step up or a named entry. -/
def Component.IsInner : Component → Prop
  | .up => True
  | .name text => Path.IsName text
  | _ => False

/-- The name of a component, if it is a named entry. -/
def Component.name? : Component → Option String
  | name text => some text
  | _ => none

namespace Path

/-- The names in a path. -/
def entryNames (p : Path) : List String :=
  p.components.filterMap Component.name?

/-- Every other character of a split text is in one of the parts. -/
theorem eq_or_mem_splitOn (sep : Char) {cs : List Char} {c : Char} (h : c ∈ cs) :
    c = sep ∨ ∃ part ∈ cs.splitOn sep, c ∈ part := by
  induction cs with
  | nil => simp at h
  | cons d cs ih =>
    obtain ⟨first, rest, hsplit⟩ := List.exists_cons_of_ne_nil (List.splitOn_ne_nil sep cs)
    rw [List.splitOn_cons_eq_if_modifyHead]
    rw [hsplit] at ih ⊢
    by_cases hd : (d == sep) = true
    · rw [if_pos hd]
      rcases List.mem_cons.1 h with rfl | h
      · exact Or.inl (by simpa using hd)
      · exact (ih h).imp_right fun ⟨part, hp, hc⟩ => ⟨part, List.mem_cons_of_mem _ hp, hc⟩
    · rw [if_neg hd, List.modifyHead_cons]
      rcases List.mem_cons.1 h with rfl | h
      · exact Or.inr ⟨_, List.mem_cons_self, List.mem_cons_self⟩
      · refine (ih h).imp_right fun ⟨part, hp, hc⟩ => ?_
        rcases List.mem_cons.1 hp with rfl | hp
        · exact ⟨_, List.mem_cons_self, List.mem_cons_of_mem _ hc⟩
        · exact ⟨part, List.mem_cons_of_mem _ hp, hc⟩

theorem laterComponent_of_isInner {c : Component} (h : c.IsInner) :
    laterComponent c.text.toList = some c := by
  cases c with
  | up => decide
  | name text =>
    obtain ⟨h0, h1, h2, -⟩ := h
    simp [laterComponent, Component.text, h0, h1, h2]
  | root | here => exact h.elim

theorem text_ne_nil_of_isInner {c : Component} (h : c.IsInner) : c.text.toList ≠ [] := by
  intro he
  simpa [he, laterComponent] using laterComponent_of_isInner h

theorem firstComponent_of_isInner {c : Component} (h : c.IsInner) :
    firstComponent c.text.toList = some c := by
  rw [firstComponent, if_neg, laterComponent_of_isInner h]
  intro he
  simpa [he, laterComponent] using laterComponent_of_isInner h

theorem slash_notMem_of_isInner {c : Component} (h : c.IsInner) : '/' ∉ c.text.toList := by
  cases c with
  | up => decide
  | name text => exact h.2.2.2
  | root | here => exact h.elim

/-- What a part after the first slash stands for is a name or a step up. -/
theorem isInner_of_laterComponent {part : List Char} {c : Component} (hslash : '/' ∉ part)
    (h : laterComponent part = some c) : c.IsInner := by
  rw [laterComponent] at h
  split at h
  · cases h
  · rename_i hsolid
    split at h
    · cases h
      trivial
    · rename_i hup
      cases h
      rw [not_or] at hsolid
      exact ⟨by simpa using hsolid.1, by simpa using hsolid.2, by simpa using hup,
        by simpa using hslash⟩

/-- The parts that components are written as. -/
def parts (cs : List Component) : List (List Char) :=
  cs.map fun c => c.text.toList

theorem parts_names (names : List String) :
    parts (names.map .name) = names.map String.toList := by
  simp [parts, Component.text]

theorem isInner_names {names : List String} (h : ∀ n ∈ names, IsName n) :
    ∀ c ∈ names.map Component.name, c.IsInner := by
  intro c hc
  obtain ⟨n, hn, rfl⟩ := List.mem_map.1 hc
  exact h n hn

theorem filterMap_parts : ∀ {cs : List Component}, (∀ c ∈ cs, c.IsInner) →
    (parts cs).filterMap laterComponent = cs
  | [], _ => rfl
  | c :: cs, h => by
    have ih := filterMap_parts fun d hd => h d (List.mem_cons_of_mem _ hd)
    rw [parts, List.map_cons, List.filterMap_cons,
      laterComponent_of_isInner (h c List.mem_cons_self), ← parts, ih]

theorem ofParts_cons (part : List Char) {rest : List (List Char)} (h : rest ≠ []) :
    ofParts (part :: rest) =
      (if part = [] then [.root] else (firstComponent part).toList) ++
        rest.filterMap laterComponent := by
  rw [ofParts]
  simpa using h

/-- Inner components alone are a relative path of these components. -/
theorem ofParts_parts : ∀ {cs : List Component}, (∀ c ∈ cs, c.IsInner) → ofParts (parts cs) = cs
  | [], _ => rfl
  | [c], h => by
    simp [parts, ofParts, firstComponent_of_isInner (h c List.mem_cons_self)]
  | c :: d :: cs, h => by
    have hc := h c List.mem_cons_self
    have hrest := filterMap_parts fun e he => h e (List.mem_cons_of_mem _ he)
    rw [parts, List.map_cons, ofParts_cons _ (by simp), ← parts, hrest,
      if_neg (text_ne_nil_of_isInner hc), firstComponent_of_isInner hc]
    rfl

/-- Inner components after other parts add themselves, unless those parts are the empty
text alone, which a slash behind it turns into the root. -/
theorem ofParts_append {base : List (List Char)} {cs : List Component} (hbase : base ≠ [])
    (hroot : base ≠ [[]]) (h : ∀ c ∈ cs, c.IsInner) :
    ofParts (base ++ parts cs) = ofParts base ++ cs := by
  obtain ⟨part, rest, rfl⟩ := List.exists_cons_of_ne_nil hbase
  by_cases hcs : cs = []
  · simp [hcs, parts]
  · rw [List.cons_append, ofParts_cons _ (by simpa [parts] using fun _ => hcs),
      List.filterMap_append, filterMap_parts h]
    by_cases hr : rest = []
    · have hne : part ≠ [] := fun e => hroot (by rw [e, hr])
      simp [hr, hne, ofParts]
    · rw [ofParts_cons _ hr, List.append_assoc]

/-- An empty part at the end, which is what a trailing slash leaves, does not count. -/
theorem ofParts_append_nil {base : List (List Char)} (hbase : base ≠ []) {cs : List Component}
    (hcs : cs ≠ []) (h : ∀ c ∈ cs, c.IsInner) :
    ofParts (base ++ parts cs) = ofParts (base ++ [[]]) ++ cs := by
  obtain ⟨part, rest, rfl⟩ := List.exists_cons_of_ne_nil hbase
  rw [List.cons_append, List.cons_append, ofParts_cons _ (by simpa [parts] using fun _ => hcs),
    ofParts_cons _ (by simp), List.filterMap_append, List.filterMap_append, filterMap_parts h]
  simp [laterComponent]

theorem splitOn_parts {cs : List Component} (hne : cs ≠ []) (h : ∀ c ∈ cs, c.IsInner) :
    (['/'].intercalate (parts cs)).splitOn '/' = parts cs :=
  List.splitOn_intercalate '/' (by simpa [parts] using fun c hc => slash_notMem_of_isInner (h c hc))
    (by simpa [parts] using hne)

theorem splitOn_names {names : List String} (hne : names ≠ []) (h : ∀ n ∈ names, IsName n) :
    (['/'].intercalate (names.map String.toList)).splitOn '/' = names.map String.toList := by
  rw [← parts_names]
  exact splitOn_parts (by simpa using hne) (isInner_names h)

theorem splitOn_eq_nil_singleton {cs : List Char} (h : cs.splitOn '/' = [[]]) : cs = [] := by
  have hjoin : ['/'].intercalate (cs.splitOn '/') = cs := List.intercalate_splitOn '/'
  rw [h] at hjoin
  simpa using hjoin.symm

/-- **Joining appends.** Inner components joined to a path lie beneath its place. -/
theorem components_join_inner (base : Path) {rest : String} {cs : List Component} (hne : cs ≠ [])
    (h : ∀ c ∈ cs, c.IsInner) (hrest : rest.toList = ['/'].intercalate (parts cs)) :
    (base.join rest).components = base.components ++ cs := by
  have hsplit : rest.toList.splitOn '/' = parts cs := by
    rw [hrest, splitOn_parts hne h]
  have hhead : rest.toList.head? ≠ some '/' := by
    obtain ⟨c, cs, rfl⟩ := List.exists_cons_of_ne_nil hne
    have hc := h c List.mem_cons_self
    obtain ⟨d, ds, hd⟩ := List.exists_cons_of_ne_nil (text_ne_nil_of_isInner hc)
    have hslash : d ≠ '/' := fun e => slash_notMem_of_isInner hc (by simp [hd, e])
    cases cs <;> simp [hrest, parts, List.intercalate, hd, hslash]
  rw [join, if_neg hhead]
  by_cases hbase : base.text.toList = []
  · rw [if_pos (Or.inl hbase)]
    simp only [components, String.toList_append, hbase, List.nil_append, hsplit, ofParts_parts h]
    rfl
  · by_cases hlast : base.text.toList.getLast? = some '/'
    · rw [if_pos (Or.inr hlast)]
      obtain ⟨front, hfront⟩ := List.getLast?_eq_some_iff.1 hlast
      simp only [components, String.toList_append, hfront]
      rw [List.append_assoc, List.singleton_append, List.splitOn_append_cons_self,
        List.splitOn_append_cons_self, hsplit, List.splitOn_nil,
        ofParts_append_nil (List.splitOn_ne_nil _ _) hne h]
    · rw [if_neg (by simp [hbase, hlast])]
      have htext : (base.text ++ "/" ++ rest).toList = base.text.toList ++ '/' :: rest.toList := by
        simp
      simp only [components, htext]
      rw [List.splitOn_append_cons_self, hsplit]
      exact ofParts_append (List.splitOn_ne_nil _ _) (fun e => hbase (splitOn_eq_nil_singleton e)) h

theorem components_join (base : Path) {rest : String} (names : List String) (hne : names ≠ [])
    (h : ∀ n ∈ names, IsName n)
    (hrest : rest.toList = ['/'].intercalate (names.map String.toList)) :
    (base.join rest).components = base.components ++ names.map .name :=
  components_join_inner base (by simpa using hne) (isInner_names h) (by rw [hrest, parts_names])

end Path

/-! ### What lies beneath a path -/

/-- What is one step longer does not lie above. -/
theorem not_concat_isPrefix {α : Type} (place : List α) (x : α) : ¬ place ++ [x] <+: place := by
  intro h
  have hlength := h.length_le
  rw [List.length_append, List.length_singleton] at hlength
  omega

namespace Path

/-- The parts between slashes hold no slash. -/
theorem slash_notMem_of_mem_splitOn {cs part : List Char} (h : part ∈ cs.splitOn '/') :
    '/' ∉ part := by
  induction cs generalizing part with
  | nil => simp_all
  | cons d cs ih =>
    obtain ⟨first, rest, hsplit⟩ := List.exists_cons_of_ne_nil (List.splitOn_ne_nil '/' cs)
    rw [List.splitOn_cons_eq_if_modifyHead, hsplit] at h
    rw [hsplit] at ih
    by_cases hd : (d == '/') = true
    · rw [if_pos hd, List.mem_cons] at h
      rcases h with rfl | h
      · simp
      · exact ih h
    · rw [if_neg hd, List.modifyHead_cons, List.mem_cons] at h
      rcases h with rfl | h
      · have hd : d ≠ '/' := by simpa using hd
        simpa [hd.symm] using ih List.mem_cons_self
      · exact ih (List.mem_cons_of_mem _ h)

theorem firstComponent_cases {part : List Char} {c : Component} (hslash : '/' ∉ part)
    (h : firstComponent part = some c) : c = .here ∨ c.IsInner := by
  rw [firstComponent] at h
  split at h
  · exact Or.inl (Option.some.inj h).symm
  · exact Or.inr (isInner_of_laterComponent hslash h)

/-- A path is at most one component that may be the root or a leading dot, then inner
ones. -/
theorem components_eq (p : Path) : ∃ (first : Option Component) (inner : List Component),
    p.components = first.toList ++ inner ∧ (∀ c ∈ inner, c.IsInner) ∧
      ∀ c ∈ first, c = .root ∨ c = .here ∨ c.IsInner := by
  have hslash : ∀ part ∈ p.text.toList.splitOn '/', '/' ∉ part :=
    fun part h => slash_notMem_of_mem_splitOn h
  rw [components]
  obtain ⟨part, rest, hparts⟩ := List.exists_cons_of_ne_nil (List.splitOn_ne_nil '/' p.text.toList)
  rw [hparts] at hslash ⊢
  have hfirst : ∀ c ∈ firstComponent part, c = .root ∨ c = .here ∨ c.IsInner :=
    fun c hc => Or.inr (firstComponent_cases (hslash part List.mem_cons_self) hc)
  by_cases hrest : rest = []
  · exact ⟨firstComponent part, [], by rw [hrest, ofParts, List.append_nil], by simp, hfirst⟩
  have hinner : ∀ c ∈ rest.filterMap laterComponent, c.IsInner := by
    intro c hc
    obtain ⟨later, hlater, he⟩ := List.mem_filterMap.1 hc
    exact isInner_of_laterComponent (hslash later (List.mem_cons_of_mem _ hlater)) he
  rw [ofParts_cons part hrest]
  by_cases hpart : part = []
  · exact ⟨some .root, _, by rw [if_pos hpart]; rfl, hinner, by simp⟩
  · exact ⟨firstComponent part, _, by rw [if_neg hpart], hinner, hfirst⟩

/-- **What lies beneath another component is inner.** -/
theorem isInner_of_components {p : Path} {base rest : List Component}
    (h : p.components = base ++ rest) (hbase : base ≠ []) : ∀ c ∈ rest, c.IsInner := by
  obtain ⟨first, inner, he, hinner, -⟩ := p.components_eq
  have hsuffix : rest <:+ inner := by
    obtain ⟨c, base, rfl⟩ := List.exists_cons_of_ne_nil hbase
    rw [h] at he
    cases first with
    | none => exact ⟨c :: base, he⟩
    | some d => exact ⟨base, (List.cons.inj he).2⟩
  exact fun c hc => hinner c (hsuffix.subset hc)

/-- Inner components beneath a path are those of a path. -/
theorem exists_components_append (base : Path) {cs : List Component} (h : ∀ c ∈ cs, c.IsInner) :
    ∃ p : Path, p.components = base.components ++ cs := by
  by_cases hne : cs = []
  · exact ⟨base, by rw [hne, List.append_nil]⟩
  · refine ⟨base.join (Components.relativeText cs), components_join_inner base hne h ?_⟩
    rw [Components.relativeText, String.toList_intercalate, parts, List.map_map]
    rfl

end Path
end ContainerRegistry
