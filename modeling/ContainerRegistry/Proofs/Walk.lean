/-
# A walk over directories, without bound

The walk for the catalog takes one directory after the other from a stack and puts those
in it onto the stack, at most so many times as the driver says. Here is the same walk
without bound (`Registry.Walks`): it ends when the stack is empty or a directory cannot
be listed. Two facts about the stack carry both theorems. No two directories on it lie
one above the other, so that the walk comes to each directory at most once and ends
when there are finitely many (`Explores.walks`); and what was found so far together
with what lies beneath the stack is always all that there is to find
(`Registry.Walks.exact`).

Key definitions: `Registry.visit`, `Registry.Walks`, `Apart`, `Explores`, `Finds`.
Key theorems: `Registry.outcome_walk_cons`, `Explores.walks`, `Registry.Walks.exact`.
-/
import ContainerRegistry.Proofs.Path
import ContainerRegistry.Registry.Catalog
import Mathlib.Data.Finset.Card
import Mathlib.Data.List.Nodup

namespace ContainerRegistry

open ContainerRegistry.Action

variable {σ ρ : Type}

namespace Registry

variable (r : Registry σ ρ)

/-- What a walk does with one directory: it learns which directories in it to walk, the
last one first, and which repository it is, if it is one. -/
def visit (dir : Path) : RegistryAction σ (List Path × Option RepositoryName) := do
  match ← found (r.storage.list dir) with
  | none => pure ([], none)
  | some children => do
    let filled ← r.anyFilled (children.filter Catalog.isMarker)
    pure ((children.filter Catalog.isBranch).reverse,
      if filled then Catalog.nameAt? (r.path .repositories) dir else none)

/-- A step of the bounded walk visits the directory on top of the stack. -/
theorem outcome_walk_cons (fuel : Nat) (dir : Path) (pending : List Path)
    (names : List RepositoryName) (s : σ) :
    (r.walk (fuel + 1) (dir :: pending) names).outcome s =
      match (r.visit dir).outcome s with
      | (.ok visited, s) =>
        (r.walk fuel (visited.1 ++ pending) (visited.2.toList ++ names)).outcome s
      | (.error e, s) => (.error e, s) := by
  rw [walk, visit, outcome_bind, outcome_bind]
  rcases (found (r.storage.list dir)).outcome s with ⟨e | _ | children, s'⟩
  · rfl
  · rfl
  · simp only [outcome_bind]
    rcases (r.anyFilled (children.filter Catalog.isMarker)).outcome s' with ⟨e | filled, s''⟩
    · rfl
    · rfl

/-- The walk without bound, over storage that stays as it is: from a stack and what was
found so far to its answer. -/
inductive Walks (s : σ) :
    List Path → List RepositoryName → Except RegistryError (List RepositoryName) → Prop where
  | finished (names : List RepositoryName) : Walks s [] names (.ok names)
  | failed {dir : Path} {pending : List Path} {names : List RepositoryName} {e : RegistryError}
    (visit : (r.visit dir).outcome s = (.error e, s)) : Walks s (dir :: pending) names (.error e)
  | visited {dir : Path} {below pending : List Path} {own : Option RepositoryName}
    {names : List RepositoryName} {x : Except RegistryError (List RepositoryName)}
    (visit : (r.visit dir).outcome s = (.ok (below, own), s))
    (rest : Walks s (below ++ pending) (own.toList ++ names) x) : Walks s (dir :: pending) names x

end Registry

/-! ### Directories that are apart -/

/-- Two directories of which neither is above the other. -/
def Apart (a b : List String) : Prop :=
  ¬ a <+: b ∧ ¬ b <+: a

/-- On a stack of directories apart from each other, one may be replaced by those in it. -/
theorem Apart.children {dir : List String} {stack : List (List String)} {below : List String}
    (hbelow : below.Nodup) (h : (dir :: stack).Pairwise Apart) :
    ((below.map fun x => dir ++ [x]) ++ stack).Pairwise Apart := by
  obtain ⟨hdir, hstack⟩ := List.pairwise_cons.1 h
  refine List.pairwise_append.2 ⟨List.pairwise_map.2 (hbelow.imp fun {x y} hxy => ?_), hstack, ?_⟩
  · have hne : ∀ {x y : String}, dir ++ [x] <+: dir ++ [y] → x = y := fun hpre => by
      simpa using hpre
    exact ⟨fun hpre => hxy (hne hpre), fun hpre => hxy (hne hpre).symm⟩
  · intro a ha b hb
    obtain ⟨x, -, rfl⟩ := List.mem_map.1 ha
    obtain ⟨hdb, hbd⟩ := hdir b hb
    refine ⟨fun hpre => hdb ((List.prefix_append dir [x]).trans hpre), fun hpre => ?_⟩
    rcases List.prefix_concat_iff.1 hpre with rfl | hpre
    · exact hdb (List.prefix_append dir [x])
    · exact hbd hpre

section Stack

variable {dir : List String} {stack : List (List String)} {below : List String}

/-- Nothing on the new stack is above the directory that was taken from the old one. -/
theorem Apart.not_above (h : (dir :: stack).Pairwise Apart) :
    ∀ e ∈ (below.map fun x => dir ++ [x]) ++ stack, ¬ e <+: dir := by
  intro e he
  rcases List.mem_append.1 he with he | he
  · obtain ⟨x, -, rfl⟩ := List.mem_map.1 he
    exact not_concat_isPrefix dir x
  · exact ((List.pairwise_cons.1 h).1 e he).2

/-- What is beneath the new stack is beneath the old. -/
theorem exists_above_of_children {place : List String}
    (h : ∃ e ∈ (below.map fun x => dir ++ [x]) ++ stack, e <+: place) :
    ∃ e ∈ dir :: stack, e <+: place := by
  obtain ⟨e, he, hpre⟩ := h
  rcases List.mem_append.1 he with he | he
  · obtain ⟨x, -, rfl⟩ := List.mem_map.1 he
    exact ⟨dir, List.mem_cons_self, (List.prefix_append _ _).trans hpre⟩
  · exact ⟨e, List.mem_cons_of_mem _ he, hpre⟩

/-- A property of the directory that those in it have too holds of the whole new stack. -/
theorem forall_mem_children {branch : List String → Prop}
    (hbelow : ∀ x ∈ below, branch (dir ++ [x])) (hstack : ∀ e ∈ dir :: stack, branch e) :
    ∀ e ∈ (below.map fun x => dir ++ [x]) ++ stack, branch e := by
  intro e he
  rcases List.mem_append.1 he with he | he
  · obtain ⟨x, hx, rfl⟩ := List.mem_map.1 he
    exact hbelow x hx
  · exact hstack e (List.mem_cons_of_mem _ he)

end Stack

/-! ### The walk ends -/

variable {r : Registry σ ρ} {s : σ} {path : List String → Path} {branch : List String → Prop}

/-- Directories known by names, such that a visit of one fails or leads to directories in it. -/
def Explores (r : Registry σ ρ) (s : σ) (path : List String → Path) (branch : List String → Prop) :
    Prop :=
  ∀ dir, branch dir → (∃ e, (r.visit (path dir)).outcome s = (.error e, s)) ∨
    ∃ (below : List String) (own : Option RepositoryName),
      (r.visit (path dir)).outcome s = (.ok (below.map fun x => path (dir ++ [x]), own), s) ∧
      below.Nodup ∧ ∀ x ∈ below, branch (dir ++ [x])

/-- **A walk over finitely many directories ends**, and the bounded walk is that walk if it
may go on for as many steps as there are directories beneath the stack. -/
theorem Explores.walks (h : Explores r s path branch) {dirs : Finset (List String)}
    (hdirs : ∀ dir, branch dir → dir ∈ dirs) (fuel : Nat) :
    ∀ (stack : List (List String)) (names : List RepositoryName),
      (∀ dir ∈ stack, branch dir) → stack.Pairwise Apart →
      (dirs.filter fun dir => ∃ e ∈ stack, e <+: dir).card ≤ fuel →
      ∃ x, r.Walks s (stack.map path) names x ∧
        (r.walk fuel (stack.map path) names).outcome s = (x, s) := by
  induction fuel with
  | zero =>
    intro stack names hstack _ hfuel
    -- no directory is left, so that none is on the stack
    have hempty : stack = [] := by
      refine List.eq_nil_iff_forall_not_mem.2 fun dir hdir => ?_
      have hmem : dir ∈ dirs.filter fun dir => ∃ e ∈ stack, e <+: dir :=
        Finset.mem_filter.2 ⟨hdirs dir (hstack dir hdir), dir, hdir, List.prefix_rfl⟩
      rw [Finset.card_eq_zero.1 (Nat.le_zero.1 hfuel)] at hmem
      cases hmem
    subst hempty
    exact ⟨.ok names, .finished names, rfl⟩
  | succ fuel ih =>
    intro stack names hstack hapart hfuel
    cases stack with
    | nil => exact ⟨.ok names, .finished names, rfl⟩
    | cons dir stack =>
      have hdir := hstack dir List.mem_cons_self
      rw [List.map_cons, Registry.outcome_walk_cons]
      rcases h dir hdir with ⟨e, hvisit⟩ | ⟨below, own, hvisit, hbelow, hbranch⟩
      · rw [hvisit]
        exact ⟨.error e, .failed hvisit, rfl⟩
      · have hfuel' : (dirs.filter fun place =>
            ∃ e ∈ (below.map fun x => dir ++ [x]) ++ stack, e <+: place).card ≤ fuel := by
          refine Nat.le_of_lt_succ (Nat.lt_of_lt_of_le (Finset.card_lt_card ?_) hfuel)
          -- the directory itself is not beneath the new stack any more
          refine (Finset.ssubset_iff_of_subset (Finset.monotone_filter_right _
            fun _ _ => exists_above_of_children)).2 ⟨dir, ?_, ?_⟩
          · exact Finset.mem_filter.2 ⟨hdirs dir hdir, dir, List.mem_cons_self, List.prefix_rfl⟩
          · rintro hmem
            obtain ⟨e, he, hpre⟩ := (Finset.mem_filter.1 hmem).2
            exact Apart.not_above hapart e he hpre
        obtain ⟨x, hwalks, hwalk⟩ := ih _ (own.toList ++ names)
          (forall_mem_children hbranch hstack) (Apart.children hbelow hapart) hfuel'
        rw [List.map_append, List.map_map] at hwalks hwalk
        rw [hvisit]
        exact ⟨x, .visited hvisit hwalks, hwalk⟩

/-! ### The walk finds everything -/

/-- Directories known by names, of which the repositories that are held are found: a visit of
one tells whether it is such a repository, and leads to all that are beneath it. -/
def Finds (r : Registry σ ρ) (s : σ) (path : List String → Path) (branch : List String → Prop)
    (held : RepositoryName → Prop) : Prop :=
  ∀ dir, branch dir → ∃ (below : List String) (own : Option RepositoryName),
    (r.visit (path dir)).outcome s = (.ok (below.map fun x => path (dir ++ [x]), own), s) ∧
    below.Nodup ∧ (∀ x ∈ below, branch (dir ++ [x])) ∧
    (∀ n, n ∈ own ↔ n.components = dir ∧ held n) ∧
    ∀ n, held n → dir <+: n.components →
      n.components = dir ∨ ∃ x ∈ below, dir ++ [x] <+: n.components

variable {held : RepositoryName → Prop}

theorem Finds.explores (h : Finds r s path branch held) : Explores r s path branch := by
  intro dir hdir
  obtain ⟨below, own, hvisit, hbelow, hbranch, -⟩ := h dir hdir
  exact Or.inr ⟨below, own, hvisit, hbelow, hbranch⟩

/-- **A walk finds the repositories beneath its stack**, each once. -/
theorem Registry.Walks.exact (h : Finds r s path branch held) {paths : List Path}
    {names : List RepositoryName} {x : Except RegistryError (List RepositoryName)}
    (hwalks : r.Walks s paths names x) :
    ∀ stack : List (List String), paths = stack.map path → (∀ dir ∈ stack, branch dir) →
      stack.Pairwise Apart → names.Nodup → (∀ n ∈ names, ∀ e ∈ stack, ¬ e <+: n.components) →
      ∃ found, x = .ok found ∧ found.Nodup ∧
        ∀ n, n ∈ found ↔ n ∈ names ∨ (∃ e ∈ stack, e <+: n.components) ∧ held n := by
  induction hwalks with
  | finished names =>
    intro stack hpaths _ _ hnodup _
    obtain rfl : stack = [] := List.map_eq_nil_iff.1 hpaths.symm
    exact ⟨names, rfl, hnodup, by simp⟩
  | @failed dirPath pending names e hfailed =>
    intro stack hpaths hstack _ _ _
    obtain ⟨dir, stack, rfl, rfl, -⟩ := List.map_eq_cons_iff.1 hpaths.symm
    obtain ⟨below, own, hvisit, -⟩ := h dir (hstack dir List.mem_cons_self)
    cases (congrArg Prod.fst hvisit).symm.trans (congrArg Prod.fst hfailed)
  | @visited dirPath belowPaths pending own' names x hvisited _ ih =>
    intro stack hpaths hstack hapart hnodup hnames
    obtain ⟨dir, stack, rfl, rfl, rfl⟩ := List.map_eq_cons_iff.1 hpaths.symm
    obtain ⟨below, own, hvisit, hbelow, hbranch, hown, hcomplete⟩ :=
      h dir (hstack dir List.mem_cons_self)
    obtain ⟨rfl, rfl⟩ : belowPaths = below.map (fun x => path (dir ++ [x])) ∧ own' = own := by
      simpa using (congrArg Prod.fst hvisited).symm.trans (congrArg Prod.fst hvisit)
    have hnodup' : (own'.toList ++ names).Nodup := by
      refine List.nodup_append'.2 ⟨Option.toList_nodup _, hnodup, fun n hn hn' => ?_⟩
      have hdir := ((hown n).1 (Option.mem_toList.1 hn)).1
      exact hnames n hn' dir List.mem_cons_self (hdir ▸ List.prefix_rfl)
    have hnames' : ∀ n ∈ own'.toList ++ names,
        ∀ e ∈ (below.map fun x => dir ++ [x]) ++ stack, ¬ e <+: n.components := by
      intro n hn e he
      rcases List.mem_append.1 hn with hn | hn
      · rw [((hown n).1 (Option.mem_toList.1 hn)).1]
        exact Apart.not_above hapart e he
      · intro hpre
        obtain ⟨e', he', hpre'⟩ := exists_above_of_children ⟨e, he, hpre⟩
        exact hnames n hn e' he' hpre'
    obtain ⟨found, hx, hfound, hmem⟩ := ih _ (by rw [List.map_append, List.map_map]; rfl)
      (forall_mem_children hbranch hstack) (Apart.children hbelow hapart) hnodup' hnames'
    refine ⟨found, hx, hfound, fun n => ?_⟩
    rw [hmem, List.mem_append, Option.mem_toList, ← Option.mem_def, hown]
    constructor
    · rintro ((⟨rfl, hheld⟩ | hn) | ⟨hbeneath, hheld⟩)
      · exact Or.inr ⟨⟨_, List.mem_cons_self, List.prefix_rfl⟩, hheld⟩
      · exact Or.inl hn
      · exact Or.inr ⟨exists_above_of_children hbeneath, hheld⟩
    · rintro (hn | ⟨⟨e, he, hpre⟩, hheld⟩)
      · exact Or.inl (Or.inr hn)
      · rcases List.mem_cons.1 he with rfl | he
        · rcases hcomplete n hheld hpre with rfl | ⟨x, hx, hpre'⟩
          · exact Or.inl (Or.inl ⟨rfl, hheld⟩)
          · exact Or.inr ⟨⟨_, List.mem_append_left _ (List.mem_map_of_mem hx), hpre'⟩, hheld⟩
        · exact Or.inr ⟨⟨e, List.mem_append_right _ he, hpre⟩, hheld⟩

end ContainerRegistry
