/-
# Slash separated paths

A path is a text. What it means is its components: a leading slash is the root,
and the parts between slashes are names, except that an empty part and a `.` do
not count (a `.` at the very start of a relative path does) and `..` is kept as
the step up that it is. Two spellings with the same components are the same
place, and places are ordered by their components.

Key definitions: `Component`, `Path`, `Path.components`, `Path.join`,
`Path.fileName?`, `Components.strip?`, `Components.append`.
Key theorems: `Components.strip?_eq_some_iff`.
-/
import Std.Data.TreeMap
import ContainerRegistry.Bytes

namespace ContainerRegistry

/-- One step of a path. -/
inductive Component where
  /-- The root of all paths. -/
  | root
  /-- The current place, at the start of a relative path. -/
  | here
  /-- The place one level up. -/
  | up
  /-- A named entry. -/
  | name (text : String)
  deriving DecidableEq, Repr

namespace Component

/-- The component as it is written. -/
def text : Component → String
  | root => "/"
  | here => "."
  | up => ".."
  | name text => text

/-- The rank of the four kinds of component. -/
def rank : Component → Nat
  | root => 0
  | here => 1
  | up => 2
  | name _ => 3

/-- Components are ordered by rank, names by their text. -/
instance : Ord Component where
  compare := compareLex (compareOn rank) (compareOn text)

instance : Std.TransOrd Component :=
  inferInstanceAs (Std.TransCmp (compareLex (compareOn rank) (compareOn text)))

instance : Std.LawfulEqOrd Component where
  eq_of_compare {a b} h := by
    have h : (compare a.rank b.rank).then (compare a.text b.text) = .eq := h
    rw [Ordering.then_eq_eq, Std.compare_eq_iff_eq, Std.compare_eq_iff_eq] at h
    cases a <;> cases b <;> simp_all [rank, text]

end Component

/-- A path, as it is spelled. -/
structure Path where
  text : String
  deriving DecidableEq, Repr

namespace Path

/-- The component that a part after the first slash stands for. -/
def laterComponent (part : List Char) : Option Component :=
  if part = [] ∨ part = ['.'] then none
  else if part = ['.', '.'] then some .up
  else some (.name (String.ofList part))

/-- The component that the part before the first slash stands for. -/
def firstComponent (part : List Char) : Option Component :=
  if part = ['.'] then some .here else laterComponent part

/-- The components of the parts of a text. -/
def ofParts : List (List Char) → List Component
  | [] => []
  | [part] => (firstComponent part).toList
  | part :: rest =>
    (if part = [] then [.root] else (firstComponent part).toList) ++ rest.filterMap laterComponent

/-- The components of a path. -/
def components (p : Path) : List Component :=
  ofParts (p.text.toList.splitOn '/')

/-- Whether a path starts at the root. -/
def isAbsolute (p : Path) : Bool :=
  p.text.toList.head? == some '/'

/-- The path reached from a base: an absolute path replaces it. -/
def join (base : Path) (rest : String) : Path :=
  if rest.toList.head? = some '/' then ⟨rest⟩
  else if base.text.toList = [] ∨ base.text.toList.getLast? = some '/' then ⟨base.text ++ rest⟩
  else ⟨base.text ++ "/" ++ rest⟩

/-- The name of the entry that a path ends in. -/
def fileName? (p : Path) : Option String :=
  match p.components.getLast? with
  | some (.name text) => some text
  | _ => none

/-- The components of the default registry root, for instance. -/
example : (Path.mk "/docker//registry/./v2/").components =
    [.root, .name "docker", .name "registry", .name "v2"] := by decide

example : (Path.mk "./a/../b").components = [.here, .name "a", .up, .name "b"] := by decide

example : (Path.mk "").components = [] := by decide

example : ((Path.mk "/a/").join "b").text = "/a/b" := by decide

end Path

namespace Components

/-- What a list of components adds to a base, if it lies at or beneath it. -/
def strip? : List Component → List Component → Option (List Component)
  | [], cs => some cs
  | _ :: _, [] => none
  | b :: base, c :: cs => if b = c then strip? base cs else none

theorem strip?_eq_some_iff : ∀ {base cs rest : List Component},
    strip? base cs = some rest ↔ cs = base ++ rest
  | [], cs, rest => by simp [strip?]
  | b :: base, [], rest => by simp [strip?]
  | b :: base, c :: cs, rest => by
    by_cases h : b = c
    · simp [strip?, h, strip?_eq_some_iff]
    · simp only [strip?, if_neg h, List.cons_append, List.cons.injEq, reduceCtorEq, false_iff,
        not_and]
      exact fun e => absurd e.symm h

/-- Whether components lie at or beneath a base. -/
def isWithin (base cs : List Component) : Bool :=
  (strip? base cs).isSome

theorem isWithin_iff {base cs : List Component} :
    isWithin base cs = true ↔ ∃ rest, cs = base ++ rest := by
  simp [isWithin, Option.isSome_iff_exists, strip?_eq_some_iff]

/-- The components of a path joined to a base: a root replaces the base, and a
leading `.` counts only without one. -/
def append (base rest : List Component) : List Component :=
  match rest with
  | [] => base
  | .root :: _ => rest
  | .here :: rest' => if base = [] then rest else base ++ rest'
  | _ => base ++ rest

/-- Components as a relative path. -/
def relativeText (cs : List Component) : String :=
  "/".intercalate (cs.map Component.text)

end Components

end ContainerRegistry
