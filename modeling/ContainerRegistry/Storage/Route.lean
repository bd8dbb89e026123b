/-
# Routes through a file tree

A route is what a system call is given: from the top of the tree, after each
slash, a name, a step up, a dot or nothing at all. Only names and steps up lead
anywhere, but every byte counts when the system decides that a route is too long:
a name may have 255 bytes and a route 4095. A slash or a dot after the last step
asks for a directory.

Key definitions: `Step`, `Part`, `Route`, `Route.steps`, `Route.ending`,
`Route.fault?`, `Route.parent`, `Route.withFileName`.
Key theorems: `Route.steps_parent`.
-/
import ContainerRegistry.Storage.Driver

namespace ContainerRegistry

/-- One step of a walk. -/
inductive Step where
  | up
  | name (text : String)
  deriving DecidableEq, Repr

/-- What a route has after a slash. -/
inductive Part where
  /-- Nothing, before the next slash or the end. -/
  | blank
  /-- A dot, which stays where it is. -/
  | dot
  | step (step : Step)
  deriving DecidableEq, Repr

namespace Part

/-- The step that a part makes. -/
def step? : Part → Option Step
  | step s => some s
  | _ => none

/-- Whether a part leads nowhere else. -/
def isIdle (p : Part) : Bool :=
  p.step?.isNone

/-- The number of bytes of a part. -/
def size : Part → Nat
  | blank => 0
  | dot => 1
  | step .up => 2
  | step (.name text) => text.utf8ByteSize

/-- Whether a part holds a NUL. -/
def holdsNul : Part → Bool
  | step (.name text) => text.toList.any fun c => c.toNat == 0
  | _ => false

/-- The parts up to the last step. -/
def trimEnd (parts : List Part) : List Part :=
  (parts.reverse.dropWhile isIdle).reverse

/-- The parts from the first step to the last. -/
def trim (parts : List Part) : List Part :=
  trimEnd (parts.dropWhile isIdle)

theorem filterMap_dropWhile : ∀ parts : List Part,
    (parts.dropWhile isIdle).filterMap step? = parts.filterMap step?
  | [] => rfl
  | .blank :: parts => filterMap_dropWhile parts
  | .dot :: parts => filterMap_dropWhile parts
  | .step _ :: _ => rfl

theorem filterMap_trimEnd (parts : List Part) :
    (trimEnd parts).filterMap step? = parts.filterMap step? := by
  rw [trimEnd, List.filterMap_reverse, filterMap_dropWhile, ← List.filterMap_reverse,
    List.reverse_reverse]

/-- Without its last part, a trimmed route lacks its last step. -/
theorem filterMap_dropLast_trimEnd (parts : List Part) :
    (trimEnd parts).dropLast.filterMap step? = (parts.filterMap step?).dropLast := by
  rw [← filterMap_trimEnd parts, trimEnd]
  rcases h : parts.reverse.dropWhile isIdle with _ | ⟨p, rest⟩
  · rfl
  · have hp : p.isIdle = false := by
      simpa [h] using List.head?_dropWhile_not isIdle parts.reverse
    cases p with
    | step s => simp [step?]
    | _ => simp [isIdle, step?] at hp

end Part

/-- How a route ends after its last step. A slash or a dot asks for a directory. -/
inductive Ending where
  | plain
  | slash
  | dot
  deriving DecidableEq, Repr

/-- The way to an entry, from the top of the tree. -/
structure Route where
  parts : List Part
  deriving DecidableEq, Repr

namespace Route

/-- The longest name, in bytes. -/
def longestName : Nat := 255

/-- The longest route, in bytes. -/
def longestRoute : Nat := 4095

/-- The route that takes these names. -/
def ofNames (names : List String) : Route :=
  ⟨names.map fun text => .step (.name text)⟩

/-- The steps of a route. -/
def steps (r : Route) : List Step :=
  r.parts.filterMap Part.step?

/-- The number of bytes of a route: every part follows a slash. -/
def size (r : Route) : Nat :=
  r.parts.foldr (fun p rest => p.size + 1 + rest) 0

/-- How a route ends. -/
def ending (r : Route) : Ending :=
  let idle := r.parts.reverse.takeWhile Part.isIdle
  if idle.isEmpty then .plain else if idle.contains .dot then .dot else .slash

/-- What keeps a route from being given to the system. -/
def fault? (r : Route) : Option IoError :=
  if r.parts.any Part.holdsNul then some .nulInPath
  else if longestRoute < r.size then some (.system .nameTooLong)
  else none

/-- The route to the directory that holds the entry. -/
def parent (r : Route) : Route :=
  ⟨Part.trimEnd (Part.trimEnd r.parts).dropLast⟩

theorem steps_parent (r : Route) : r.parent.steps = r.steps.dropLast := by
  simp [steps, parent, Part.filterMap_trimEnd, Part.filterMap_dropLast_trimEnd]

/-- Whether only a directory will do. -/
def asksDirectory (r : Route) : Bool :=
  r.ending != .plain

/-- The name that a route ends in. -/
def fileName? (r : Route) : Option String :=
  match r.steps.getLast? with
  | some (.name text) => some text
  | _ => none

/-- The route with another name at its end; a step up at the end is kept, and a
slash after it serves for the name. -/
def withFileName (r : Route) (name : String) : Route :=
  let before :=
    match r.fileName? with
    | some _ => r.parent.parts
    | none => if r.parts.getLast? = some .blank then r.parts.dropLast else r.parts
  ⟨before ++ [.step (.name name)]⟩

/-- The steps before the one that a call is about: a dot at the end is a step of its own. -/
def leading (r : Route) : List Step :=
  if r.ending = .dot then r.steps else r.steps.dropLast

/-- The name that a call is about, unless it is about a step up or a dot. -/
def last? (r : Route) : Option String :=
  if r.ending = .dot then none else r.fileName?

end Route

end ContainerRegistry
