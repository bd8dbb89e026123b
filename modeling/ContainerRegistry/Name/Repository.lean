/-
# Repository names

A repository is named by two to five components joined by slashes, such as
`library/ubuntu`. A component has 2 to 30 bytes: runs of lowercase letters and
digits, with one dot, underscore or hyphen between two runs. The whole name has
at most 255 bytes. Reading a name reports the length of the whole first, then
the number of components, then the first component that is wrong, its length
before its characters.

Key definitions: `RepositoryName`, `RepositoryName.fault?`,
`RepositoryName.parse`, `NameError`.
Key theorems: `RepositoryName.parse_text`, `RepositoryName.text_of_parse`.
-/
import ContainerRegistry.Text.Quoted

namespace ContainerRegistry

/-- What is wrong with a text that should be a repository name. -/
inductive NameError where
  | componentCount (count : Nat)
  | componentLength (component : String)
  | componentInvalid (component : String)
  | tooLong
  deriving DecidableEq, Repr

/-- The report of a name error. -/
def NameError.message : NameError → String
  | .componentCount count =>
    s!"repository name must have between 2 and 5 components, found {count}"
  | .componentLength component =>
    s!"repository name component {Quoted.quote component} must be between 2 and 30 characters"
  | .componentInvalid component => s!"repository name component {Quoted.quote component} is invalid"
  | .tooLong => "repository name must not be more than 255 characters"

namespace RepositoryName

/-- Whether a character may stand in a run. -/
def isRun (c : Char) : Bool :=
  ('a' ≤ c && c ≤ 'z') || ('0' ≤ c && c ≤ '9')

/-- Whether a character may stand between two runs. -/
def isSeparator (c : Char) : Bool :=
  c == '.' || c == '_' || c == '-'

/-- Whether characters continue a component: `edge` holds at its start and after
a separator, where a run must follow. -/
def continues (edge : Bool) : List Char → Bool
  | [] => !edge
  | c :: cs => if isRun c then continues false cs else isSeparator c && !edge && continues true cs

/-- Whether characters are runs joined by single separators. -/
def isComponent (cs : List Char) : Bool :=
  continues true cs

/-- The slash separated parts of a text. -/
def parts (text : String) : List String :=
  (text.toList.splitOn '/').map String.ofList

/-- What is wrong with one component. -/
def componentFault? (component : String) : Option NameError :=
  if component.utf8ByteSize < 2 ∨ 30 < component.utf8ByteSize then some (.componentLength component)
  else if isComponent component.toList then none
  else some (.componentInvalid component)

/-- What is wrong with a text as a repository name. -/
def fault? (text : String) : Option NameError :=
  if 255 < text.utf8ByteSize then some .tooLong
  else
    let components := parts text
    if components.length < 2 ∨ 5 < components.length then some (.componentCount components.length)
    else components.findSome? componentFault?

end RepositoryName

/-- The name of a repository. -/
structure RepositoryName where
  text : String
  valid : RepositoryName.fault? text = none
  deriving DecidableEq

namespace RepositoryName

/-- The repository name that a text is. -/
def parse (text : String) : Except NameError RepositoryName :=
  match h : fault? text with
  | none => .ok ⟨text, h⟩
  | some e => .error e

/-- The components of a name. -/
def components (name : RepositoryName) : List String :=
  parts name.text

/-- The name as a programmer sees it. -/
def debugText (name : RepositoryName) : String :=
  s!"RepositoryName({Quoted.quote name.text})"

/-- Names are ordered as texts. -/
instance : Ord RepositoryName where
  compare x y := compare x.text y.text

@[ext]
theorem ext {x y : RepositoryName} (text : x.text = y.text) : x = y := by
  cases x
  cases y
  simp_all

theorem parse_text (name : RepositoryName) : parse name.text = .ok name := by
  unfold parse
  split
  · rfl
  · next e h => simp [name.valid] at h

theorem text_of_parse {text : String} {name : RepositoryName} (h : parse text = .ok name) :
    name.text = text := by
  unfold parse at h
  split at h
  · cases h
    rfl
  · cases h

theorem parse_eq_error_iff {text : String} {e : NameError} :
    parse text = .error e ↔ fault? text = some e := by
  unfold parse
  split
  · next h => simp [h]
  · next h => simp [h]

end RepositoryName

end ContainerRegistry
