/-
# Tags

A tag names a manifest within a repository, such as `latest`. It has 1 to 128
characters, each an ASCII letter or digit, an underscore, a dot or a hyphen, and
neither a dot nor a hyphen comes first.

Key definitions: `Tag`, `Tag.isValid`, `Tag.parse`, `TagError`.
Key theorems: `Tag.parse_text`, `Tag.text_of_parse`.
-/
import ContainerRegistry.Text.Quoted

namespace ContainerRegistry

/-- A text that should be a tag and is not. -/
structure TagError where
  text : String
  deriving DecidableEq, Repr

/-- The report of a tag error. -/
def TagError.message (e : TagError) : String :=
  s!"invalid tag {Quoted.quote e.text}"

namespace Tag

/-- Whether a character may come first. -/
def isFirst (c : Char) : Bool :=
  ('a' ≤ c && c ≤ 'z') || ('A' ≤ c && c ≤ 'Z') || ('0' ≤ c && c ≤ '9') || c == '_'

/-- Whether a character may follow. -/
def isNext (c : Char) : Bool :=
  isFirst c || c == '.' || c == '-'

/-- Whether characters spell a tag, whatever their number. -/
def isSpelled : List Char → Bool
  | [] => false
  | c :: cs => isFirst c && cs.all isNext

/-- Whether a text is a tag. -/
def isValid (text : String) : Bool :=
  isSpelled text.toList && text.utf8ByteSize ≤ 128

end Tag

/-- The name of a manifest within a repository. -/
structure Tag where
  text : String
  valid : Tag.isValid text = true
  deriving DecidableEq

namespace Tag

/-- The tag that a text is. -/
def parse (text : String) : Except TagError Tag :=
  if h : isValid text = true then .ok ⟨text, h⟩ else .error ⟨text⟩

/-- The tag as a programmer sees it. -/
def debugText (tag : Tag) : String :=
  s!"Tag({Quoted.quote tag.text})"

@[ext]
theorem ext {x y : Tag} (text : x.text = y.text) : x = y := by
  cases x
  cases y
  simp_all

theorem parse_text (tag : Tag) : parse tag.text = .ok tag := by
  rw [parse, dif_pos tag.valid]

theorem text_of_parse {text : String} {tag : Tag} (h : parse text = .ok tag) : tag.text = text := by
  unfold parse at h
  split at h
  · cases h
    rfl
  · cases h

end Tag

end ContainerRegistry
