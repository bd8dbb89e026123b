/-
# Names and tags are read exactly by their grammars

A component of a repository name is checked in one pass that remembers whether a run must
follow; what it accepts is the regular language `[a-z0-9]+(?:[._-][a-z0-9]+)*`, since the
two states of the pass accept two languages that are built from each other in the way that
the pass goes on (`RepositoryName.language_eq`, `RepositoryName.afterRun_eq`). A name is
read when it is two to five such words of 2 to 30 bytes with single slashes in between, and
the bound on the whole is then met as well. Any other text is refused for the first thing
that is wrong with it (`RepositoryName.Refused`). A tag is read when it has 1 to 128 bytes
and is in `[A-Za-z0-9_][A-Za-z0-9_.-]*`.

Key definitions: `oneOf`, `RepositoryName.language`, `RepositoryName.IsWord`,
`RepositoryName.IsGrammatical`, `RepositoryName.Refused`, `Tag.language`, `Tag.IsGrammatical`.
Key theorems: `RepositoryName.continues_iff`, `RepositoryName.fault?_eq_none_iff`,
`RepositoryName.fault?_eq_some_iff`, `Tag.isValid_iff`, `names_and_tags_exact`.
-/
import Mathlib.Computability.Language
import Mathlib.Data.Char
import Mathlib.Order.Interval.Set.Basic
import ContainerRegistry.Proofs.Grammar

namespace ContainerRegistry

open scoped Computability

/-! ### Languages of characters -/

/-- The texts of one character from a class. -/
def oneOf (s : Set Char) : Language Char :=
  {cs | ∃ c ∈ s, cs = [c]}

section Characters

variable {s : Set Char} {l : Language Char} {c : Char} {cs : List Char}

theorem nil_notMem_oneOf_mul : [] ∉ oneOf s * l := by
  rintro ⟨x, ⟨c, -, rfl⟩, y, -, hxy⟩
  cases hxy

theorem cons_mem_oneOf_mul : c :: cs ∈ oneOf s * l ↔ c ∈ s ∧ cs ∈ l := by
  constructor
  · rintro ⟨x, ⟨d, hd, rfl⟩, y, hy, hxy⟩
    obtain ⟨rfl, rfl⟩ := List.cons.inj hxy
    exact ⟨hd, hy⟩
  · rintro ⟨hc, hcs⟩
    exact ⟨[c], ⟨c, hc, rfl⟩, cs, hcs, rfl⟩

/-- What repeats a class is what holds no other character. -/
theorem mem_kstar_oneOf : cs ∈ (oneOf s)∗ ↔ ∀ c ∈ cs, c ∈ s := by
  induction cs with
  | nil => simp [Language.nil_mem_kstar]
  | cons c cs ih =>
    have hstep : c :: cs ∈ (oneOf s)∗ ↔ c :: cs ∈ 1 + oneOf s * (oneOf s)∗ := by
      rw [Language.one_add_self_mul_kstar_eq_kstar]
    rw [hstep, Language.mem_add, Language.mem_one, cons_mem_oneOf_mul, ih, List.forall_mem_cons]
    simp only [reduceCtorEq, false_or]

end Characters

namespace RepositoryName

/-! ### Words -/

/-- `[a-z0-9]` -/
def runClass : Set Char :=
  Set.Icc 'a' 'z' ∪ Set.Icc '0' '9'

/-- `[._-]` -/
def separatorClass : Set Char :=
  {'.', '_', '-'}

/-- `[a-z0-9]+` -/
def runs : Language Char :=
  oneOf runClass * (oneOf runClass)∗

/-- `[a-z0-9]+(?:[._-][a-z0-9]+)*` -/
def language : Language Char :=
  runs * (oneOf separatorClass * runs)∗

/-- What may follow the first character of a run. -/
def afterRun : Language Char :=
  (oneOf runClass)∗ * (oneOf separatorClass * runs)∗

theorem isRun_iff {c : Char} : isRun c = true ↔ c ∈ runClass := by
  simp [isRun, runClass]

theorem isSeparator_iff {c : Char} : isSeparator c = true ↔ c ∈ separatorClass := by
  simp [isSeparator, separatorClass, or_assoc]

theorem language_eq : language = oneOf runClass * afterRun := by
  rw [language, afterRun, ← mul_assoc, ← runs]

/-- A run ends, it ends in a separator, or it goes on. -/
theorem afterRun_eq :
    afterRun = 1 + oneOf separatorClass * language + oneOf runClass * afterRun := by
  have hnext : (oneOf separatorClass * runs)∗ = 1 + oneOf separatorClass * language := by
    rw [language, ← mul_assoc, Language.one_add_self_mul_kstar_eq_kstar]
  calc afterRun
      = (1 + oneOf runClass * (oneOf runClass)∗) * (oneOf separatorClass * runs)∗ := by
        rw [Language.one_add_self_mul_kstar_eq_kstar, afterRun]
    _ = (oneOf separatorClass * runs)∗ + oneOf runClass * afterRun := by
        rw [add_mul, one_mul, mul_assoc, ← afterRun]
    _ = 1 + oneOf separatorClass * language + oneOf runClass * afterRun := by rw [hnext]

/-- **The pass accepts the words**: at an edge what starts with a run, and otherwise what may
follow one. -/
theorem continues_iff (cs : List Char) :
    (continues true cs = true ↔ cs ∈ language) ∧ (continues false cs = true ↔ cs ∈ afterRun) := by
  induction cs with
  | nil =>
    constructor
    · rw [language_eq]
      simp [continues, nil_notMem_oneOf_mul]
    · rw [afterRun_eq, Language.mem_add, Language.mem_add, Language.mem_one]
      simp [continues]
  | cons c cs ih =>
    obtain ⟨hedge, hinside⟩ := ih
    have hapart : c ∈ runClass → c ∉ separatorClass := by
      rw [← isRun_iff, ← isSeparator_iff]
      intro hrun hseparator
      simp only [isSeparator, Bool.or_eq_true, beq_iff_eq] at hseparator
      rcases hseparator with (rfl | rfl) | rfl <;> exact absurd hrun (by decide)
    constructor
    · rw [language_eq, cons_mem_oneOf_mul, ← isRun_iff, ← hinside, continues]
      cases isRun c <;> simp
    · rw [afterRun_eq, Language.mem_add, Language.mem_add, cons_mem_oneOf_mul,
        cons_mem_oneOf_mul, ← hedge, ← hinside, Language.mem_one, continues]
      by_cases hrun : isRun c = true
      · have hseparator := hapart (isRun_iff.1 hrun)
        simp [hrun, isRun_iff.1 hrun, hseparator]
      · have hout : c ∉ runClass := fun h => hrun (isRun_iff.2 h)
        simp [hrun, hout, isSeparator_iff]

/-- A word of a name. -/
def IsWord (word : String) : Prop :=
  (2 ≤ word.utf8ByteSize ∧ word.utf8ByteSize ≤ 30) ∧ word.toList ∈ language

theorem isComponent_iff {cs : List Char} : isComponent cs = true ↔ cs ∈ language :=
  (continues_iff cs).1

theorem componentFault?_eq_none_iff {word : String} :
    componentFault? word = none ↔ IsWord word := by
  rw [componentFault?, IsWord, ← isComponent_iff]
  by_cases hoff : word.utf8ByteSize < 2 ∨ 30 < word.utf8ByteSize
  · rw [if_pos hoff]
    simp only [reduceCtorEq, false_iff]
    omega
  · have hsize : 2 ≤ word.utf8ByteSize ∧ word.utf8ByteSize ≤ 30 := by omega
    rw [if_neg hoff]
    by_cases hword : isComponent word.toList = true
    · rw [if_pos hword]
      exact ⟨fun _ => ⟨hsize, hword⟩, fun _ => rfl⟩
    · rw [if_neg hword]
      exact ⟨fun h => (Option.some_ne_none _ h).elim, fun h => absurd h.2 hword⟩

/-- The length of a component is reported before its characters. -/
theorem componentFault?_eq_some_iff {word : String} {e : NameError} :
    componentFault? word = some e ↔
      (¬ (2 ≤ word.utf8ByteSize ∧ word.utf8ByteSize ≤ 30) ∧ e = .componentLength word) ∨
        ((2 ≤ word.utf8ByteSize ∧ word.utf8ByteSize ≤ 30) ∧ word.toList ∉ language ∧
          e = .componentInvalid word) := by
  rw [componentFault?, ← isComponent_iff]
  by_cases hsize : 2 ≤ word.utf8ByteSize ∧ word.utf8ByteSize ≤ 30
  · have hfits : ¬ (word.utf8ByteSize < 2 ∨ 30 < word.utf8ByteSize) := by omega
    rw [if_neg hfits]
    by_cases hword : isComponent word.toList = true
    · simp [hword, hsize]
    · simp [hword, hsize, eq_comm]
  · have hoff : word.utf8ByteSize < 2 ∨ 30 < word.utf8ByteSize := by omega
    rw [if_pos hoff, Option.some.injEq]
    constructor
    · rintro rfl
      exact Or.inl ⟨hsize, rfl⟩
    · rintro (⟨-, rfl⟩ | ⟨hfits, -⟩)
      · rfl
      · exact absurd hfits hsize

/-! ### Words with slashes in between -/

/-- A text is parted by its slashes. -/
structure IsParted (text : String) (parts : List String) : Prop where
  nonempty : parts ≠ []
  slash : ∀ part ∈ parts, '/' ∉ part.toList
  joined : text = "/".intercalate parts

/-- There is one way to part a text by its slashes. -/
theorem isParted_iff {text : String} {ps : List String} : IsParted text ps ↔ parts text = ps := by
  have hof : String.ofList ∘ String.toList = id := by
    funext s
    exact String.ofList_toList
  have hto : String.toList ∘ String.ofList = id := by
    funext cs
    exact String.toList_ofList
  constructor
  · rintro ⟨hne, hslash, rfl⟩
    have hsplit : (['/'].intercalate (ps.map String.toList)).splitOn '/' = ps.map String.toList :=
      List.splitOn_intercalate '/' (by simpa using hslash) (by simpa using hne)
    rw [parts, String.toList_intercalate]
    show ((['/'].intercalate (ps.map String.toList)).splitOn '/').map String.ofList = ps
    rw [hsplit, List.map_map, hof, List.map_id]
  · rintro rfl
    refine ⟨by simp [parts, List.splitOn_ne_nil], ?_, ?_⟩
    · intro part hpart
      obtain ⟨cs, hcs, rfl⟩ := List.mem_map.1 hpart
      rw [String.toList_ofList]
      exact Path.slash_notMem_of_mem_splitOn hcs
    · rw [← String.toList_inj, String.toList_intercalate, parts, List.map_map, hto, List.map_id]
      exact (List.intercalate_splitOn '/').symm

theorem IsWord.slash {word : String} (h : IsWord word) : '/' ∉ word.toList := by
  intro hmem
  exact absurd (isNext_of_continues (isComponent_iff.2 h.2) '/' hmem) (by decide)

/-- Slashes between texts add little to what they have. -/
theorem utf8ByteSize_intercalate_le {bound : Nat} :
    ∀ {words : List String}, (∀ w ∈ words, w.utf8ByteSize ≤ bound) →
      ("/".intercalate words).utf8ByteSize ≤ (bound + 1) * words.length
  | [], _ => Nat.zero_le _
  | [w], h => by
    have hw := h w List.mem_cons_self
    rw [String.intercalate_singleton, List.length_singleton]
    omega
  | w :: v :: words, h => by
    have hw := h w List.mem_cons_self
    have ih := utf8ByteSize_intercalate_le fun x hx => h x (List.mem_cons_of_mem _ hx)
    have hslash : ("/" : String).utf8ByteSize = 1 := rfl
    rw [String.intercalate_cons_cons, String.utf8ByteSize_append, String.utf8ByteSize_append,
      hslash, List.length_cons, Nat.mul_add]
    omega

/-- Two to five words with single slashes in between. -/
def IsGrammatical (text : String) : Prop :=
  ∃ words : List String, (2 ≤ words.length ∧ words.length ≤ 5) ∧ (∀ w ∈ words, IsWord w) ∧
    text = "/".intercalate words

/-- Of five words none is too long for the whole. -/
theorem IsGrammatical.utf8ByteSize_le {text : String} (h : IsGrammatical text) :
    text.utf8ByteSize ≤ 255 := by
  obtain ⟨words, ⟨-, hcount⟩, hwords, rfl⟩ := h
  have hle := utf8ByteSize_intercalate_le fun w hw => (hwords w hw).1.2
  have hmul : (30 + 1) * words.length ≤ (30 + 1) * 5 := Nat.mul_le_mul_left _ hcount
  omega

/-- A text is grammatical when its parts are. -/
theorem isGrammatical_iff {text : String} : IsGrammatical text ↔
    (2 ≤ (parts text).length ∧ (parts text).length ≤ 5) ∧ ∀ w ∈ parts text, IsWord w := by
  constructor
  · rintro ⟨words, hcount, hwords, htext⟩
    have hne : words ≠ [] := by
      rintro rfl
      simp at hcount
    have hparts : parts text = words :=
      isParted_iff.1 ⟨hne, fun w hw => (hwords w hw).slash, htext⟩
    rw [hparts]
    exact ⟨hcount, hwords⟩
  · rintro ⟨hcount, hwords⟩
    exact ⟨parts text, hcount, hwords, (isParted_iff.2 rfl).joined⟩

/-! ### What is read and what is refused -/

/-- **A text without a fault is a grammatical one.** -/
theorem fault?_eq_none_iff {text : String} : fault? text = none ↔ IsGrammatical text := by
  rw [fault?]
  by_cases hlong : 255 < text.utf8ByteSize
  · rw [if_pos hlong]
    simp only [reduceCtorEq, false_iff]
    exact fun h => absurd h.utf8ByteSize_le (Nat.not_le.2 hlong)
  · rw [if_neg hlong, isGrammatical_iff]
    simp only
    split
    · simp only [reduceCtorEq, false_iff]
      omega
    · rename_i hcount
      rw [List.findSome?_eq_none_iff]
      simp only [componentFault?_eq_none_iff]
      exact ⟨fun h => ⟨by omega, h⟩, fun h => h.2⟩

/-- What a text is refused for as a name. -/
inductive Refused (text : String) : NameError → Prop where
  | tooLong (long : 255 < text.utf8ByteSize) : Refused text .tooLong
  | componentCount {ps : List String} (short : text.utf8ByteSize ≤ 255) (parted : IsParted text ps)
      (count : ¬ (2 ≤ ps.length ∧ ps.length ≤ 5)) : Refused text (.componentCount ps.length)
  /-- The words before this part are sound, and its length is not. -/
  | componentLength {before rest : List String} {part : String} (short : text.utf8ByteSize ≤ 255)
      (parted : IsParted text (before ++ part :: rest))
      (count : 2 ≤ (before ++ part :: rest).length ∧ (before ++ part :: rest).length ≤ 5)
      (sound : ∀ w ∈ before, IsWord w)
      (size : ¬ (2 ≤ part.utf8ByteSize ∧ part.utf8ByteSize ≤ 30)) :
      Refused text (.componentLength part)
  /-- The words before this part are sound, and its length is, but it is no word. -/
  | componentInvalid {before rest : List String} {part : String} (short : text.utf8ByteSize ≤ 255)
      (parted : IsParted text (before ++ part :: rest))
      (count : 2 ≤ (before ++ part :: rest).length ∧ (before ++ part :: rest).length ≤ 5)
      (sound : ∀ w ∈ before, IsWord w)
      (size : 2 ≤ part.utf8ByteSize ∧ part.utf8ByteSize ≤ 30) (content : part.toList ∉ language) :
      Refused text (.componentInvalid part)

/-- The first component that is wrong is reported. -/
theorem findSome?_componentFault? {ps : List String} {e : NameError} :
    ps.findSome? componentFault? = some e ↔ ∃ before part rest, ps = before ++ part :: rest ∧
      componentFault? part = some e ∧ ∀ w ∈ before, IsWord w := by
  rw [List.findSome?_eq_some_iff]
  simp only [componentFault?_eq_none_iff]

/-- **A fault is what a text is refused for.** -/
theorem fault?_eq_some_iff {text : String} {e : NameError} :
    fault? text = some e ↔ Refused text e := by
  constructor
  · intro h
    rw [fault?] at h
    split at h
    · rename_i hlong
      cases h
      exact .tooLong hlong
    · rename_i hshort
      have hparted : IsParted text (parts text) := isParted_iff.2 rfl
      simp only at h
      split at h
      · cases h
        exact .componentCount (Nat.not_lt.1 hshort) hparted (by omega)
      · rename_i hcount
        obtain ⟨before, part, rest, hparts, hfault, hsound⟩ := findSome?_componentFault?.1 h
        rw [hparts] at hparted hcount
        have hcount : 2 ≤ (before ++ part :: rest).length ∧
            (before ++ part :: rest).length ≤ 5 := by omega
        rcases componentFault?_eq_some_iff.1 hfault with ⟨hsize, rfl⟩ | ⟨hsize, hcontent, rfl⟩
        · exact .componentLength (Nat.not_lt.1 hshort) hparted hcount hsound hsize
        · exact .componentInvalid (Nat.not_lt.1 hshort) hparted hcount hsound hsize hcontent
  · intro h
    -- all but the first are looked at in the parts of a text that is short enough
    have hpart : ∀ {before rest : List String} {part : String}, text.utf8ByteSize ≤ 255 →
        IsParted text (before ++ part :: rest) →
        (2 ≤ (before ++ part :: rest).length ∧ (before ++ part :: rest).length ≤ 5) →
        (∀ w ∈ before, IsWord w) → componentFault? part = some e → fault? text = some e := by
      intro before rest part hshort hparted hcount hsound hfault
      have hparts := isParted_iff.1 hparted
      have hfits : ¬ ((parts text).length < 2 ∨ 5 < (parts text).length) := by
        rw [hparts]
        omega
      rw [fault?, if_neg (Nat.not_lt.2 hshort)]
      simp only
      rw [if_neg hfits]
      exact findSome?_componentFault?.2 ⟨before, part, rest, hparts, hfault, hsound⟩
    cases h with
    | tooLong long => rw [fault?, if_pos long]
    | @componentCount ps short parted count =>
      have hparts := isParted_iff.1 parted
      have hoff : (parts text).length < 2 ∨ 5 < (parts text).length := by
        rw [hparts]
        omega
      rw [fault?, if_neg (Nat.not_lt.2 short)]
      simp only
      rw [if_pos hoff, hparts]
    | componentLength short parted count sound size =>
      exact hpart short parted count sound (componentFault?_eq_some_iff.2 (Or.inl ⟨size, rfl⟩))
    | componentInvalid short parted count sound size content =>
      exact hpart short parted count sound
        (componentFault?_eq_some_iff.2 (Or.inr ⟨size, content, rfl⟩))

-- one character of two bytes is long enough, and the part after it is not looked at
example : fault? "é/-b" = some (.componentInvalid "é") := by decide

/-- A name is read exactly where there is one. -/
structure IsReadExactly (text : String) : Prop where
  accepted : (∃ name, parse text = .ok name) ↔ IsGrammatical text
  /-- A name keeps its text, which its components give back. -/
  kept : ∀ name, parse text = .ok name →
    name.text = text ∧ "/".intercalate name.components = text
  refused : ∀ e, parse text = .error e ↔ Refused text e

theorem isReadExactly (text : String) : IsReadExactly text := by
  constructor
  case accepted =>
    rw [← fault?_eq_none_iff]
    constructor
    · rintro ⟨name, hname⟩
      rw [← text_of_parse hname]
      exact name.valid
    · exact fun hvalid => ⟨⟨text, hvalid⟩, parse_text ⟨text, hvalid⟩⟩
  case kept =>
    intro name hname
    obtain rfl := text_of_parse hname
    exact ⟨rfl, (isParted_iff.2 rfl).joined.symm⟩
  case refused => exact fun e => parse_eq_error_iff.trans fault?_eq_some_iff

end RepositoryName

namespace Tag

/-! ### Tags -/

/-- `[A-Za-z0-9_]` -/
def firstClass : Set Char :=
  Set.Icc 'A' 'Z' ∪ Set.Icc 'a' 'z' ∪ Set.Icc '0' '9' ∪ {'_'}

/-- `[A-Za-z0-9_.-]` -/
def nextClass : Set Char :=
  firstClass ∪ {'.', '-'}

/-- `[A-Za-z0-9_][A-Za-z0-9_.-]*` -/
def language : Language Char :=
  oneOf firstClass * (oneOf nextClass)∗

theorem isFirst_iff {c : Char} : isFirst c = true ↔ c ∈ firstClass := by
  simp only [isFirst, firstClass, Bool.or_eq_true, Bool.and_eq_true, decide_eq_true_eq, beq_iff_eq,
    Set.mem_union, Set.mem_Icc, Set.mem_singleton_iff]
  tauto

theorem isNext_iff {c : Char} : isNext c = true ↔ c ∈ nextClass := by
  simp only [isNext, nextClass, Bool.or_eq_true, isFirst_iff, beq_iff_eq, Set.mem_union,
    Set.mem_insert_iff, Set.mem_singleton_iff, or_assoc]

theorem isSpelled_iff {cs : List Char} : isSpelled cs = true ↔ cs ∈ language := by
  cases cs with
  | nil => simp [isSpelled, language, nil_notMem_oneOf_mul]
  | cons c cs =>
    rw [isSpelled, language, cons_mem_oneOf_mul, mem_kstar_oneOf, Bool.and_eq_true, isFirst_iff,
      List.all_eq_true]
    simp only [isNext_iff]

/-- One to 128 bytes, spelled as a tag is. -/
def IsGrammatical (text : String) : Prop :=
  (1 ≤ text.utf8ByteSize ∧ text.utf8ByteSize ≤ 128) ∧ text.toList ∈ language

theorem isValid_iff {text : String} : isValid text = true ↔ IsGrammatical text := by
  rw [isValid, Bool.and_eq_true, isSpelled_iff, decide_eq_true_eq]
  constructor
  · rintro ⟨hspelled, hsize⟩
    refine ⟨⟨?_, hsize⟩, hspelled⟩
    -- only the empty text has no bytes, and it is not spelled as a tag
    by_contra hempty
    have htext : text = "" := String.utf8ByteSize_eq_zero_iff.1 (by omega)
    rw [htext] at hspelled
    exact nil_notMem_oneOf_mul hspelled
  · rintro ⟨⟨-, hsize⟩, hspelled⟩
    exact ⟨hspelled, hsize⟩

/-- A tag is read exactly where there is one. -/
structure IsReadExactly (text : String) : Prop where
  accepted : (∃ tag, parse text = .ok tag) ↔ IsGrammatical text
  kept : ∀ tag, parse text = .ok tag → tag.text = text
  refused : ∀ e, parse text = .error e ↔ ¬ IsGrammatical text ∧ e = ⟨text⟩

theorem isReadExactly (text : String) : IsReadExactly text := by
  constructor
  case accepted =>
    rw [← isValid_iff]
    constructor
    · rintro ⟨tag, htag⟩
      rw [← text_of_parse htag]
      exact tag.valid
    · exact fun hvalid => ⟨⟨text, hvalid⟩, parse_text ⟨text, hvalid⟩⟩
  case kept => exact fun tag htag => text_of_parse htag
  case refused =>
    intro e
    rw [← isValid_iff, parse]
    by_cases hvalid : isValid text = true
    · simp [hvalid]
    · simp [hvalid, eq_comm]

end Tag

/-- **Names and tags are read exactly by their grammars**, and what is no name is refused for
the first thing that is wrong with it. -/
theorem names_and_tags_exact (text : String) :
    RepositoryName.IsReadExactly text ∧ Tag.IsReadExactly text :=
  ⟨RepositoryName.isReadExactly text, Tag.isReadExactly text⟩

end ContainerRegistry
