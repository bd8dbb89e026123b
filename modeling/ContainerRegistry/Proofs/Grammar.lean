/-
# Digests, names, tags and identifiers are names of entries

The grammars of digests, repository names, tags and upload identifiers leave no
room for an empty part, a dot part or a slash: each of their parts is spelled as a
tag may be (`Path.IsPlain`), and so names one entry of a directory (`Path.IsName`).
No component of a repository name starts with an underscore
(`RepositoryName.not_isMarked_of_mem_components`). The text of a digest holds no blank
character and is read back as that digest (`Digest.parse_toText`).

Key definitions: `Path.IsPlain`, `Path.IsMarked`.
Key theorems: `Path.IsPlain.isName`, `Digest.isPlain_hex`, `Digest.parse_toText`,
`RepositoryName.isPlain_of_mem_components`, `RepositoryName.toList_text`,
`UploadId.isPlain_text`.
-/
import ContainerRegistry.Layout
import ContainerRegistry.Proofs.Path
import ContainerRegistry.Text.Blank

namespace ContainerRegistry

theorem Hex.toNat_of_isDigit {c : Char} (h : isDigit c = true) :
    (0x30 ≤ c.toNat ∧ c.toNat ≤ 0x39) ∨ (0x61 ≤ c.toNat ∧ c.toNat ≤ 0x66) := by
  simp only [isDigit, Bool.or_eq_true, Bool.and_eq_true, decide_eq_true_eq, Char.le_def,
    UInt32.le_iff_toNat_le] at h
  exact h

/-- A hexadecimal digit takes one byte. -/
theorem Hex.utf8Size_of_isDigit {c : Char} (h : isDigit c = true) : c.utf8Size = 1 := by
  have hrange := toNat_of_isDigit h
  rw [Char.utf8Size_eq_one_iff, UInt32.le_iff_toNat_le]
  show c.toNat ≤ 127
  omega

theorem Hex.isBlank_of_isDigit {c : Char} (h : isDigit c = true) : Blank.isBlank c = false := by
  have hrange := toNat_of_isDigit h
  simp only [Blank.isBlank, Bool.or_eq_false_iff, Bool.and_eq_false_iff, decide_eq_false_iff_not,
    beq_eq_false_iff_ne]
  omega

/-- A text of characters of one byte each has as many bytes as characters. -/
theorem utf8ByteSize_of_ascii {text : String} (h : ∀ c ∈ text.toList, c.utf8Size = 1) :
    text.utf8ByteSize = text.toList.length := by
  have hlist : ∀ cs : List Char, (∀ c ∈ cs, c.utf8Size = 1) →
      (String.ofList cs).utf8ByteSize = cs.length := by
    intro cs hcs
    induction cs with
    | nil => rfl
    | cons c cs ih =>
      have hrest := ih fun c hc => hcs c (List.mem_cons_of_mem _ hc)
      rw [String.ofList_cons, String.utf8ByteSize_append, String.utf8ByteSize_singleton,
        hcs c List.mem_cons_self, hrest, List.length_cons, Nat.add_comm]
  rw [← hlist _ h, String.ofList_toList]

/-- A name that is spelled as a tag may be. -/
def Path.IsPlain (text : String) : Prop :=
  Tag.isValid text = true

instance (text : String) : Decidable (Path.IsPlain text) :=
  inferInstanceAs (Decidable (_ = _))

namespace Path

variable {text : String}

theorem IsPlain.spelling (h : IsPlain text) : ∃ c cs, text.toList = c :: cs ∧
    Tag.isFirst c = true ∧ ∀ c ∈ cs, Tag.isNext c = true := by
  simp only [IsPlain, Tag.isValid, Bool.and_eq_true] at h
  cases hlist : text.toList with
  | nil => simp [hlist, Tag.isSpelled] at h
  | cons c cs =>
    rw [hlist, Tag.isSpelled, Bool.and_eq_true, List.all_eq_true] at h
    exact ⟨c, cs, rfl, h.1⟩

theorem IsPlain.isNext (h : IsPlain text) : ∀ c ∈ text.toList, Tag.isNext c = true := by
  obtain ⟨c, cs, hlist, hfirst, hnext⟩ := h.spelling
  rw [hlist]
  intro a ha
  rcases List.mem_cons.1 ha with rfl | ha
  · simp [Tag.isNext, hfirst]
  · exact hnext a ha

theorem IsPlain.utf8ByteSize_le (h : IsPlain text) : text.utf8ByteSize ≤ 128 := by
  simp only [IsPlain, Tag.isValid, Bool.and_eq_true, decide_eq_true_eq] at h
  exact h.2

/-- A plain name does not start with a dot. -/
theorem IsPlain.head_ne_dot (h : IsPlain text) : text.toList.head? ≠ some '.' := by
  obtain ⟨c, cs, hlist, hfirst, -⟩ := h.spelling
  rw [hlist, List.head?_cons]
  rintro ⟨⟩
  exact absurd hfirst (by decide)

theorem IsPlain.isName (h : IsPlain text) : IsName text := by
  have hhead := h.head_ne_dot
  refine ⟨?_, fun e => hhead (by simp [e]), fun e => hhead (by simp [e]), fun hc => ?_⟩
  · obtain ⟨c, cs, hlist, -⟩ := h.spelling
    simp [hlist]
  · exact absurd (h.isNext _ hc) (by decide)

theorem isFirst_of_isDigit {c : Char} (h : Hex.isDigit c = true) : Tag.isFirst c = true := by
  have hrange := Hex.toNat_of_isDigit h
  simp only [Tag.isFirst, Bool.or_eq_true, Bool.and_eq_true, decide_eq_true_eq, Char.le_def,
    UInt32.le_iff_toNat_le]
  rcases hrange with hrange | hrange
  · exact Or.inl (Or.inr hrange)
  · exact Or.inl (Or.inl (Or.inl ⟨hrange.1, Nat.le_trans hrange.2 (by decide)⟩))

/-- A digit and then digits and hyphens are a plain name, if they are not too many. -/
theorem isPlain_of_isDigit {c : Char} {cs : List Char} (htext : text.toList = c :: cs)
    (hc : Hex.isDigit c = true) (hcs : ∀ c ∈ cs, Hex.isDigit c = true ∨ c = '-')
    (hlength : text.toList.length ≤ 128) : IsPlain text := by
  have hascii : ∀ a ∈ text.toList, a.utf8Size = 1 := by
    rw [htext]
    intro a ha
    rcases List.mem_cons.1 ha with rfl | ha
    · exact Hex.utf8Size_of_isDigit hc
    · rcases hcs a ha with ha | rfl
      · exact Hex.utf8Size_of_isDigit ha
      · rfl
  have hnext : ∀ a ∈ cs, Tag.isNext a = true := by
    intro a ha
    rcases hcs a ha with ha | rfl
    · simp [Tag.isNext, isFirst_of_isDigit ha]
    · decide
  simp only [IsPlain, Tag.isValid, htext, Tag.isSpelled, Bool.and_eq_true, List.all_eq_true,
    decide_eq_true_eq]
  exact ⟨⟨isFirst_of_isDigit hc, hnext⟩, by rwa [utf8ByteSize_of_ascii hascii]⟩

end Path

namespace Algorithm

theorem isPlain_name : ∀ a : Algorithm, Path.IsPlain a.name
  | sha256 => by decide
  | sha512 => by decide

theorem name_injective : ∀ {a b : Algorithm}, a.name = b.name → a = b
  | sha256, sha256, _ => rfl
  | sha512, sha512, _ => rfl
  | sha256, sha512, h => by simp [name] at h
  | sha512, sha256, h => by simp [name] at h

theorem two_lt_hexLength : ∀ a : Algorithm, 2 < a.hexLength
  | sha256 => by decide
  | sha512 => by decide

end Algorithm

namespace Digest

theorem length_hex (d : Digest) : d.hex.toList.length = d.algorithm.hexLength := by
  have h := d.wellFormed
  simp only [Algorithm.accepts, Bool.and_eq_true, beq_iff_eq] at h
  exact h.1

theorem isDigit_of_mem_hex (d : Digest) : ∀ c ∈ d.hex.toList, Hex.isDigit c = true := by
  have h := d.wellFormed
  simp only [Algorithm.accepts, Bool.and_eq_true, List.all_eq_true] at h
  exact h.2

theorem isPlain_take (d : Digest) (count : Nat) (hcount : 0 < count) :
    Path.IsPlain (String.ofList (d.hex.toList.take count)) := by
  have hlength := d.length_hex
  have hlt := d.algorithm.two_lt_hexLength
  have hle : d.algorithm.hexLength ≤ 128 := by cases d.algorithm <;> decide
  have hdigit : ∀ c ∈ d.hex.toList.take count, Hex.isDigit c = true := fun c hc =>
    d.isDigit_of_mem_hex c (List.mem_of_mem_take hc)
  cases htake : d.hex.toList.take count with
  | nil =>
    have := congrArg List.length htake
    rw [List.length_take, List.length_nil] at this
    omega
  | cons c cs =>
    rw [htake] at hdigit
    refine Path.isPlain_of_isDigit String.toList_ofList (hdigit c List.mem_cons_self)
      (fun a ha => Or.inl (hdigit a (List.mem_cons_of_mem _ ha))) ?_
    rw [String.toList_ofList, ← htake, List.length_take]
    omega

theorem isPlain_shard (d : Digest) : Path.IsPlain (Layout.shard d) :=
  d.isPlain_take 2 (by decide)

theorem isPlain_hex (d : Digest) : Path.IsPlain d.hex := by
  have hpos := d.algorithm.two_lt_hexLength
  have h := d.isPlain_take d.hex.toList.length (by rw [d.length_hex]; omega)
  rwa [List.take_length, String.ofList_toList] at h

theorem utf8ByteSize_hex (d : Digest) : d.hex.utf8ByteSize = d.algorithm.hexLength := by
  rw [utf8ByteSize_of_ascii fun c hc => Hex.utf8Size_of_isDigit (d.isDigit_of_mem_hex c hc),
    length_hex]

/-- A text is cut at its first colon. -/
theorem cut_colon {name : String} (h : ':' ∉ name.toList) (rest : String) :
    (name ++ ":" ++ rest).toList.takeWhile (· ≠ ':') = name.toList ∧
      (name ++ ":" ++ rest).toList.dropWhile (· ≠ ':') = ':' :: rest.toList := by
  have hname : ∀ c ∈ name.toList, decide (c ≠ ':') = true := fun c hc =>
    decide_eq_true fun hcolon => h (hcolon ▸ hc)
  have htext : (name ++ ":" ++ rest).toList = name.toList ++ ':' :: rest.toList := by simp
  rw [htext, List.takeWhile_append_of_pos hname, List.dropWhile_append_of_pos hname,
    List.takeWhile_cons_of_neg (by simp), List.dropWhile_cons_of_neg (by simp), List.append_nil]
  exact ⟨rfl, rfl⟩

/-- What follows the name of an algorithm is judged by its length, then by its digits. -/
theorem parse_of_name (a : Algorithm) (rest : String) :
    parse (a.name ++ ":" ++ rest) =
      if rest.utf8ByteSize ≠ a.hexLength then
        .error (.invalidLength (a.name ++ ":" ++ rest) a.hexLength)
      else if h : a.accepts rest = true then .ok ⟨a, rest, h⟩
      else .error (.invalidHex (a.name ++ ":" ++ rest)) := by
  have hname : ':' ∉ a.name.toList := by cases a <;> decide
  have halgorithm : Algorithm.parse a.name = .ok a := by cases a <;> rfl
  obtain ⟨htake, hdrop⟩ := cut_colon hname rest
  rw [parse, hdrop, htake]
  simp only [String.ofList_toList, halgorithm]

/-- **The text of a digest names it.** -/
theorem parse_toText (d : Digest) : parse d.toText = .ok d := by
  rw [toText, parse_of_name, if_neg (not_not_intro d.utf8ByteSize_hex), dif_pos d.wellFormed]

/-- What holds of the names of algorithms, the colon and the digits holds of the text of a
digest. -/
theorem all_toText {p : Char → Bool} (d : Digest) (hname : d.algorithm.name.toList.all p = true)
    (hcolon : p ':' = true) (hdigit : ∀ c, Hex.isDigit c = true → p c = true) :
    ∀ c ∈ d.toText.toList, p c = true := by
  intro c hc
  rw [toText, String.toList_append, String.toList_append, List.mem_append, List.mem_append] at hc
  rcases hc with (hc | hc) | hc
  · exact List.all_eq_true.1 hname c hc
  · exact List.mem_singleton.1 hc ▸ hcolon
  · exact hdigit c (d.isDigit_of_mem_hex c hc)

theorem not_isBlank_of_mem_toText (d : Digest) :
    ∀ c ∈ d.toText.toList, Blank.isBlank c = false := by
  have hall := d.all_toText (p := fun c => !Blank.isBlank c) (by cases d.algorithm <;> rfl) rfl
    fun c hc => by rw [Hex.isBlank_of_isDigit hc]; rfl
  simpa using hall

end Digest

/-- Blanks around a text without blanks are trimmed. -/
theorem Blank.trim_surrounded {before text after : String}
    (hbefore : ∀ c ∈ before.toList, isBlank c = true)
    (hafter : ∀ c ∈ after.toList, isBlank c = true)
    (htext : ∀ c ∈ text.toList, isBlank c = false) : trim (before ++ text ++ after) = text := by
  have hkeep : ∀ cs : List Char, (∀ c ∈ cs, isBlank c = false) → cs.dropWhile isBlank = cs := by
    intro cs hcs
    cases cs with
    | nil => rfl
    | cons c cs => exact List.dropWhile_cons_of_neg (by simp [hcs c List.mem_cons_self])
  have hfront : (before ++ text ++ after).toList.dropWhile isBlank =
      (text.toList ++ after.toList).dropWhile isBlank := by
    rw [String.toList_append, String.toList_append, List.append_assoc,
      List.dropWhile_append_of_pos hbefore]
  have hback : ((text.toList ++ after.toList).dropWhile isBlank).reverse.dropWhile isBlank =
      text.toList.reverse := by
    cases hcs : text.toList with
    | nil =>
      have hnone : (after.toList ++ []).dropWhile isBlank = [] :=
        List.dropWhile_append_of_pos hafter
      rw [List.append_nil] at hnone
      rw [List.nil_append, hnone]
      rfl
    | cons c cs =>
      have hc : isBlank c = false := htext c (hcs ▸ List.mem_cons_self)
      rw [List.cons_append, List.dropWhile_cons_of_neg (by simp [hc]), ← List.cons_append, ← hcs,
        List.reverse_append, List.dropWhile_append_of_pos (by simpa using hafter),
        hkeep _ (by simpa using htext)]
  rw [trim, trimChars, hfront, hback, List.reverse_reverse, String.ofList_toList]

/-- A text without blank characters is not trimmed. -/
theorem Blank.trim_eq_self {text : String} (h : ∀ c ∈ text.toList, isBlank c = false) :
    trim text = text := by
  have hnone : ∀ c ∈ ("" : String).toList, isBlank c = true := by simp
  simpa using trim_surrounded hnone hnone h

/-- A name that starts with an underscore. -/
def Path.IsMarked (text : String) : Prop :=
  text.toList.head? = some '_'

instance (text : String) : Decidable (Path.IsMarked text) :=
  inferInstanceAs (Decidable (_ = _))

namespace RepositoryName

/-- The components of a name are well formed. -/
theorem componentFault?_eq_none (name : RepositoryName) :
    ∀ c ∈ name.components, componentFault? c = none := by
  have h := name.valid
  unfold fault? at h
  split at h
  · simp at h
  · simp only at h
    split at h
    · simp at h
    · exact List.findSome?_eq_none_iff.1 h

theorem components_ne_nil (name : RepositoryName) : name.components ≠ [] := by
  simp [components, parts, List.splitOn_ne_nil]

/-- A component starts with a letter or a digit. -/
theorem head_isRun {component : String} (h : componentFault? component = none) :
    ∃ c cs, component.toList = c :: cs ∧ isRun c = true := by
  unfold componentFault? at h
  split at h
  · simp at h
  · next hlen =>
    split at h
    · next hcs =>
      cases hlist : component.toList with
      | nil =>
        have : component = "" := by rw [← String.toList_inj, hlist, String.toList_empty]
        simp [this] at hlen
      | cons c cs =>
        refine ⟨c, cs, rfl, ?_⟩
        rw [hlist, isComponent, continues] at hcs
        split at hcs
        · assumption
        · simp at hcs
    · simp at h

/-- A component is spelled with letters, digits and separators. -/
theorem isNext_of_continues : ∀ {cs : List Char} {edge : Bool}, continues edge cs = true →
    ∀ c ∈ cs, Tag.isNext c = true
  | c :: cs, edge, h, a, ha => by
    have hrun : ∀ {c : Char}, isRun c = true → Tag.isNext c = true := by
      intro c hc
      simp only [isRun, Bool.or_eq_true] at hc
      rcases hc with hc | hc <;> simp [Tag.isNext, Tag.isFirst, hc]
    have hseparator : ∀ {c : Char}, isSeparator c = true → Tag.isNext c = true := by
      intro c hc
      simp only [isSeparator, Bool.or_eq_true, beq_iff_eq] at hc
      rcases hc with (rfl | rfl) | rfl <;> decide
    rw [continues] at h
    split at h
    · rename_i hc
      rcases List.mem_cons.1 ha with rfl | ha
      · exact hrun hc
      · exact isNext_of_continues h a ha
    · simp only [Bool.and_eq_true] at h
      rcases List.mem_cons.1 ha with rfl | ha
      · exact hseparator h.1.1
      · exact isNext_of_continues h.2 a ha

theorem isPlain_of_mem_components {name : RepositoryName} {c : String} (h : c ∈ name.components) :
    Path.IsPlain c := by
  have hfault := name.componentFault?_eq_none c h
  obtain ⟨a, cs, hlist, hrun⟩ := head_isRun hfault
  have hfirst : Tag.isFirst a = true := by
    simp only [isRun, Bool.or_eq_true] at hrun
    rcases hrun with hrun | hrun <;> simp [Tag.isFirst, hrun]
  unfold componentFault? at hfault
  split at hfault
  · simp at hfault
  · next hlength =>
    split at hfault
    · next hcomponent =>
      have hnext := isNext_of_continues hcomponent
      rw [hlist] at hnext
      simp only [Path.IsPlain, Tag.isValid, hlist, Tag.isSpelled, Bool.and_eq_true,
        List.all_eq_true, decide_eq_true_eq]
      exact ⟨⟨hfirst, fun c hc => hnext c (List.mem_cons_of_mem _ hc)⟩, by omega⟩
    · simp at hfault

theorem isName_of_mem_components {name : RepositoryName} {c : String} (h : c ∈ name.components) :
    Path.IsName c :=
  (isPlain_of_mem_components h).isName

theorem not_isMarked_of_mem_components {name : RepositoryName} {c : String}
    (h : c ∈ name.components) : ¬ Path.IsMarked c := by
  obtain ⟨a, cs, hlist, hrun⟩ := head_isRun (name.componentFault?_eq_none c h)
  intro hm
  have : a = '_' := by simpa [Path.IsMarked, hlist] using hm
  simp [this, isRun] at hrun

theorem toList_text (name : RepositoryName) :
    name.text.toList = ['/'].intercalate (name.components.map String.toList) := by
  have h : (String.toList ∘ String.ofList : List Char → List Char) = id := by
    funext cs
    simp
  rw [components, parts, List.map_map, h, List.map_id, List.intercalate_splitOn]

theorem components_injective {x y : RepositoryName} (h : x.components = y.components) : x = y := by
  apply ext
  rw [← String.toList_inj, toList_text, toList_text, h]

end RepositoryName

namespace Tag

theorem isName_text (t : Tag) : Path.IsName t.text :=
  Path.IsPlain.isName t.valid

end Tag

namespace UploadId

/-- A character of an identifier is a digit or a hyphen. -/
theorem isDigit_or_eq_hyphen (id : UploadId) :
    ∀ c ∈ id.text.toList, Hex.isDigit c = true ∨ c = '-' := by
  have h := id.wellFormed
  simp only [isWellFormed, Bool.and_eq_true, List.all_eq_true] at h
  intro c hc
  rcases Path.eq_or_mem_splitOn '-' hc with rfl | ⟨part, hpart, hcp⟩
  · exact Or.inr rfl
  · exact Or.inl (h.2 part hpart c hcp)

theorem isPlain_text (id : UploadId) : Path.IsPlain id.text := by
  have h := id.wellFormed
  simp only [isWellFormed, Bool.and_eq_true, List.all_eq_true, beq_iff_eq] at h
  have hjoin : ['-'].intercalate (id.text.toList.splitOn '-') = id.text.toList :=
    List.intercalate_splitOn '-'
  -- the first group is not empty, and all groups together are 32 digits
  obtain ⟨a, b, c, d, e, hgroups⟩ : ∃ a b c d e, id.text.toList.splitOn '-' = [a, b, c, d, e] := by
    have hlength : (id.text.toList.splitOn '-').length = 5 := by
      simpa using congrArg List.length h.1
    match id.text.toList.splitOn '-', hlength with
    | [a, b, c, d, e], _ => exact ⟨a, b, c, d, e, rfl⟩
  rw [hgroups] at h hjoin
  simp only [List.map_cons, List.map_nil, List.cons.injEq, and_true] at h
  obtain ⟨⟨ha, hb, hc, hd, he⟩, hdigits⟩ := h
  obtain ⟨x, xs, rfl⟩ : ∃ x xs, a = x :: xs := by
    cases a with
    | nil => simp at ha
    | cons x xs => exact ⟨x, xs, rfl⟩
  have htext : id.text.toList = x :: (xs ++ '-' :: b ++ '-' :: c ++ '-' :: d ++ '-' :: e) := by
    rw [← hjoin]
    simp [List.intercalate]
  refine Path.isPlain_of_isDigit htext (hdigits (x :: xs) (by simp) x (by simp)) (fun y hy => ?_) ?_
  · exact id.isDigit_or_eq_hyphen y (htext ▸ List.mem_cons_of_mem _ hy)
  · rw [htext]
    simp only [List.length_cons, List.length_append] at ha ⊢
    omega

end UploadId

end ContainerRegistry
