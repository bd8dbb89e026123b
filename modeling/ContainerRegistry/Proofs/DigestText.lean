/-
# The text form of digests

A text is read as a digest when it is the name of an algorithm, a colon and as many of the
characters `0-9a-f` as the algorithm takes; the digest is then shown as that text. The first
colon cuts a text, its length is counted in bytes and its digits are looked at last, and a
text that is no digest is refused for the first of these that is wrong
(`Digest.Refused`).

A digest is read back from its text, be it the result of hashing, and from a link that holds
the text with blanks around it. Since the names of the algorithms have the same length, and
digits are of one byte each, digests are ordered as the bytes of their texts are.

Key definitions: `Digest.IsGrammatical`, `Digest.Refused`, `Digest.IsReadExactly`,
`Digest.IsReadBack`, `Digest.IsOrderedAsText`.
Key theorems: `Digest.parse_ok_iff`, `Digest.parse_error_iff`, `Digest.digestOfLink_surrounded`,
`Digest.toText_lt`, `Digest.text_form`.
-/
import Mathlib.Data.List.TakeWhile
import Mathlib.Data.String.Basic
import ContainerRegistry.Digest.Running
import ContainerRegistry.Proofs.JsonText
import ContainerRegistry.Proofs.Languages
import ContainerRegistry.Proofs.Pointing

namespace ContainerRegistry

open ContainerRegistry.Action

/-! ### Reading -/

namespace Algorithm

theorem parse_ok_iff {text : String} {a : Algorithm} : parse text = .ok a ↔ text = a.name := by
  constructor
  · intro h
    rw [parse] at h
    split at h
    · cases h
      assumption
    · split at h
      · cases h
        assumption
      · cases h
  · rintro rfl
    cases a <;> rfl

theorem parse_error_iff {text : String} {e : DigestError} :
    parse text = .error e ↔
      (text ≠ "sha256" ∧ text ≠ "sha512") ∧ e = .unsupportedAlgorithm text := by
  rw [parse]
  by_cases hshort : text = "sha256"
  · simp [hshort]
  · by_cases hlong : text = "sha512"
    · simp [hlong]
    · simp [hshort, hlong, eq_comm]

end Algorithm

namespace Digest

/-- `[0-9a-f]` -/
def digitClass : Set Char :=
  Set.Icc '0' '9' ∪ Set.Icc 'a' 'f'

theorem isDigit_iff {c : Char} : Hex.isDigit c = true ↔ c ∈ digitClass := by
  simp [Hex.isDigit, digitClass]

/-- So many characters of `0-9a-f`. -/
def IsHash (count : Nat) (hex : String) : Prop :=
  hex.toList.length = count ∧ ∀ c ∈ hex.toList, c ∈ digitClass

/-- The name of an algorithm, a colon, and a hash of the length that is its own. -/
def IsGrammatical (text : String) : Prop :=
  (∃ hex, IsHash 64 hex ∧ text = "sha256:" ++ hex) ∨
    ∃ hex, IsHash 128 hex ∧ text = "sha512:" ++ hex

theorem accepts_iff {a : Algorithm} {hex : String} :
    a.accepts hex = true ↔ IsHash a.hexLength hex := by
  simp only [Algorithm.accepts, IsHash, Bool.and_eq_true, beq_iff_eq, List.all_eq_true,
    isDigit_iff]

theorem isGrammatical_iff {text : String} : IsGrammatical text ↔
    ∃ (a : Algorithm) (hex : String), IsHash a.hexLength hex ∧ text = a.name ++ ":" ++ hex := by
  constructor
  · rintro (⟨hex, hhash, rfl⟩ | ⟨hex, hhash, rfl⟩)
    · exact ⟨.sha256, hex, hhash, rfl⟩
    · exact ⟨.sha512, hex, hhash, rfl⟩
  · rintro ⟨a, hex, hhash, rfl⟩
    cases a with
    | sha256 => exact Or.inl ⟨hex, hhash, rfl⟩
    | sha512 => exact Or.inr ⟨hex, hhash, rfl⟩

/-- A text without a colon names no algorithm. -/
theorem parse_of_no_colon {text : String} (h : ':' ∉ text.toList) :
    parse text = .error (.missingAlgorithm text) := by
  have hdrop : text.toList.dropWhile (· ≠ ':') = [] := by
    rw [List.dropWhile_eq_nil_iff]
    intro c hc
    exact decide_eq_true fun hcolon => h (hcolon ▸ hc)
  rw [parse, hdrop]

theorem parse_of_unsupported {name rest : String} {e : DigestError} (h : ':' ∉ name.toList)
    (hname : Algorithm.parse name = .error e) : parse (name ++ ":" ++ rest) = .error e := by
  obtain ⟨htake, hdrop⟩ := cut_colon h rest
  rw [parse, hdrop, htake]
  simp only [String.ofList_toList, hname]

/-- A text with a colon has a first one. -/
theorem exists_cut {text : String} (h : ':' ∈ text.toList) :
    ∃ name rest : String, text = name ++ ":" ++ rest ∧ ':' ∉ name.toList := by
  obtain ⟨before, after, htext, hbefore⟩ := List.eq_append_cons_of_mem h
  refine ⟨String.ofList before, String.ofList after, ?_, by rwa [String.toList_ofList]⟩
  rw [← String.toList_inj, htext]
  simp

/-- What a text is refused for as a digest. -/
inductive Refused (text : String) : DigestError → Prop where
  | missingAlgorithm (colon : ':' ∉ text.toList) : Refused text (.missingAlgorithm text)
  | unsupportedAlgorithm {name rest : String} (cut : text = name ++ ":" ++ rest)
      (first : ':' ∉ name.toList) (unknown : name ≠ "sha256" ∧ name ≠ "sha512") :
      Refused text (.unsupportedAlgorithm name)
  | invalidLength {a : Algorithm} {rest : String} (cut : text = a.name ++ ":" ++ rest)
      (length : rest.utf8ByteSize ≠ a.hexLength) : Refused text (.invalidLength text a.hexLength)
  | invalidHex {a : Algorithm} {rest : String} (cut : text = a.name ++ ":" ++ rest)
      (length : rest.utf8ByteSize = a.hexLength) (digits : ∃ c ∈ rest.toList, c ∉ digitClass) :
      Refused text (.invalidHex text)

/-- Digits are of one byte each, so as many bytes of them are a hash. -/
theorem isHash_of_utf8ByteSize {count : Nat} {hex : String} (hsize : hex.utf8ByteSize = count)
    (hdigits : ∀ c ∈ hex.toList, c ∈ digitClass) : IsHash count hex := by
  have hbytes : hex.utf8ByteSize = hex.toList.length :=
    utf8ByteSize_of_ascii fun c hc => Hex.utf8Size_of_isDigit (isDigit_iff.2 (hdigits c hc))
  exact ⟨hbytes.symm.trans hsize, hdigits⟩

/-- **A text is read as the digest that is shown as it.** -/
theorem parse_ok_iff {text : String} {d : Digest} : parse text = .ok d ↔ d.toText = text := by
  refine ⟨fun h => ?_, fun h => h ▸ parse_toText d⟩
  by_cases hcolon : ':' ∈ text.toList
  · obtain ⟨name, rest, rfl, hfirst⟩ := exists_cut hcolon
    cases hname : Algorithm.parse name with
    | error e =>
      rw [parse_of_unsupported hfirst hname] at h
      cases h
    | ok a =>
      obtain rfl := Algorithm.parse_ok_iff.1 hname
      rw [parse_of_name] at h
      split at h
      · cases h
      · split at h
        · cases h
          rfl
        · cases h
  · rw [parse_of_no_colon hcolon] at h
    cases h

/-- **A text is refused for the first thing that is wrong with it.** -/
theorem parse_error_iff {text : String} {e : DigestError} :
    parse text = .error e ↔ Refused text e := by
  constructor
  · intro h
    by_cases hcolon : ':' ∈ text.toList
    · obtain ⟨name, rest, hcut, hfirst⟩ := exists_cut hcolon
      cases hname : Algorithm.parse name with
      | error cause =>
        rw [hcut, parse_of_unsupported hfirst hname] at h
        obtain rfl := Except.error.inj h
        obtain ⟨hunknown, rfl⟩ := Algorithm.parse_error_iff.1 hname
        exact .unsupportedAlgorithm hcut hfirst hunknown
      | ok a =>
        obtain rfl := Algorithm.parse_ok_iff.1 hname
        rw [hcut, parse_of_name, ← hcut] at h
        split at h
        · rename_i hlength
          cases h
          exact .invalidLength hcut hlength
        · rename_i hlength
          rw [not_not] at hlength
          split at h
          · cases h
          · rename_i haccepts
            cases h
            refine .invalidHex hcut hlength ?_
            by_contra hdigits
            push Not at hdigits
            exact haccepts (accepts_iff.2 (isHash_of_utf8ByteSize hlength hdigits))
    · rw [parse_of_no_colon hcolon] at h
      cases h
      exact .missingAlgorithm hcolon
  · intro h
    cases h with
    | missingAlgorithm colon => exact parse_of_no_colon colon
    | @unsupportedAlgorithm name rest cut first unknown =>
      rw [cut]
      exact parse_of_unsupported first (Algorithm.parse_error_iff.2 ⟨unknown, rfl⟩)
    | invalidLength cut length => rw [cut, parse_of_name, if_pos length]
    | @invalidHex a rest cut length digits =>
      obtain ⟨c, hc, hdigit⟩ := digits
      have hrejects : ¬ a.accepts rest = true := fun haccepts =>
        hdigit ((accepts_iff.1 haccepts).2 c hc)
      rw [cut, parse_of_name, if_neg (not_not_intro length), dif_neg hrejects]

example : parse "md5:a:b" = .error (.unsupportedAlgorithm "md5") := by decide

/-- A digest is read exactly where there is one. -/
structure IsReadExactly (text : String) : Prop where
  accepted : (∃ d, parse text = .ok d) ↔ IsGrammatical text
  kept : ∀ d, parse text = .ok d → d.toText = text
  refused : ∀ e, parse text = .error e ↔ Refused text e

theorem isReadExactly (text : String) : IsReadExactly text := by
  constructor
  case accepted =>
    rw [isGrammatical_iff]
    constructor
    · rintro ⟨d, hd⟩
      exact ⟨d.algorithm, d.hex, accepts_iff.1 d.wellFormed, (parse_ok_iff.1 hd).symm⟩
    · rintro ⟨a, hex, hhash, rfl⟩
      exact ⟨⟨a, hex, accepts_iff.2 hhash⟩, parse_ok_iff.2 rfl⟩
  case kept => exact fun d hd => parse_ok_iff.1 hd
  case refused => exact fun e => parse_error_iff

/-! ### Reading back -/

/-- A link that holds the text of a digest names it, blanks around it aside. -/
theorem digestOfLink_surrounded (path : Path) (d : Digest) {before after : String}
    (hbefore : ∀ c ∈ before.toList, Blank.isBlank c = true)
    (hafter : ∀ c ∈ after.toList, Blank.isBlank c = true) :
    digestOfLink path (Bytes.ofText (before ++ d.toText ++ after)) = .ok d := by
  rw [digestOfLink, Bytes.text?_ofText]
  simp only [Blank.trim_surrounded hbefore hafter d.not_isBlank_of_mem_toText, parse_toText]

/-- A digest is not lost by being written down. -/
structure IsReadBack (d : Digest) : Prop where
  text : parse d.toText = .ok d
  /-- A link with the text and blanks around it is read as the digest, on any storage. -/
  link : ∀ {σ ρ : Type} (r : Registry σ ρ) (path : Path) (s s' : σ) (before after : String),
    (∀ c ∈ before.toList, Blank.isBlank c = true) → (∀ c ∈ after.toList, Blank.isBlank c = true) →
    (r.storage.getContent path).outcome s =
      (.ok (Bytes.ofText (before ++ d.toText ++ after)), s') →
    (r.readLink path).outcome s = (.ok (some d), s')
  /-- A link that was pointed at the digest is read as it. -/
  written : ∀ (l : Layout) (path : Path) (t : MemoryStore),
    ((l.inMemory.readLink path).outcome ((l.inMemory.writeLink path d).outcome t).2).1 =
      .ok (some d)

theorem isReadBack (d : Digest) : IsReadBack d := by
  constructor
  case text => exact parse_toText d
  case link =>
    intro σ ρ r path s s' before after hbefore hafter hcontent
    have hfound : (found (r.storage.getContent path)).outcome s =
        (.ok (some (Bytes.ofText (before ++ d.toText ++ after))), s') := outcome_found_ok hcontent
    rw [Registry.readLink, outcome_bind, hfound]
    simp only [digestOfLink_surrounded path d hbefore hafter]
    rfl
  case written =>
    intro l path t
    have hfile : ((l.inMemory.writeLink path d).outcome t).2.file? path =
        some (Bytes.ofText d.toText) := by
      show (t.put path (Bytes.ofText d.toText)).file? path = _
      rw [MemoryStore.file?_put, if_pos rfl]
    rw [Registry.outcome_readLink_some hfile]

/-- What hashing ends in is read from the name of the algorithm and the digits of the hash. -/
theorem parse_hash (a : Algorithm) (data : Bytes) :
    parse (a.name ++ ":" ++ Hex.encode (a.hash data)) = .ok (a.start.update data).finish := by
  rw [RunningDigest.finish_update_start]
  exact parse_toText (ofBytes a data)

/-! ### Order -/

/-- The characters of the text of a digest are of one byte each. -/
theorem toNat_lt_of_mem_toText (d : Digest) : ∀ c ∈ d.toText.toList, c.toNat < 128 := by
  have hall := d.all_toText (p := fun c => c.toNat < 128) (by cases d.algorithm <;> rfl) rfl
    fun c hc => by
      have hrange := Hex.toNat_of_isDigit hc
      exact decide_eq_true (by omega)
  simpa using hall

/-- A digest that comes first has the text that comes first. -/
theorem toText_lt {d e : Digest} (h : compare d e = .lt) : d.toText < e.toText := by
  obtain ⟨a, hex, hd⟩ := d
  obtain ⟨b, hex', he⟩ := e
  have h : (compare a b).then (compare hex hex') = .lt := h
  rw [String.lt_iff, toText, toText, String.toList_append, String.toList_append,
    String.toList_append, String.toList_append]
  by_cases hab : a = b
  · subst hab
    have hhex : compare hex hex' = .lt := by
      cases a <;> exact h
    exact List.append_left_lt (String.lt_iff.1 (compare_lt_iff_lt.1 hhex))
  · cases a with
    | sha512 =>
      cases b with
      | sha512 => exact absurd rfl hab
      | sha256 => cases h
    | sha256 =>
      cases b with
      | sha256 => exact absurd rfl hab
      | sha512 =>
        -- the names differ at their fourth character
        have hshort : Algorithm.sha256.name.toList = 's' :: 'h' :: 'a' :: '2' :: ['5', '6'] := by
          decide
        have hlong : Algorithm.sha512.name.toList = 's' :: 'h' :: 'a' :: '5' :: ['1', '2'] := by
          decide
        have hfourth : '2' < '5' := by decide
        rw [hshort, hlong]
        exact List.Lex.cons (.cons (.cons (.rel hfourth)))

theorem ofText_lt {d e : Digest} (h : compare d e = .lt) :
    Bytes.ofText d.toText < Bytes.ofText e.toText :=
  Bytes.ofText_lt d.toNat_lt_of_mem_toText e.toNat_lt_of_mem_toText (toText_lt h)

theorem compare_swap (d e : Digest) : (compare d e).swap = compare e d := by
  have halgorithm : ∀ a b : Algorithm, (compare a b).swap = compare b a := by
    intro a b
    cases a <;> cases b <;> rfl
  show ((compare d.algorithm e.algorithm).then (compare d.hex e.hex)).swap = _
  rw [Ordering.swap_then, halgorithm, ← Std.OrientedCmp.eq_swap]
  rfl

/-- Only a digest itself is neither before nor after it. -/
theorem eq_of_compare {d e : Digest} (h : compare d e = .eq) : d = e := by
  have halgorithm : ∀ a b : Algorithm, compare a b = .eq → a = b := by
    intro a b
    cases a <;> cases b <;> decide
  have h : (compare d.algorithm e.algorithm).then (compare d.hex e.hex) = .eq := h
  rw [Ordering.then_eq_eq] at h
  exact Digest.ext (halgorithm _ _ h.1) (Std.compare_eq_iff_eq.1 h.2)

/-- Digests are ordered as the bytes of their texts. -/
structure IsOrderedAsText (d e : Digest) : Prop where
  less : compare d e = .lt ↔ Bytes.ofText d.toText < Bytes.ofText e.toText
  same : compare d e = .eq ↔ Bytes.ofText d.toText = Bytes.ofText e.toText
  greater : compare d e = .gt ↔ Bytes.ofText e.toText < Bytes.ofText d.toText

theorem isOrderedAsText (d e : Digest) : IsOrderedAsText d e := by
  have hswap := compare_swap d e
  have hirrefl : ∀ bytes : Bytes, ¬ bytes < bytes := fun bytes => List.lt_irrefl bytes
  cases hcompare : compare d e with
  | lt =>
    have hlt := ofText_lt hcompare
    have hne : Bytes.ofText d.toText ≠ Bytes.ofText e.toText := fun heq => hirrefl _ (heq ▸ hlt)
    constructor <;> simp [hcompare, hlt, hne, List.lt_asymm hlt]
  | eq =>
    obtain rfl := eq_of_compare hcompare
    constructor <;> simp [hcompare, hirrefl]
  | gt =>
    rw [hcompare] at hswap
    have hlt := ofText_lt hswap.symm
    have hne : Bytes.ofText d.toText ≠ Bytes.ofText e.toText := fun heq => hirrefl _ (heq ▸ hlt)
    constructor <;> simp [hcompare, hlt, hne, List.lt_asymm hlt]

/-- **Digests and their texts are one**: a text is read exactly where it is that of a digest,
every digest is read back from its text and from a link with blanks around it, what hashing
ends in is read from its digits, and digests are ordered as the bytes of their texts. -/
theorem text_form : (∀ text, IsReadExactly text) ∧ (∀ d, IsReadBack d) ∧
    (∀ (a : Algorithm) (data : Bytes), parse (a.name ++ ":" ++ Hex.encode (a.hash data)) =
      .ok (a.start.update data).finish) ∧
    ∀ d e, IsOrderedAsText d e :=
  ⟨isReadExactly, isReadBack, parse_hash, isOrderedAsText⟩

end Digest
end ContainerRegistry
