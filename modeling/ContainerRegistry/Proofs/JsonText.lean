/-
# The tokens that a text of JSON spells

Characters spell tokens when the machine that cuts a text, started between two
tokens, comes out with them; a word or a number that stands last is then still
open, and any mark or blank closes it (`Lexer.Holds`). Spelling goes along with
appending, so what a writer writes can be cut piece by piece. A text in quotes spells
itself, whatever its characters are, and the digits of a number spell the number that
they are read as.

Key definitions: `Bytes.ofChars`, `Json.Lexer.Holds`, `Json.Spells`, `Json.SpellsOut`,
`Json.Stand`, `Json.decimal`.
Key theorems: `Json.tokens?_of_spells`, `Json.spellsOut_quoted`, `Json.spells_whole`,
`Json.numberOf?_decimal`.
-/
import Mathlib.Algebra.Group.Nat.Defs
import Mathlib.Tactic.SplitIfs
import ContainerRegistry.Json.Token

namespace ContainerRegistry

namespace Bytes

/-- The UTF-8 encoding of characters. -/
def ofChars (cs : List Char) : Bytes :=
  cs.flatMap String.utf8EncodeChar

theorem ofText_ofList (cs : List Char) : ofText (String.ofList cs) = ofChars cs := by
  rw [ofText, String.toByteArray_ofList, List.utf8Encode, List.toList_data_toByteArray, ofChars]

theorem ofChars_toList (s : String) : ofChars s.toList = ofText s := by
  rw [← ofText_ofList, String.ofList_toList]

@[simp] theorem ofChars_nil : ofChars [] = [] := rfl

@[simp] theorem ofChars_append (cs ds : List Char) :
    ofChars (cs ++ ds) = ofChars cs ++ ofChars ds :=
  List.flatMap_append

theorem ofChars_cons (c : Char) (cs : List Char) :
    ofChars (c :: cs) = String.utf8EncodeChar c ++ ofChars cs :=
  List.flatMap_cons

theorem utf8EncodeChar_of_ascii {c : Char} (h : c.toNat < 128) :
    String.utf8EncodeChar c = [UInt8.ofNat c.toNat] := by
  have : c.val.toNat ≤ 127 := by
    show c.toNat ≤ 127
    omega
  simp only [String.utf8EncodeChar, this, if_true]
  rfl

/-- Characters of one byte each are ordered as their bytes are. -/
theorem ofChars_lt {cs ds : List Char} (hcs : ∀ c ∈ cs, c.toNat < 128)
    (hds : ∀ d ∈ ds, d.toNat < 128) (h : cs < ds) : ofChars cs < ofChars ds := by
  induction h with
  | nil =>
    rw [ofChars_nil, ofChars_cons, utf8EncodeChar_of_ascii (hds _ List.mem_cons_self)]
    exact List.Lex.nil
  | @rel c cs d ds hcd =>
    rw [ofChars_cons, ofChars_cons, utf8EncodeChar_of_ascii (hcs _ List.mem_cons_self),
      utf8EncodeChar_of_ascii (hds _ List.mem_cons_self)]
    refine List.Lex.rel ?_
    have hc := hcs c List.mem_cons_self
    have hd := hds d List.mem_cons_self
    have hlt : c.toNat < d.toNat := hcd
    rw [UInt8.lt_iff_toNat_lt, UInt8.toNat_ofNat', UInt8.toNat_ofNat']
    omega
  | @cons c cs ds _ ih =>
    rw [ofChars_cons, ofChars_cons, utf8EncodeChar_of_ascii (hcs _ List.mem_cons_self)]
    exact List.Lex.cons (ih (fun a ha => hcs a (List.mem_cons_of_mem _ ha))
      fun a ha => hds a (List.mem_cons_of_mem _ ha))

/-- Texts of characters of one byte each are ordered as their bytes are. -/
theorem ofText_lt {s t : String} (hs : ∀ c ∈ s.toList, c.toNat < 128)
    (ht : ∀ c ∈ t.toList, c.toNat < 128) (h : s < t) : ofText s < ofText t := by
  rw [← ofChars_toList, ← ofChars_toList]
  exact ofChars_lt hs ht (String.lt_iff.1 h)

/-- A byte of a character's encoding is the character, or is no character at all. -/
theorem toNat_of_mem_utf8EncodeChar {c : Char} {b : UInt8} (h : b ∈ String.utf8EncodeChar c) :
    b.toNat = c.toNat ∨ 128 ≤ b.toNat := by
  have hc : c.val.toNat = c.toNat := rfl
  simp only [String.utf8EncodeChar] at h
  split at h
  · rw [List.mem_singleton.1 h, UInt8.toNat_ofNat']
    omega
  · right
    split at h
    · simp only [List.mem_cons, List.not_mem_nil, or_false] at h
      rcases h with rfl | rfl <;> rw [UInt8.toNat_ofNat'] <;> omega
    · split at h
      · simp only [List.mem_cons, List.not_mem_nil, or_false] at h
        rcases h with rfl | rfl | rfl <;> rw [UInt8.toNat_ofNat'] <;> omega
      · simp only [List.mem_cons, List.not_mem_nil, or_false] at h
        rcases h with rfl | rfl | rfl | rfl <;> rw [UInt8.toNat_ofNat'] <;> omega

end Bytes

namespace Json

namespace Lexer

/-- Tokens are all that the machine has read: they are complete, or the last is a word or a
number that ends with the next byte that cannot belong to it. -/
structure Holds (l : Lexer) (ts : List Token) : Prop where
  closes : l.close? = some ts
  opens : ∀ b, isLetter b = false → isNumeric b = false → l.step b = open? ts b

theorem holds_between (ts : List Token) : Holds ⟨ts, .between⟩ ts :=
  ⟨rfl, fun _ _ _ => rfl⟩

theorem holds_word {letters : Bytes} {t : Token} (ts : List Token)
    (h : wordToken? letters.reverse = some t) : Holds ⟨ts, .word letters⟩ (t :: ts) where
  closes := by simp [close?, h]
  opens b hletter _ := by simp [step, hletter, close?, h]

theorem holds_number {spelled : Bytes} {s : Spelling} (ts : List Token)
    (h : spelling? spelled.reverse = some s) :
    Holds ⟨ts, .number spelled⟩ (.number (numberOf? s) :: ts) where
  closes := by simp [close?, h]
  opens b _ hnumeric := by simp [step, hnumeric, close?, h]

/-- What the machine does to characters. -/
def Takes (l : Lexer) (cs : List Char) (l' : Lexer) : Prop :=
  (Bytes.ofChars cs).foldlM step l = some l'

theorem Takes.nil (l : Lexer) : Takes l [] l := rfl

theorem Takes.append {l l' l'' : Lexer} {cs ds : List Char} (hc : Takes l cs l')
    (hd : Takes l' ds l'') : Takes l (cs ++ ds) l'' := by
  rw [Takes, Bytes.ofChars_append, List.foldlM_append, hc]
  exact hd

theorem Takes.cons {l m k : Lexer} {c : Char} {cs : List Char} (hc : Takes l [c] m)
    (hcs : Takes m cs k) : Takes l (c :: cs) k :=
  Takes.append hc hcs

/-- A character of ASCII is one step. -/
theorem takes_ascii {l l' : Lexer} {c : Char} (hc : c.toNat < 128)
    (h : l.step (UInt8.ofNat c.toNat) = some l') : Takes l [c] l' := by
  rw [Takes, Bytes.ofChars_cons, Bytes.utf8EncodeChar_of_ascii hc]
  simp [h]

/-- A mark is a token of its own. -/
theorem open?_of_mark {b : UInt8} {t : Token} (h : mark? b = some t) (ts : List Token) :
    open? ts b = some ⟨t :: ts, .between⟩ ∧ isLetter b = false ∧ isNumeric b = false := by
  unfold mark? at h
  repeat' split at h
  all_goals cases h
  all_goals
    subst_vars
    exact ⟨rfl, rfl, rfl⟩

/-- A blank is passed over. -/
theorem open?_of_blank {b : UInt8} (h : isBlank b = true) (ts : List Token) :
    open? ts b = some ⟨ts, .between⟩ ∧ isLetter b = false ∧ isNumeric b = false := by
  refine ⟨by rw [open?, if_pos h], ?_⟩
  simp only [isBlank, Bool.or_eq_true, beq_iff_eq] at h
  rcases h with ((rfl | rfl) | rfl) | rfl <;> exact ⟨rfl, rfl⟩

end Lexer

open Lexer

/-- Characters spell tokens, of which the last may still be open. -/
def Spells (cs : List Char) (ts : List Token) : Prop :=
  ∀ before, ∃ l, Takes ⟨before, .between⟩ cs l ∧ l.Holds (ts.reverse ++ before)

/-- Characters spell tokens and close the last of them. -/
def SpellsOut (cs : List Char) (ts : List Token) : Prop :=
  ∀ before, Takes ⟨before, .between⟩ cs ⟨ts.reverse ++ before, .between⟩

variable {cs ds : List Char} {ts us : List Token}

theorem SpellsOut.spells (h : SpellsOut cs ts) : Spells cs ts := fun before =>
  ⟨_, h before, holds_between _⟩

theorem SpellsOut.nil : SpellsOut [] [] := fun _ => Takes.nil _

theorem SpellsOut.append (hc : SpellsOut cs ts) (hd : SpellsOut ds us) :
    SpellsOut (cs ++ ds) (ts ++ us) := fun before => by
  simpa using (hc before).append (hd (ts.reverse ++ before))

theorem SpellsOut.append_spells (hc : SpellsOut cs ts) (hd : Spells ds us) :
    Spells (cs ++ ds) (ts ++ us) := fun before => by
  obtain ⟨l, htakes, hholds⟩ := hd (ts.reverse ++ before)
  exact ⟨l, (hc before).append htakes, by simpa using hholds⟩

/-- A mark closes what stands before it. -/
theorem Spells.mark {c : Char} {t : Token} (h : Spells cs ts) (hascii : c.toNat < 128)
    (hc : mark? (UInt8.ofNat c.toNat) = some t) : SpellsOut (cs ++ [c]) (ts ++ [t]) := by
  intro before
  obtain ⟨l, htakes, hholds⟩ := h before
  obtain ⟨hopen, hletter, hnumeric⟩ := open?_of_mark hc (ts.reverse ++ before)
  refine htakes.append (takes_ascii hascii ?_)
  rw [hholds.opens _ hletter hnumeric, hopen]
  simp

/-- A blank closes what stands before it. -/
theorem Spells.blank {c : Char} (h : Spells cs ts) (hascii : c.toNat < 128)
    (hc : isBlank (UInt8.ofNat c.toNat) = true) : SpellsOut (cs ++ [c]) ts := fun before => by
  obtain ⟨l, htakes, hholds⟩ := h before
  obtain ⟨hopen, hletter, hnumeric⟩ := open?_of_blank hc (ts.reverse ++ before)
  refine htakes.append (takes_ascii hascii ?_)
  rw [hholds.opens _ hletter hnumeric, hopen]

/-- What characters spell is what the text consists of. -/
theorem tokens?_of_spells (h : Spells cs ts) : tokens? (Bytes.ofChars cs) = some ts := by
  obtain ⟨l, htakes, hholds⟩ := h []
  have hfold : (Bytes.ofChars cs).foldlM Lexer.step start = some l := htakes
  simp [tokens?, hfold, hholds.closes]

/-! ### Words -/

theorem spells_null : Spells (word "null") [.null] := fun before =>
  ⟨⟨before, .word (Bytes.ofText "llun")⟩, rfl, holds_word before rfl⟩

theorem spells_bool (b : Bool) : Spells (word (if b then "true" else "false")) [.bool b] :=
  fun before => by
  cases b with
  | true => exact ⟨⟨before, .word (Bytes.ofText "eurt")⟩, rfl, holds_word before rfl⟩
  | false => exact ⟨⟨before, .word (Bytes.ofText "eslaf")⟩, rfl, holds_word before rfl⟩

/-! ### Texts in quotes -/

/-- Pieces stand for bytes, whatever pieces come after them. -/
def Stand (ps : List Piece) (bytes : Bytes) : Prop :=
  ∀ rest, bytesOf? (ps ++ rest) = (bytesOf? rest).map (bytes ++ ·)

theorem Stand.nil : Stand [] [] := fun rest => by
  cases h : bytesOf? rest <;> simp [h]

theorem Stand.append {ps qs : List Piece} {bytes more : Bytes} (hp : Stand ps bytes)
    (hq : Stand qs more) : Stand (ps ++ qs) (bytes ++ more) := fun rest => by
  rw [List.append_assoc, hp, hq]
  cases bytesOf? rest <;> simp

theorem stand_bytes : ∀ bytes : Bytes, Stand (bytes.map .byte) bytes
  | [] => Stand.nil
  | b :: bytes => fun rest => by
    rw [List.map_cons, List.cons_append, bytesOf?, stand_bytes bytes]
    cases bytesOf? rest <;> simp

/-- The unit of a character that is no half of a pair stands for the character. -/
theorem stand_unit {c : Char} (h : c.toNat < 0xd800) :
    Stand [.unit c.toNat] (String.utf8EncodeChar c) := fun rest => by
  have hutf8 : utf8 c.toNat = String.utf8EncodeChar c := by
    rw [utf8, Char.ofNat_toNat, ← Bytes.ofChars_toList]
    simp [Bytes.ofChars_cons]
  have hlow : ¬ (0xdc00 ≤ c.toNat ∧ c.toNat ≤ 0xdfff) := by omega
  have hhigh : ¬ (0xd800 ≤ c.toNat ∧ c.toNat ≤ 0xdbff) := by omega
  rw [List.singleton_append, bytesOf?.eq_def]
  simp only [hlow, hhigh, if_false, hutf8]

theorem textOf_of_stand {ps : List Piece} {s : String} (h : Stand ps (Bytes.ofText s)) :
    textOf ps = some s := by
  have hbytes : bytesOf? ps = some (Bytes.ofText s) := by simpa [bytesOf?] using h []
  rw [textOf, hbytes, Option.bind_some, Bytes.text?_ofText]

/-- In quotes the machine turns characters into pieces that stand for bytes. -/
def Quotes (cs : List Char) (bytes : Bytes) : Prop :=
  ∃ ps, Stand ps bytes ∧
    ∀ before pieces, Takes ⟨before, .text pieces⟩ cs ⟨before, .text (ps.reverse ++ pieces)⟩

theorem Quotes.nil : Quotes [] [] :=
  ⟨[], Stand.nil, fun _ _ => Takes.nil _⟩

theorem Quotes.append {bytes more : Bytes} (hc : Quotes cs bytes) (hd : Quotes ds more) :
    Quotes (cs ++ ds) (bytes ++ more) := by
  obtain ⟨ps, hps, hcs⟩ := hc
  obtain ⟨qs, hqs, hds⟩ := hd
  exact ⟨ps ++ qs, hps.append hqs, fun before pieces => by
    simpa using (hcs before pieces).append (hds before (ps.reverse ++ pieces))⟩

/-- A character behind a backslash. -/
theorem quotes_escaped {c d : Char} (hd : d.toNat < 128) (hne : UInt8.ofNat d.toNat ≠ 0x75)
    (h : escaped? (UInt8.ofNat d.toNat) = some (UInt8.ofNat c.toNat)) (hc : c.toNat < 128) :
    Quotes ['\\', d] (String.utf8EncodeChar c) := by
  rw [Bytes.utf8EncodeChar_of_ascii hc]
  refine ⟨[.byte (UInt8.ofNat c.toNat)], stand_bytes [_], fun before pieces => ?_⟩
  refine Takes.cons (m := ⟨before, .escape pieces⟩) (takes_ascii (by decide) rfl)
    (takes_ascii hd ?_)
  simp only [step, hne, if_false, h, Option.map_some, List.reverse_singleton,
    List.singleton_append]

/-- The machine takes a hexadecimal digit. -/
theorem takes_hex {n : Nat} (hn : n < 16) (before : List Token) (pieces : List Piece)
    (left value : Nat) :
    Takes ⟨before, .code pieces left value⟩ [Hex.digit n]
      (if left ≤ 1 then ⟨before, .text (.unit (value * 16 + n) :: pieces)⟩
        else ⟨before, .code pieces (left - 1) (value * 16 + n)⟩) := by
  have hascii : ∀ n, n < 16 → (Hex.digit n).toNat < 128 := by decide
  have hdigit : ∀ n, n < 16 → hexDigit? (UInt8.ofNat (Hex.digit n).toNat) = some n := by decide
  refine takes_ascii (hascii n hn) ?_
  simp only [step, hdigit n hn, Option.map_some]

/-- A control as its code. -/
theorem quotes_code {c : Char} (h : c.toNat < 0xd800) :
    Quotes ('\\' :: 'u' :: Hex.ofNatPadded 4 c.toNat) (String.utf8EncodeChar c) := by
  refine ⟨[.unit c.toNat], stand_unit h, fun before pieces => ?_⟩
  have hdigits : Hex.ofNatPadded 4 c.toNat =
      [Hex.digit (c.toNat / 4096 % 16), Hex.digit (c.toNat / 256 % 16),
        Hex.digit (c.toNat / 16 % 16), Hex.digit (c.toNat % 16)] := by
    simp [Hex.ofNatPadded, List.range_succ, Nat.shiftRight_eq_div_pow]
  have hvalue : (((0 * 16 + c.toNat / 4096 % 16) * 16 + c.toNat / 256 % 16) * 16 +
      c.toNat / 16 % 16) * 16 + c.toNat % 16 = c.toNat := by omega
  rw [hdigits]
  refine Takes.cons (m := ⟨before, .escape pieces⟩) (takes_ascii (by decide) rfl) ?_
  refine Takes.cons (m := ⟨before, .code pieces 4 0⟩) (takes_ascii (by decide) rfl) ?_
  refine (takes_hex (by omega) before pieces 4 0).cons ?_
  refine (takes_hex (by omega) before pieces 3 _).cons ?_
  refine (takes_hex (by omega) before pieces 2 _).cons ?_
  have hlast := takes_hex (n := c.toNat % 16) (by omega) before pieces 1
    (((0 * 16 + c.toNat / 4096 % 16) * 16 + c.toNat / 256 % 16) * 16 + c.toNat / 16 % 16)
  rw [hvalue] at hlast
  exact hlast

/-- A character as it is. -/
theorem quotes_plain {c : Char} (hquote : c ≠ '"') (hslash : c ≠ '\\') (hc : 0x20 ≤ c.toNat) :
    Quotes [c] (String.utf8EncodeChar c) := by
  have hbyte : ∀ b ∈ String.utf8EncodeChar c, ∀ before pieces,
      step ⟨before, .text pieces⟩ b = some ⟨before, .text (.byte b :: pieces)⟩ := by
    intro b hb before pieces
    have hnat := Bytes.toNat_of_mem_utf8EncodeChar hb
    have hquote' : c.toNat ≠ 0x22 := fun h => hquote (Char.ext (UInt32.toNat_inj.1 h))
    have hslash' : c.toNat ≠ 0x5c := fun h => hslash (Char.ext (UInt32.toNat_inj.1 h))
    have h22 : b ≠ 0x22 := fun h => by
      have : b.toNat = 0x22 := by rw [h]; rfl
      omega
    have h5c : b ≠ 0x5c := fun h => by
      have : b.toNat = 0x5c := by rw [h]; rfl
      omega
    have h20 : ¬ b < 0x20 := fun h => by
      have : b.toNat < 0x20 := UInt8.lt_iff_toNat_lt.1 h
      omega
    simp only [step, h22, h5c, h20, if_false]
  have htakes : ∀ bytes : Bytes, (∀ b ∈ bytes, b ∈ String.utf8EncodeChar c) →
      ∀ before pieces, bytes.foldlM step ⟨before, .text pieces⟩ =
        some ⟨before, .text ((bytes.map Piece.byte).reverse ++ pieces)⟩ := by
    intro bytes hbytes before
    induction bytes with
    | nil => exact fun _ => rfl
    | cons b bytes ih =>
      intro pieces
      have hrest := ih (fun b hb => hbytes b (List.mem_cons_of_mem _ hb)) (.byte b :: pieces)
      simp [hbyte b (hbytes b List.mem_cons_self), hrest]
  refine ⟨_, stand_bytes _, fun before pieces => ?_⟩
  rw [Takes, Bytes.ofChars_cons, Bytes.ofChars_nil, List.append_nil]
  exact htakes _ (fun _ hb => hb) before pieces

theorem quotes_escape (c : Char) : Quotes (escape c) (String.utf8EncodeChar c) := by
  have hof : ∀ {n : Nat}, c.toNat = n → c = Char.ofNat n := fun h => by rw [← h, Char.ofNat_toNat]
  unfold escape
  split_ifs with hquote hslash hback hfeed hline hreturn htab hcontrol
  · rw [hquote]
    exact quotes_escaped (by decide) (by decide) rfl (by decide)
  · rw [hslash]
    exact quotes_escaped (by decide) (by decide) rfl (by decide)
  · rw [hof hback]
    exact quotes_escaped (by decide) (by decide) rfl (by decide)
  · rw [hof hfeed]
    exact quotes_escaped (by decide) (by decide) rfl (by decide)
  · rw [hline]
    exact quotes_escaped (by decide) (by decide) rfl (by decide)
  · rw [hreturn]
    exact quotes_escaped (by decide) (by decide) rfl (by decide)
  · rw [htab]
    exact quotes_escaped (by decide) (by decide) rfl (by decide)
  · exact quotes_code (by omega)
  · exact quotes_plain hquote hslash (by omega)

theorem quotes_escapes : ∀ cs : List Char, Quotes (cs.flatMap escape) (Bytes.ofChars cs)
  | [] => Quotes.nil
  | c :: cs => by
    rw [List.flatMap_cons, Bytes.ofChars_cons]
    exact (quotes_escape c).append (quotes_escapes cs)

/-- **A text in quotes spells itself.** -/
theorem spellsOut_quoted (s : String) : SpellsOut (quoted s) [.text (some s)] := fun before => by
  obtain ⟨ps, hps, htakes⟩ := quotes_escapes s.toList
  have htext : textOf ps = some s := textOf_of_stand (Bytes.ofChars_toList s ▸ hps)
  refine Takes.cons (m := ⟨before, .text []⟩) (takes_ascii (by decide) rfl) ?_
  refine (htakes before []).append (takes_ascii (by decide) ?_)
  simp [step, htext]

/-! ### Numbers -/

theorem toNat_of_isDigit {c : Char} (h : c.isDigit = true) : 0x30 ≤ c.toNat ∧ c.toNat ≤ 0x39 := by
  simp only [Char.isDigit, Bool.and_eq_true, decide_eq_true_eq, ge_iff_le,
    UInt32.le_iff_toNat_le] at h
  exact h

theorem isDigit_of_mem_decimal {n : Nat} : ∀ c ∈ Nat.toDigits 10 n, c.isDigit = true :=
  fun _ hc => Nat.isDigit_of_mem_toDigits (by decide) (Nat.le_refl 10) hc

/-- The digit that a character of ASCII is. -/
theorem digit?_of_isDigit {c : Char} (h : c.isDigit = true) :
    c.toNat < 128 ∧ digit? (UInt8.ofNat c.toNat) = some (c.toNat - 0x30) := by
  have hrange := toNat_of_isDigit h
  have hbyte : (UInt8.ofNat c.toNat).toNat = c.toNat := by
    rw [UInt8.toNat_ofNat']
    omega
  have hle : (0x30 : UInt8) ≤ UInt8.ofNat c.toNat ∧ UInt8.ofNat c.toNat ≤ 0x39 := by
    rw [UInt8.le_iff_toNat_le, UInt8.le_iff_toNat_le, hbyte]
    exact hrange
  exact ⟨by omega, by rw [digit?, if_pos hle, hbyte]⟩

theorem digits_ofChars : ∀ {cs : List Char}, (∀ c ∈ cs, c.isDigit = true) →
    digits (Bytes.ofChars cs) = cs.map (fun c => c.toNat - 0x30) ∧
      afterDigits (Bytes.ofChars cs) = []
  | [], _ => ⟨rfl, rfl⟩
  | c :: cs, h => by
    obtain ⟨hascii, hdigit⟩ := digit?_of_isDigit (h c List.mem_cons_self)
    obtain ⟨hdigits, hafter⟩ := digits_ofChars fun c hc => h c (List.mem_cons_of_mem _ hc)
    have his : isDigit (UInt8.ofNat c.toNat) = true := by rw [isDigit, hdigit]; rfl
    rw [Bytes.ofChars_cons, Bytes.utf8EncodeChar_of_ascii hascii]
    simp only [digits, afterDigits] at hdigits hafter ⊢
    simp [his, hdigit, hdigits, hafter]

/-- No zero leads the digits of a positive number. -/
theorem head_toDigits_ne_zero {n : Nat} (h : 0 < n) :
    ∃ c cs, Nat.toDigits 10 n = c :: cs ∧ c ≠ '0' := by
  induction n using Nat.strongRecOn with
  | ind n ih =>
    rcases Nat.lt_or_ge n 10 with hlt | hge
    · refine ⟨n.digitChar, [], Nat.toDigits_of_lt_base hlt, ?_⟩
      have hdigit : ∀ n, n < 10 → 0 < n → n.digitChar ≠ '0' := by decide
      exact hdigit n hlt h
    · obtain ⟨c, cs, hcs, hc⟩ := ih (n / 10) (by omega) (by omega)
      refine ⟨c, cs ++ [(n % 10).digitChar], ?_, hc⟩
      rw [Nat.toDigits_eq_if (by decide), if_neg (by omega), hcs, List.cons_append]

/-- The spelling of a whole number. -/
def decimal (n : Nat) : Spelling :=
  ⟨false, (Nat.toDigits 10 n).map fun c => c.toNat - 0x30, none, none⟩

theorem spelling?_toDigits (n : Nat) :
    spelling? (Bytes.ofChars (Nat.toDigits 10 n)) = some (decimal n) := by
  obtain ⟨hdigits, hafter⟩ := digits_ofChars (isDigit_of_mem_decimal (n := n))
  have hlead : ((decimal n).whole.isEmpty ||
      ((decimal n).whole.head? == some 0 && 1 < (decimal n).whole.length)) = false := by
    rcases Nat.eq_zero_or_pos n with rfl | hpos
    · rfl
    · obtain ⟨c, cs, hcs, hc⟩ := head_toDigits_ne_zero hpos
      have hrange := toNat_of_isDigit (isDigit_of_mem_decimal c (hcs ▸ List.mem_cons_self))
      have hne : c.toNat ≠ 0x30 := fun h => hc (Char.ext (UInt32.toNat_inj.1 h))
      simp [decimal, hcs]
      omega
  -- the first byte is a digit, so there is no sign
  have hsign : ∀ b rest, Bytes.ofChars (Nat.toDigits 10 n) = b :: rest → b ≠ 0x2d := by
    intro b rest heq hb
    have : digits (b :: rest) = [] := by rw [hb]; rfl
    rw [← heq, hdigits] at this
    exact Nat.toDigits_ne_nil (List.map_eq_nil_iff.1 this)
  cases hbytes : Bytes.ofChars (Nat.toDigits 10 n) with
  | nil => simp [hbytes, digits, Nat.toDigits_ne_nil] at hdigits
  | cons b rest =>
    rw [hbytes] at hdigits hafter
    have hwhole : digits (b :: rest) = (decimal n).whole := hdigits
    simp only [spelling?, hsign b rest hbytes, if_false, hwhole, hafter, hlead]
    rfl

theorem ofDigits_decimal (n : Nat) : ofDigits (decimal n).whole = n := by
  have h : ∀ (cs : List Char) (k : Nat), (cs.map fun c => c.toNat - 0x30).foldl
      (fun n d => n * 10 + d) k = Nat.ofDigitChars 10 cs k := by
    intro cs
    induction cs with
    | nil => exact fun _ => rfl
    | cons c cs ih =>
      intro k
      rw [List.map_cons, List.foldl_cons, ih, Nat.ofDigitChars, Nat.ofDigitChars, List.foldl_cons,
        Nat.mul_comm k 10]
      rfl
  rw [ofDigits, decimal, h, Nat.ofDigitChars_ten_toDigits]

/-- A number of at most 64 bits is read back. -/
theorem numberOf?_decimal (n : Nat) :
    numberOf? (decimal n) = if 2 ^ 64 ≤ n then doubleOf? (decimal n) else some (.whole n) := by
  have hshift : 1 <<< 64 = 2 ^ 64 := rfl
  have hwhole : (decimal n).fraction.isSome = false ∧ (decimal n).power.isSome = false ∧
      (decimal n).negative = false := ⟨rfl, rfl, rfl⟩
  simp only [numberOf?, ofDigits_decimal, hwhole, hshift, Bool.or_false, Bool.false_eq_true,
    if_false]

theorem chars_whole (n : Nat) : JsonNumber.chars (.whole n) = Nat.toDigits 10 n := by
  show (toString (n : Int)).toList = _
  rw [show toString (n : Int) = toString n from rfl, Nat.toString_eq_ofList_toDigits,
    String.toList_ofList]

theorem takes_digits : ∀ {cs : List Char}, (∀ c ∈ cs, c.isDigit = true) →
    ∀ before spelled, Takes ⟨before, .number spelled⟩ cs
      ⟨before, .number ((Bytes.ofChars cs).reverse ++ spelled)⟩
  | [], _, _, _ => Takes.nil _
  | c :: cs, h, before, spelled => by
    obtain ⟨hascii, hdigit⟩ := digit?_of_isDigit (h c List.mem_cons_self)
    have hnumeric : isNumeric (UInt8.ofNat c.toNat) = true := by simp [isNumeric, isDigit, hdigit]
    have hstep : Takes ⟨before, .number spelled⟩ [c]
        ⟨before, .number (UInt8.ofNat c.toNat :: spelled)⟩ :=
      takes_ascii hascii (by simp [step, hnumeric])
    have hrest := takes_digits (fun c hc => h c (List.mem_cons_of_mem _ hc)) before
      (UInt8.ofNat c.toNat :: spelled)
    rw [Bytes.ofChars_cons, Bytes.utf8EncodeChar_of_ascii hascii]
    simpa using hstep.cons hrest

/-- **The digits of a number spell it.** -/
theorem spells_whole (n : Nat) :
    Spells (JsonNumber.chars (.whole n)) [.number (numberOf? (decimal n))] := fun before => by
  have hdigits := isDigit_of_mem_decimal (n := n)
  rw [chars_whole]
  refine ⟨⟨before, .number (Bytes.ofChars (Nat.toDigits 10 n)).reverse⟩, ?_,
    holds_number before (by rw [List.reverse_reverse, spelling?_toDigits])⟩
  cases hcs : Nat.toDigits 10 n with
  | nil => exact absurd hcs Nat.toDigits_ne_nil
  | cons c cs =>
    rw [hcs] at hdigits
    obtain ⟨hascii, hdigit⟩ := digit?_of_isDigit (hdigits c List.mem_cons_self)
    have hopen : Takes ⟨before, .between⟩ [c] ⟨before, .number [UInt8.ofNat c.toNat]⟩ := by
      refine takes_ascii hascii ?_
      have hrange := toNat_of_isDigit (hdigits c List.mem_cons_self)
      have hne : ∀ b : UInt8, b.toNat < 0x30 → UInt8.ofNat c.toNat ≠ b := fun b hb heq => by
        have := congrArg UInt8.toNat heq
        rw [UInt8.toNat_ofNat'] at this
        omega
      have hblank : isBlank (UInt8.ofNat c.toNat) = false := by
        simp [isBlank, hne 0x20 (by decide), hne 0x09 (by decide), hne 0x0a (by decide),
          hne 0x0d (by decide)]
      simp [step, open?, hblank, hne 0x22 (by decide), isDigit, hdigit]
    have hrest := takes_digits (fun c hc => hdigits c (List.mem_cons_of_mem _ hc)) before
      [UInt8.ofNat c.toNat]
    rw [Bytes.ofChars_cons, Bytes.utf8EncodeChar_of_ascii hascii]
    simpa using hopen.cons hrest

end Json
end ContainerRegistry
