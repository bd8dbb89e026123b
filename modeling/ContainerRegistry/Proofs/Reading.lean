/-
# What records of JSON say

A reader of JSON is a partial function; what it reads is here said without it. A
record gives a field by a member of that name, of which there is one, or by its
place in the order of the fields, and it lacks the field otherwise. A manifest, a
signature and a protected header are given by records when the fields are given
that they consist of, apart from those with a default. Each reader succeeds
exactly on what is given so, with that as its answer.

Key definitions: `Json.Tree.IsRecord`, `Json.Record.Gives`, `Json.Record.Lacks`,
`Manifest.IsGivenBy`, `ProtectedHeader.IsGivenBy`, `Signature.IsGivenBy`.
Key theorems: `Json.Record.required_eq_some_iff`, `Json.Record.defaulted_eq_some_iff`,
`Json.Record.absent_eq_some_iff`, `Json.listOfTree_eq_some_iff`,
`Manifest.ofRecord?_eq_some_iff`, `ProtectedHeader.decode?_eq_some_iff`,
`Signature.decode_eq_some_iff`.
-/
import ContainerRegistry.Manifest.Signed
import Mathlib.Data.List.Forall2

namespace ContainerRegistry

namespace Json

variable {α : Type}

/-! ### Records and their fields -/

/-- A tree is given as a record of so many fields at most: by an object whose keys are
texts, or by an array that is not longer. -/
inductive Tree.IsRecord (size : Nat) : Tree → Record → Prop where
  | ordered {items : List Tree} (short : items.length ≤ size) :
      IsRecord size (.array items) (.ordered items)
  | named (members : List (String × Tree)) :
      IsRecord size (.object (members.map fun m => (some m.1, m.2))) (.named members)

/-- The record gives a field: at its place, or in the one member of its name. -/
def Record.Gives (index : Nat) (name : String) (t : Tree) : Record → Prop
  | ordered items => items[index]? = some t
  | named members =>
    ∃ before after, members = before ++ (name, t) :: after ∧ ∀ m ∈ before ++ after, m.1 ≠ name

/-- The record does not give a field. -/
def Record.Lacks (index : Nat) (name : String) : Record → Prop
  | ordered items => items.length ≤ index
  | named members => ∀ m ∈ members, m.1 ≠ name

theorem mapM_eq_some_iff {β : Type} {f : α → Option β} {xs : List α} {ys : List β} :
    xs.mapM f = some ys ↔ List.Forall₂ (fun x y => f x = some y) xs ys := by
  induction xs generalizing ys with
  | nil => cases ys <;> simp
  | cons x xs ih =>
    simp only [List.mapM_cons, Option.bind_eq_bind, Option.pure_def, Option.bind_eq_some_iff,
      Option.some.injEq, ih]
    constructor
    · rintro ⟨y, hy, rest, hrest, rfl⟩
      exact .cons hy hrest
    · rintro (_ | ⟨hy, hrest⟩)
      exact ⟨_, hy, _, hrest, rfl⟩

/-- Members are keyed when all their keys are texts. -/
theorem keyed?_eq_some_iff {members : List (Option String × Tree)} {keyed : List (String × Tree)} :
    keyed? members = some keyed ↔ members = keyed.map fun m => (some m.1, m.2) := by
  have hmember : ∀ (m : Option String × Tree) (k : String × Tree),
      m.1.map (fun key => (key, m.2)) = some k ↔ m = (some k.1, k.2) := by
    rintro ⟨_ | key, t⟩ ⟨name, u⟩ <;> simp
  rw [keyed?, mapM_eq_some_iff]
  simp only [hmember]
  rw [← List.forall₂_map_right_iff (R := fun m k => m = k), List.forall₂_eq_eq_eq]

theorem Tree.record?_eq_some_iff {room size : Nat} (hroom : 1 < room) {t : Tree} {r : Record} :
    t.record? room size = some r ↔ t.IsRecord size r := by
  constructor
  · intro h
    cases t with
    | array items =>
      rw [record?] at h
      split at h
      · next hsize =>
        cases h
        exact .ordered hsize.2
      · cases h
    | object members =>
      rw [record?, if_pos hroom, Option.map_eq_some_iff] at h
      obtain ⟨keyed, hkeyed, rfl⟩ := h
      rw [keyed?_eq_some_iff.1 hkeyed]
      exact .named keyed
    | _ => cases h
  · rintro (⟨hsize⟩ | ⟨members⟩)
    · rw [record?, if_pos ⟨hroom, hsize⟩]
    · rw [record?, if_pos hroom, keyed?_eq_some_iff.2 rfl]
      rfl

namespace Record

variable {r : Record} {index : Nat} {name : String} {t : Tree} {read : Tree → Option α} {x : α}

/-- A member that is alone in its name is all that is found under the name. -/
theorem filter_of_alone {before after : List (String × Tree)}
    (halone : ∀ m ∈ before ++ after, m.1 ≠ name) :
    (before ++ (name, t) :: after).filter (fun m => m.1 == name) = [(name, t)] := by
  have hbefore : before.filter (fun m => m.1 == name) = [] :=
    List.filter_eq_nil_iff.2 fun m hm => by simpa using halone m (List.mem_append_left _ hm)
  have hafter : after.filter (fun m => m.1 == name) = [] :=
    List.filter_eq_nil_iff.2 fun m hm => by simpa using halone m (List.mem_append_right _ hm)
  rw [List.filter_append, List.filter_cons_of_pos (by simp), hbefore, hafter, List.nil_append]

theorem field?_eq_given_iff : r.field? index name = some (some t) ↔ r.Gives index name t := by
  cases r with
  | ordered items => simp [field?, Gives]
  | named members =>
    constructor
    · intro h
      rw [field?] at h
      split at h
      · cases h
      · next m hfilter =>
        obtain ⟨before, after, rfl, hbefore, hname, hafter⟩ := List.filter_eq_cons_iff.1 hfilter
        obtain rfl : m.1 = name := by simpa using hname
        cases h
        refine ⟨before, after, rfl, fun m' hm' => ?_⟩
        rcases List.mem_append.1 hm' with hm' | hm'
        · simpa using hbefore m' hm'
        · simpa using List.filter_eq_nil_iff.1 hafter m' hm'
      · cases h
    · rintro ⟨before, after, rfl, halone⟩
      rw [field?, filter_of_alone halone]

theorem field?_eq_lacking_iff : r.field? index name = some none ↔ r.Lacks index name := by
  cases r with
  | ordered items => simp [field?, Lacks]
  | named members =>
    rw [field?, Lacks]
    constructor
    · intro h
      split at h
      · next hfilter => simpa using hfilter
      · cases h
      · cases h
    · intro h
      have hfilter : members.filter (fun m => m.1 == name) = [] :=
        List.filter_eq_nil_iff.2 fun m hm => by simpa using h m hm
      rw [hfilter]

/-- **A field that must be given is read from what gives it.** -/
theorem required_eq_some_iff :
    r.required index name read = some x ↔ ∃ t, r.Gives index name t ∧ read t = some x := by
  rw [required, Option.bind_eq_bind, Option.bind_eq_some_iff]
  constructor
  · rintro ⟨field, hfield, hread⟩
    obtain ⟨t, rfl, hread⟩ := Option.bind_eq_some_iff.1 hread
    exact ⟨t, field?_eq_given_iff.1 hfield, hread⟩
  · rintro ⟨t, hgives, hread⟩
    exact ⟨some t, field?_eq_given_iff.2 hgives, hread⟩

/-- **A field with a default is read from what gives it, or has its default.** -/
theorem defaulted_eq_some_iff {default : α} :
    r.defaulted index name read default = some x ↔
      (r.Lacks index name ∧ x = default) ∨ ∃ t, r.Gives index name t ∧ read t = some x := by
  rw [defaulted, Option.bind_eq_bind, Option.bind_eq_some_iff]
  constructor
  · rintro ⟨field, hfield, hread⟩
    cases field with
    | none => exact Or.inl ⟨field?_eq_lacking_iff.1 hfield, (Option.some.inj hread).symm⟩
    | some t => exact Or.inr ⟨t, field?_eq_given_iff.1 hfield, hread⟩
  · rintro (⟨hlacks, rfl⟩ | ⟨t, hgives, hread⟩)
    · exact ⟨none, field?_eq_lacking_iff.2 hlacks, rfl⟩
    · exact ⟨some t, field?_eq_given_iff.2 hgives, hread⟩

/-- A field that may be absent has an answer: none if it is lacking or `null`, and what is
read from what gives it otherwise. -/
def MayGive (index : Nat) (name : String) (read : Tree → Option α) (r : Record) : Option α → Prop
  | none => r.Lacks index name ∨ r.Gives index name .null
  | some x => ∃ t, r.Gives index name t ∧ t ≠ .null ∧ read t = some x

theorem nullable_eq_some_iff {answer : Option α} : nullable read t = some answer ↔
    (t = .null ∧ answer = none) ∨ (t ≠ .null ∧ ∃ x, read t = some x ∧ some x = answer) := by
  cases t with
  | null => simp [nullable, eq_comm]
  | _ => simp [nullable]

/-- **A field that may be absent.** -/
theorem absent_eq_some_iff {answer : Option α} :
    r.absent index name read = some answer ↔ r.MayGive index name read answer := by
  rw [absent, defaulted_eq_some_iff]
  simp only [nullable_eq_some_iff]
  cases answer with
  | none => simp [MayGive]
  | some x => simp [MayGive]

end Record

/-! ### Texts, numbers and lists -/

theorem textOfTree_eq_some_iff {t : Tree} {s : String} :
    textOfTree t = some s ↔ t = .text (some s) := by
  cases t <;> simp [textOfTree]

theorem natOfTree_eq_some_iff {t : Tree} {n : Nat} :
    natOfTree t = some n ↔ t = .number (some (.whole n)) := by
  constructor
  · intro h
    unfold natOfTree at h
    split at h
    · next k =>
      split at h
      · next hk =>
        cases h
        rw [Int.toNat_of_nonneg hk]
      · cases h
    · cases h
  · rintro rfl
    simp [natOfTree]

/-- **A list is read item by item.** -/
theorem listOfTree_eq_some_iff {read : Decoder α} {room : Nat} (hroom : 1 < room) {t : Tree}
    {xs : List α} : listOfTree read room t = some xs ↔ ∃ items, t = .array items ∧
      List.Forall₂ (fun t x => read (room - 1) t = some x) items xs := by
  cases t with
  | array items => simp [listOfTree, hroom, mapM_eq_some_iff]
  | _ => simp [listOfTree]

end Json

open Json

/-! ### Manifests -/

namespace Manifest

/-- A layer is given by the text of its digest. -/
def IsLayer (t : Tree) (digest : Digest) : Prop :=
  ∃ r text, t.IsRecord 1 r ∧ r.Gives 0 "blobSum" (.text (some text)) ∧
    Digest.parse text = .ok digest

/-- A history entry is given by its text. -/
def IsEntry (t : Tree) (entry : String) : Prop :=
  ∃ r, t.IsRecord 1 r ∧ r.Gives 0 "v1Compatibility" (.text (some entry))

/-- A manifest is given by the fields of a record. -/
structure IsGivenBy (m : Manifest) (r : Record) : Prop where
  schemaVersion : r.Gives 0 "schemaVersion" (.number (some (.whole m.schemaVersion)))
  name : r.Gives 1 "name" (.text (some m.name))
  tag : r.Gives 2 "tag" (.text (some m.tag))
  architecture : (r.Lacks 3 "architecture" ∧ m.architecture = "") ∨
    r.Gives 3 "architecture" (.text (some m.architecture))
  layers : ∃ items, r.Gives 4 "fsLayers" (.array items) ∧ List.Forall₂ IsLayer items m.layers
  history : (r.Lacks 5 "history" ∧ m.history = []) ∨
    ∃ items, r.Gives 5 "history" (.array items) ∧ List.Forall₂ IsEntry items m.history

/-- A manifest is what a text of JSON says. -/
def IsReadFrom (m : Manifest) (bytes : Bytes) : Prop :=
  ∃ t r, parse? bytes = some t ∧ t.IsRecord 6 r ∧ m.IsGivenBy r

theorem digestOfTree_eq_some_iff {t : Tree} {digest : Digest} : digestOfTree t = some digest ↔
    ∃ text, t = .text (some text) ∧ Digest.parse text = .ok digest := by
  have hparse : ∀ text, (Digest.parse text).toOption = some digest ↔
      Digest.parse text = .ok digest := by
    intro text
    cases Digest.parse text <;> simp [Except.toOption]
  simp only [digestOfTree, Option.bind_eq_bind, Option.bind_eq_some_iff, textOfTree_eq_some_iff,
    hparse]

theorem layerOfTree_eq_some_iff {room : Nat} (hroom : 1 < room) {t : Tree} {digest : Digest} :
    layerOfTree room t = some digest ↔ IsLayer t digest := by
  simp only [layerOfTree, IsLayer, Option.bind_eq_bind, Option.bind_eq_some_iff,
    Tree.record?_eq_some_iff hroom, Record.required_eq_some_iff, digestOfTree_eq_some_iff]
  constructor
  · rintro ⟨r, hr, _, hgives, text, rfl, hparse⟩
    exact ⟨r, text, hr, hgives, hparse⟩
  · rintro ⟨r, text, hr, hgives, hparse⟩
    exact ⟨r, hr, _, hgives, text, rfl, hparse⟩

theorem historyOfTree_eq_some_iff {room : Nat} (hroom : 1 < room) {t : Tree} {entry : String} :
    historyOfTree room t = some entry ↔ IsEntry t entry := by
  simp only [historyOfTree, IsEntry, Option.bind_eq_bind, Option.bind_eq_some_iff,
    Tree.record?_eq_some_iff hroom, Record.required_eq_some_iff, textOfTree_eq_some_iff,
    exists_eq_right]

/-- **A manifest is read from the record that gives it.** -/
theorem ofRecord?_eq_some_iff {room : Nat} (hroom : 2 < room) {r : Record} {m : Manifest} :
    ofRecord? room r = some m ↔ m.IsGivenBy r := by
  have houter : 1 < room := by omega
  have hinner : 1 < room - 1 := by omega
  simp only [ofRecord?, Option.bind_eq_bind, Option.bind_eq_some_iff, Record.required_eq_some_iff,
    Record.defaulted_eq_some_iff, natOfTree_eq_some_iff, textOfTree_eq_some_iff, exists_eq_right,
    listOfTree_eq_some_iff houter, layerOfTree_eq_some_iff hinner,
    historyOfTree_eq_some_iff hinner, Option.some.injEq]
  constructor
  · rintro ⟨version, hversion, name, hname, tag, htag, architecture, harchitecture, layers,
      ⟨_, hlayers, items, rfl, hitems⟩, history, hhistory, rfl⟩
    refine ⟨hversion, hname, htag, harchitecture, ⟨items, hlayers, hitems⟩, ?_⟩
    exact hhistory.imp_right fun ⟨_, hgives, items, ht, hitems⟩ => ⟨items, ht ▸ hgives, hitems⟩
  · rintro ⟨hversion, hname, htag, harchitecture, ⟨items, hlayers, hitems⟩, hhistory⟩
    refine ⟨_, hversion, _, hname, _, htag, _, harchitecture, _, ⟨_, hlayers, items, rfl, hitems⟩,
      m.history, ?_, rfl⟩
    exact hhistory.imp_right fun ⟨items, hgives, hitems⟩ => ⟨_, hgives, items, rfl, hitems⟩

theorem decode?_eq_some_iff {bytes : Bytes} {m : Manifest} :
    decode? decode bytes = some m ↔ m.IsReadFrom bytes := by
  simp only [decode?, decode, IsReadFrom, Option.bind_eq_bind, Option.bind_eq_some_iff,
    Tree.record?_eq_some_iff (show 1 < depthLimit by decide),
    ofRecord?_eq_some_iff (show 2 < depthLimit - 1 by decide)]
  constructor
  · rintro ⟨t, ht, r, hr, hm⟩
    exact ⟨t, r, ht, hr, hm⟩
  · rintro ⟨t, r, ht, hr, hm⟩
    exact ⟨t, ht, r, hr, hm⟩

end Manifest

/-! ### Signatures and their headers -/

namespace ProtectedHeader

/-- A protected header is given by the fields of a record. -/
structure IsGivenBy (h : ProtectedHeader) (r : Record) : Prop where
  formatLength : r.Gives 0 "formatLength" (.number (some (.whole h.formatLength)))
  formatTail : r.Gives 1 "formatTail" (.text (some h.formatTail))
  time : r.MayGive 2 "time" textOfTree h.time

/-- A protected header is what a text of JSON says. -/
def IsReadFrom (h : ProtectedHeader) (bytes : Bytes) : Prop :=
  ∃ t r, parse? bytes = some t ∧ t.IsRecord 3 r ∧ h.IsGivenBy r

theorem decode?_eq_some_iff {bytes : Bytes} {h : ProtectedHeader} :
    decode? decode bytes = some h ↔ h.IsReadFrom bytes := by
  simp only [decode?, decode, IsReadFrom, Option.bind_eq_bind, Option.bind_eq_some_iff,
    Tree.record?_eq_some_iff (show 1 < depthLimit by decide), Record.required_eq_some_iff,
    Record.absent_eq_some_iff, natOfTree_eq_some_iff, textOfTree_eq_some_iff, exists_eq_right,
    Option.some.injEq]
  constructor
  · rintro ⟨t, ht, r, hr, length, hlength, tail, htail, time, htime, rfl⟩
    exact ⟨t, r, ht, hr, hlength, htail, htime⟩
  · rintro ⟨t, r, ht, hr, hlength, htail, htime⟩
    exact ⟨t, ht, r, hr, _, hlength, _, htail, _, htime, rfl⟩

end ProtectedHeader

namespace Signature

/-- A signature is given by a record, whose header is a record of the algorithm and perhaps
the key. The key may be any value that finds room inside the document. -/
structure IsGivenBy (s : Signature) (r jose : Record) : Prop where
  header : ∃ t, r.Gives 0 "header" t ∧ t.IsRecord 2 jose
  algorithm : jose.Gives 0 "alg" (.text (some s.algorithm))
  key : jose.MayGive 1 "jwk" (Tree.value? (depthLimit - 4)) s.key
  signature : r.Gives 1 "signature" (.text (some s.signature))
  protectedHeader : r.Gives 2 "protected" (.text (some s.header))

/-- A tree is a signature. -/
def IsTree (t : Tree) (s : Signature) : Prop :=
  ∃ r jose, t.IsRecord 3 r ∧ s.IsGivenBy r jose

theorem joseOfTree_eq_some_iff {room : Nat} (hroom : 1 < room) {t : Tree} {algorithm : String}
    {key : Option Json} : joseOfTree room t = some (algorithm, key) ↔
      ∃ jose, t.IsRecord 2 jose ∧ jose.Gives 0 "alg" (.text (some algorithm)) ∧
        jose.MayGive 1 "jwk" (Tree.value? (room - 1)) key := by
  simp only [joseOfTree, Option.bind_eq_bind, Option.bind_eq_some_iff,
    Tree.record?_eq_some_iff hroom, Record.required_eq_some_iff, Record.absent_eq_some_iff,
    textOfTree_eq_some_iff, exists_eq_right, Option.some.injEq, Prod.mk.injEq]
  constructor
  · rintro ⟨jose, hjose, _, halg, _, hkey, rfl, rfl⟩
    exact ⟨jose, hjose, halg, hkey⟩
  · rintro ⟨jose, hjose, halg, hkey⟩
    exact ⟨jose, hjose, _, halg, _, hkey, rfl, rfl⟩

/-- **A signature is read from the tree that is one**, at its depth in a document. -/
theorem decode_eq_some_iff {t : Tree} {s : Signature} :
    decode (depthLimit - 2) t = some s ↔ IsTree t s := by
  simp only [decode, Option.bind_eq_bind, Option.bind_eq_some_iff,
    Tree.record?_eq_some_iff (show 1 < depthLimit - 2 by decide), Record.required_eq_some_iff,
    textOfTree_eq_some_iff, exists_eq_right, Option.some.injEq, Prod.exists,
    joseOfTree_eq_some_iff (show 1 < depthLimit - 2 - 1 by decide)]
  constructor
  · rintro ⟨r, hr, algorithm, key, ⟨t, ht, jose, hjose, halg, hkey⟩, _, hsignature, _, hheader, rfl⟩
    exact ⟨r, jose, hr, ⟨t, ht, hjose⟩, halg, hkey, hsignature, hheader⟩
  · rintro ⟨r, jose, hr, ⟨t, ht, hjose⟩, halg, hkey, hsignature, hheader⟩
    exact ⟨r, hr, _, _, ⟨t, ht, jose, hjose, halg, hkey⟩, _, hsignature, _, hheader, rfl⟩

end Signature
end ContainerRegistry
