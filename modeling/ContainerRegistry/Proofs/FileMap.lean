/-
# Storage as a map from names to bytes

What a client that only asks for files sees of a storage is a map from the names on
the way to a file to its bytes. A write at an offset keeps what lies before the offset
and behind the written bytes, and is refused beyond the end; every other request
concerns a file as a whole. A reader that fails is reported as a failure of some
kind: the map is then as before, or, in a storage that may leave torn writes, with
some of the bytes that the reader yielded written after all.

Storage in memory is such a map over files none of which lies beneath another, and
leaves no torn writes.

Key definitions: `FileMap`, `FileRequest`, `FileMap.serve`, `FileMap.Allows`,
`FileMap.Explains`, `Path.AreFiles`, `Driver.serve`, `Driver.trace`, `Driver.Serves`,
`MemoryStore.fileMap`.
Key theorems: `FileMap.Explains.eq_trace`, `Driver.explains_trace`, `MemoryStore.serves`,
`MemoryStore.explains`.
-/
import ContainerRegistry.Proofs.Memory
import ContainerRegistry.Proofs.Spelling
import ContainerRegistry.Storage.Backend
import Mathlib.Data.Set.Basic

namespace ContainerRegistry

open ContainerRegistry.Action
open Backend (names)

/-! ### Requests for files -/

/-- A request that concerns one file, or the name of one. -/
inductive FileRequest where
  | put (p : Path) (bytes : Bytes)
  | get (p : Path)
  | write (p : Path) (offset : Nat) (source : Source)
  /-- Everything from an offset on, pulled in pieces of these sizes and then to the end. -/
  | read (p : Path) (offset : Nat) (pieces : List Nat)
  | stat (p : Path)
  | delete (p : Path)
  | rename (source destination : Path)
  deriving DecidableEq, Repr

/-- What a request is answered. -/
inductive FileReply where
  | done
  | bytes (bytes : Bytes)
  | written (count : Nat)
  | described (metadata : Metadata)
  deriving DecidableEq, Repr

namespace FileRequest

/-- The request is about these paths; a file is not renamed to itself. -/
def IsWithin (paths : Set Path) : FileRequest → Prop
  | put p _ | get p | write p _ _ | read p _ _ | stat p | delete p => p ∈ paths
  | rename source destination =>
    source ∈ paths ∧ destination ∈ paths ∧ source.components ≠ destination.components

/-- No reader of the request fails. -/
def IsSound : FileRequest → Prop
  | write _ _ source => source.failure = none
  | _ => True

end FileRequest

/-! ### Maps of files -/

/-- The bytes of the files there are, by the names on the way to each. -/
abbrev FileMap := List String → Option Bytes

/-- The answer to a request, with failures known by their kind, and the files after it. -/
abbrev Served := Except StorageErrorKind FileReply × FileMap

namespace FileMap

/-- The map without files. -/
def empty : FileMap :=
  fun _ => none

/-- The map with these bytes at one place, or with nothing there. -/
def set (m : FileMap) (place : List String) (file : Option Bytes) : FileMap :=
  fun n => if n = place then file else m n

/-- The bytes that a write at a place starts from. -/
def old (m : FileMap) (place : List String) : Bytes :=
  (m place).getD []

/-- The map with bytes written into a file from an offset. -/
def write (m : FileMap) (place : List String) (offset : Nat) (bytes : Bytes) : FileMap :=
  m.set place (some
    ((m.old place).take offset ++ bytes ++ (m.old place).drop (offset + bytes.length)))

/-- What comes of a request. -/
def serve (m : FileMap) : FileRequest → Served
  | .put p bytes => (.ok .done, m.set (names p) (some bytes))
  | .get p =>
    match m (names p) with
    | some bytes => (.ok (.bytes bytes), m)
    | none => (.error .notFound, m)
  | .write p offset source =>
    if (m.old (names p)).length < offset then (.error .invalidOffset, m)
    else (.ok (.written source.bytes.length), m.write (names p) offset source.bytes)
  | .read p offset _ =>
    match m (names p) with
    | some bytes =>
      if bytes.length < offset then (.error .invalidOffset, m)
      else (.ok (.bytes (bytes.drop offset)), m)
    | none => (.error .notFound, m)
  | .stat p =>
    match m (names p) with
    | some bytes => (.ok (.described ⟨bytes.length, false⟩), m)
    | none => (.error .notFound, m)
  | .delete p =>
    match m (names p) with
    | some _ => (.ok .done, m.set (names p) none)
    | none => (.error .notFound, m)
  | .rename source destination =>
    match m (names source) with
    | some bytes =>
      (.ok .done, (m.set (names source) none).set (names destination) (some bytes))
    | none => (.error .notFound, m)

/-- What may come of a request: only a reader that fails leaves a choice, and more of
one where writes may be torn. -/
inductive Allows (torn : Bool) (m : FileMap) : FileRequest → Served → Prop where
  | served {q : FileRequest} : q.IsSound → Allows torn m q (m.serve q)
  /-- The failure is reported, and nothing else was done. -/
  | refused {p : Path} {offset : Nat} {source : Source} (kind : StorageErrorKind) :
    source.failure ≠ none → Allows torn m (.write p offset source) (.error kind, m)
  /-- The failure is reported, and some of the bytes were written before. -/
  | torn {p : Path} {offset : Nat} {source : Source} (kind : StorageErrorKind) {part : Bytes} :
    torn = true → source.failure ≠ none → offset ≤ (m.old (names p)).length →
    part <+: source.bytes →
    Allows torn m (.write p offset source) (.error kind, m.write (names p) offset part)

/-- What came of requests, one after the other, is what may come of them. -/
inductive Explains (torn : Bool) : FileMap → List FileRequest → List Served → Prop where
  | nil (m : FileMap) : Explains torn m [] []
  | cons {m : FileMap} {q : FileRequest} {rest : List FileRequest} {x : Served}
      {xs : List Served} :
    m.Allows torn q x → Explains torn x.2 rest xs → Explains torn m (q :: rest) (x :: xs)

section Serving

variable {m : FileMap} {torn : Bool} {p q : Path} {bytes : Bytes} {offset : Nat} {source : Source}

theorem Allows.of_serve {request : FileRequest} {x : Served} (hrequest : request.IsSound)
    (h : m.serve request = x) : m.Allows torn request x :=
  h ▸ .served hrequest

theorem allows_get (h : m (names p) = some bytes) :
    m.Allows torn (.get p) (.ok (.bytes bytes), m) :=
  .of_serve trivial (by rw [serve, h])

theorem allows_get_none (h : m (names p) = none) :
    m.Allows torn (.get p) (.error .notFound, m) :=
  .of_serve trivial (by rw [serve, h])

theorem allows_write (hsource : source.failure = none)
    (h : offset ≤ (m.old (names p)).length) : m.Allows torn (.write p offset source)
      (.ok (.written source.bytes.length), m.write (names p) offset source.bytes) :=
  .of_serve hsource (by rw [serve, if_neg (Nat.not_lt.2 h)])

/-- Beyond the end a write is refused, whatever else its reader does. -/
theorem allows_write_beyond (h : (m.old (names p)).length < offset) :
    m.Allows torn (.write p offset source) (.error .invalidOffset, m) := by
  by_cases hsource : source.failure = none
  · exact .of_serve hsource (by rw [serve, if_pos h])
  · exact .refused _ hsource

theorem allows_read (h : m (names p) = some bytes) (hoffset : offset ≤ bytes.length)
    (pieces : List Nat) :
    m.Allows torn (.read p offset pieces) (.ok (.bytes (bytes.drop offset)), m) := by
  refine .of_serve trivial ?_
  rw [serve, h]
  exact if_neg (Nat.not_lt.2 hoffset)

theorem allows_read_beyond (h : m (names p) = some bytes) (hoffset : bytes.length < offset)
    (pieces : List Nat) : m.Allows torn (.read p offset pieces) (.error .invalidOffset, m) := by
  refine .of_serve trivial ?_
  rw [serve, h]
  exact if_pos hoffset

theorem allows_read_none (h : m (names p) = none) (pieces : List Nat) :
    m.Allows torn (.read p offset pieces) (.error .notFound, m) :=
  .of_serve trivial (by rw [serve, h])

theorem allows_stat (h : m (names p) = some bytes) :
    m.Allows torn (.stat p) (.ok (.described ⟨bytes.length, false⟩), m) :=
  .of_serve trivial (by rw [serve, h])

theorem allows_stat_none (h : m (names p) = none) :
    m.Allows torn (.stat p) (.error .notFound, m) :=
  .of_serve trivial (by rw [serve, h])

theorem allows_delete (h : m (names p) = some bytes) :
    m.Allows torn (.delete p) (.ok .done, m.set (names p) none) :=
  .of_serve trivial (by rw [serve, h])

theorem allows_delete_none (h : m (names p) = none) :
    m.Allows torn (.delete p) (.error .notFound, m) :=
  .of_serve trivial (by rw [serve, h])

theorem allows_rename (h : m (names p) = some bytes) : m.Allows torn (.rename p q)
    (.ok .done, (m.set (names p) none).set (names q) (some bytes)) :=
  .of_serve trivial (by rw [serve, h])

theorem allows_rename_none (h : m (names p) = none) :
    m.Allows torn (.rename p q) (.error .notFound, m) :=
  .of_serve trivial (by rw [serve, h])

end Serving

/-- What comes of requests, one after the other, if no reader fails. -/
def trace : FileMap → List FileRequest → List Served
  | _, [] => []
  | m, q :: rest => m.serve q :: trace (m.serve q).2 rest

/-- Only readers that fail leave a choice. -/
theorem Explains.eq_trace {torn : Bool} {m : FileMap} {requests : List FileRequest}
    {xs : List Served} (h : m.Explains torn requests xs) (hsound : ∀ q ∈ requests, q.IsSound) :
    xs = m.trace requests := by
  induction h with
  | nil => rfl
  | cons hallows _ ih =>
    have hrest := ih fun q hq => hsound q (List.mem_cons_of_mem _ hq)
    have hq := hsound _ List.mem_cons_self
    cases hallows with
    | served => exact congrArg _ hrest
    | refused kind hfailure | torn kind _ hfailure => exact absurd hq hfailure

end FileMap

/-! ### Paths of files -/

/-- Absolute paths of names none of which starts with a dot, and none of which lies
beneath another. -/
structure Path.AreFiles (paths : Set Path) : Prop where
  spells : ∀ p ∈ paths, p.Spells (names p)
  named : ∀ p ∈ paths, names p ≠ []
  plain : ∀ p ∈ paths, ∀ n ∈ names p, n.toList.head? ≠ some '.'
  apart : ∀ p ∈ paths, ∀ q ∈ paths, p.components <+: q.components → p.components = q.components

/-- The components of an absolute path of names. -/
def Path.place (names : List String) : List Component :=
  .root :: names.map .name

namespace Path

variable {paths : Set Path} {p q : Path} {more : List String}

theorem place_injective {more more' : List String} (h : place more = place more') :
    more = more' :=
  (List.map_inj_right fun _ _ e => Component.name.inj e).1 (List.cons.inj h).2

theorem isPrefix_place_iff {more more' : List String} :
    place more <+: place more' ↔ more <+: more' :=
  @Components.append_names_isPrefix_iff [.root] more more'

namespace AreFiles

theorem components (h : AreFiles paths) (hp : p ∈ paths) : p.components = place (names p) :=
  h.spells p hp

/-- None of the files lies strictly beneath another. -/
theorem names_eq (h : AreFiles paths) (hp : p ∈ paths) (hq : q ∈ paths)
    (hpre : names p <+: names q) : names p = names q := by
  refine place_injective ?_
  rw [← h.components hp, ← h.components hq]
  refine h.apart p hp q hq ?_
  rwa [h.components hp, h.components hq, isPrefix_place_iff]

end AreFiles
end Path

/-! ### Requests to a driver -/

theorem Action.outcome_map {σ ε α β : Type} (f : α → β) (action : Action σ ε α) (s : σ) :
    (f <$> action).outcome s = ((action.outcome s).1.map f, (action.outcome s).2) := by
  rw [map_eq_pure_bind, outcome_bind]
  rcases action.outcome s with ⟨_ | _, _⟩ <;> rfl

/-- The bytes that were pulled, unless the pull was stopped. -/
def Pulled.answer {ρ : Type} (pulled : Pulled ρ) : Except IoError Bytes :=
  match pulled.failure with
  | none => .ok pulled.bytes
  | some e => .error e

namespace Driver

variable {σ ρ : Type} (driver : Driver σ ρ)

/-- What a stream has left, pulled in pieces of these sizes and then to the end. -/
def drain (s : σ) : List Nat → ρ → Except IoError Bytes
  | [], stream => (driver.pull stream none s).answer
  | size :: pieces, stream => do
    let bytes ← (driver.pull stream (some size) s).answer
    let more ← drain s pieces (driver.pull stream (some size) s).rest
    pure (bytes ++ more)

/-- Puts a request to a driver. -/
def serve : FileRequest → Action σ StorageError FileReply
  | .put p bytes => (fun _ => .done) <$> driver.putContent p bytes
  | .get p => .bytes <$> driver.getContent p
  | .write p offset source => (fun t => .written t.written) <$> driver.writeStream p offset source
  | .read p offset pieces => do
    let stream ← driver.readStream p offset
    match driver.drain (← get) pieces stream with
    | .ok bytes => pure (.bytes bytes)
    | .error e => throw (.ofIo driver.name p e)
  | .stat p => .described <$> driver.stat p
  | .delete p => (fun _ => .done) <$> driver.delete p
  | .rename source destination => (fun _ => .done) <$> driver.rename source destination

/-- What comes of a request to a driver, with the files that its state then shows. -/
def served (files : σ → FileMap) (s : σ) (q : FileRequest) : Served :=
  (((driver.serve q).outcome s).1.mapError StorageError.kind, files ((driver.serve q).outcome s).2)

/-- What comes of requests that are put one after the other. -/
def trace (files : σ → FileMap) : σ → List FileRequest → List Served
  | _, [] => []
  | s, q :: rest => driver.served files s q :: trace files ((driver.serve q).outcome s).2 rest

variable {driver}

theorem outcome_serve_read {p : Path} {offset : Nat} (pieces : List Nat) {s s' : σ} {stream : ρ}
    {bytes : Bytes} (hopened : (driver.readStream p offset).outcome s = (.ok stream, s'))
    (hdrained : driver.drain s' pieces stream = .ok bytes) :
    (driver.serve (.read p offset pieces)).outcome s = (.ok (.bytes bytes), s') := by
  rw [serve, outcome_bind, hopened]
  simp only [outcome_bind, outcome_get, hdrained, outcome_pure]

theorem outcome_serve_read_error {p : Path} {offset : Nat} (pieces : List Nat) {s s' : σ}
    {e : StorageError} (hopened : (driver.readStream p offset).outcome s = (.error e, s')) :
    (driver.serve (.read p offset pieces)).outcome s = (.error e, s') := by
  rw [serve, outcome_bind, hopened]

/-- A request is served as the map of files allows, and in such a way that the next can be. -/
structure Serves (driver : Driver σ ρ) (files : σ → FileMap) (torn : Bool) (keeps : σ → Prop)
    (s : σ) (q : FileRequest) : Prop where
  allows : (files s).Allows torn q (driver.served files s q)
  keeps : keeps ((driver.serve q).outcome s).2

section Serving

variable {files : σ → FileMap} {torn : Bool} {keeps : σ → Prop} {s s' : σ} {q : FileRequest}

theorem Serves.of_outcome {x : Except StorageError FileReply}
    (h : (driver.serve q).outcome s = (x, s'))
    (hallows : (files s).Allows torn q (x.mapError StorageError.kind, files s'))
    (hkeeps : keeps s') : driver.Serves files torn keeps s q := by
  constructor
  · rw [served, h]
    exact hallows
  · rw [h]
    exact hkeeps

theorem Serves.of_map {α : Type} {action : Action σ StorageError α} {f : α → FileReply}
    {x : Except StorageError α} (hq : driver.serve q = f <$> action)
    (h : action.outcome s = (x, s'))
    (hallows : (files s).Allows torn q ((x.map f).mapError StorageError.kind, files s'))
    (hkeeps : keeps s') : driver.Serves files torn keeps s q := by
  refine .of_outcome ?_ hallows hkeeps
  rw [hq, outcome_map, h]

/-- **What each request is served explains the run.** -/
theorem explains_trace {requests : List FileRequest} (hs : keeps s)
    (hserves : ∀ q ∈ requests, ∀ s, keeps s → driver.Serves files torn keeps s q) :
    FileMap.Explains torn (files s) requests (driver.trace files s requests) := by
  induction requests generalizing s with
  | nil => exact .nil _
  | cons q rest ih =>
    have hstep := hserves q List.mem_cons_self s hs
    have hrest := ih hstep.keeps fun q hq => hserves q (List.mem_cons_of_mem _ hq)
    exact .cons hstep.allows hrest

end Serving

end Driver

/-! ### Storage in memory -/

namespace MemoryStore

variable {paths : Set Path} {s : MemoryStore} {p : Path}

/-- The files of the store at absolute paths of names. -/
def fileMap (s : MemoryStore) : FileMap :=
  fun names => s.files[Path.place names]?

/-- Every file of the store is at one of these paths. -/
def IsWithin (paths : Set Path) (s : MemoryStore) : Prop :=
  ∀ place bytes, s.files[place]? = some bytes → ∃ p ∈ paths, place = p.components

theorem fileMap_empty : empty.fileMap = FileMap.empty := by
  funext names
  simp [fileMap, empty, FileMap.empty]

theorem isWithin_empty (paths : Set Path) : empty.IsWithin paths := by
  intro place bytes h
  simp [empty] at h

theorem fileMap_names (hpaths : Path.AreFiles paths) (hp : p ∈ paths) :
    s.fileMap (names p) = s.file? p := by
  rw [fileMap, file?, hpaths.components hp]

/-- Nothing lies beneath a file. -/
theorem IsWithin.isLone (h : s.IsWithin paths) (hpaths : Path.AreFiles paths) (hp : p ∈ paths) :
    s.IsLone p := by
  intro place bytes hplace hwithin
  obtain ⟨q, hq, rfl⟩ := h place bytes hplace
  exact (hpaths.apart p hp q hq (Components.isWithin_iff_isPrefix.1 hwithin)).symm

theorem fileMap_put (hpaths : Path.AreFiles paths) (hp : p ∈ paths) (bytes : Bytes) :
    (s.put p bytes).fileMap = s.fileMap.set (names p) (some bytes) := by
  funext n
  rw [fileMap, put, Std.TreeMap.getElem?_insert, hpaths.components hp, FileMap.set]
  by_cases hn : n = names p
  · simp [hn]
  · have hplace : Path.place (names p) ≠ Path.place n := fun he => hn (Path.place_injective he).symm
    rw [if_neg (by simpa using hplace), if_neg hn, fileMap]

theorem IsWithin.put (h : s.IsWithin paths) (hp : p ∈ paths) (bytes : Bytes) :
    (s.put p bytes).IsWithin paths := by
  intro place content hplace
  rcases of_getElem?_put hplace with hput | hkept
  · exact ⟨p, hp, hput.symm⟩
  · exact h place content hkept

theorem IsWithin.fileMap_remove (h : s.IsWithin paths) (hpaths : Path.AreFiles paths)
    (hp : p ∈ paths) : (s.remove p).fileMap = s.fileMap.set (names p) none := by
  funext n
  rw [fileMap, getElem?_remove, FileMap.set]
  by_cases hn : n = names p
  · rw [if_pos hn, if_pos]
    rw [hn, ← hpaths.components hp]
    exact Components.isWithin_iff.2 ⟨[], by simp⟩
  rw [if_neg hn, fileMap]
  split
  · rename_i hwithin
    -- nothing else is at or beneath the path
    refine (Option.eq_none_iff_forall_ne_some.2 fun bytes hplace => hn ?_).symm
    have he := h.isLone hpaths hp _ _ hplace hwithin
    exact Path.place_injective (he.trans (hpaths.components hp))
  · rfl

theorem IsWithin.remove (h : s.IsWithin paths) (p : Path) : (s.remove p).IsWithin paths :=
  fun place bytes hplace => h place bytes (of_getElem?_remove hplace)

section Moving

variable {source destination : Path} {bytes : Bytes}

theorem IsWithin.fileMap_move (h : s.IsWithin paths) (hpaths : Path.AreFiles paths)
    (hs : source ∈ paths) (hd : destination ∈ paths)
    (hne : source.components ≠ destination.components) (hfile : s.file? source = some bytes) :
    (s.move source destination).fileMap =
      (s.fileMap.set (names source) none).set (names destination) (some bytes) := by
  have hplace : ∀ {p n}, p ∈ paths → (p.components = Path.place n ↔ n = names p) := by
    intro p n hp
    rw [hpaths.components hp]
    exact ⟨fun he => (Path.place_injective he).symm, fun he => he ▸ rfl⟩
  funext n
  rw [fileMap, (h.isLone hpaths hs).getElem?_move (h.isLone hpaths hd) hfile hne]
  simp only [FileMap.set, hplace hs, hplace hd, fileMap]

theorem IsWithin.move (h : s.IsWithin paths) (hpaths : Path.AreFiles paths)
    (hs : source ∈ paths) (hd : destination ∈ paths)
    (hne : source.components ≠ destination.components) (hfile : s.file? source = some bytes) :
    (s.move source destination).IsWithin paths := by
  intro place content hplace
  rw [(h.isLone hpaths hs).getElem?_move (h.isLone hpaths hd) hfile hne] at hplace
  split at hplace
  · rename_i he
    exact ⟨destination, hd, he.symm⟩
  · split at hplace
    · cases hplace
    · exact h place content hplace

end Moving

/-- In pieces or at once, a stream gives the bytes it was opened on. -/
theorem drain_driver (s : MemoryStore) : ∀ (pieces : List Nat) (rest : Bytes),
    driver.drain s pieces rest = .ok rest
  | [], rest => rfl
  | size :: pieces, rest => by
    have hrest := s.drain_driver pieces (rest.drop size)
    rw [Driver.drain]
    simp only [driver, Pulled.answer, upTo, beyond] at hrest ⊢
    rw [hrest]
    exact congrArg Except.ok (List.take_append_drop size rest)

/-! ### Requests to storage in memory -/

section Serving

variable (hpaths : Path.AreFiles paths) (h : s.IsWithin paths) (hp : p ∈ paths)

include hpaths h hp

theorem serves_put (bytes : Bytes) :
    driver.Serves fileMap false (IsWithin paths) s (.put p bytes) := by
  refine .of_map rfl (s.outcome_putContent p bytes) ?_ (h.put hp bytes)
  rw [fileMap_put hpaths hp]
  exact .served trivial

theorem serves_get : driver.Serves fileMap false (IsWithin paths) s (.get p) := by
  have houtcome := s.outcome_getContent p
  have hm := fileMap_names (s := s) hpaths hp
  cases hfile : s.file? p with
  | some bytes =>
    rw [hfile] at houtcome hm
    exact .of_map rfl houtcome (FileMap.allows_get hm) h
  | none =>
    rw [hfile] at houtcome hm
    exact .of_map rfl houtcome (FileMap.allows_get_none hm) h

/-- A source is read to its end before anything is written. -/
theorem serves_write (offset : Nat) (source : Source) :
    driver.Serves fileMap false (IsWithin paths) s (.write p offset source) := by
  have houtcome := s.outcome_writeStream p offset source
  have hold : s.fileMap.old (names p) = (s.file? p).getD [] := by
    rw [FileMap.old, fileMap_names hpaths hp]
  cases hsource : source.failure with
  | some e =>
    rw [hsource] at houtcome
    exact .of_map rfl houtcome (.refused _ (by simp [hsource])) h
  | none =>
    rw [hsource, ← hold] at houtcome
    by_cases hoffset : (s.fileMap.old (names p)).length < offset
    · simp only [if_pos hoffset] at houtcome
      exact .of_map rfl houtcome (FileMap.allows_write_beyond hoffset) h
    · simp only [if_neg hoffset] at houtcome
      refine .of_map rfl houtcome ?_ (h.put hp _)
      rw [fileMap_put hpaths hp]
      exact FileMap.allows_write hsource (Nat.not_lt.1 hoffset)

theorem serves_read (offset : Nat) (pieces : List Nat) :
    driver.Serves fileMap false (IsWithin paths) s (.read p offset pieces) := by
  have houtcome := s.outcome_readStream p offset
  have hm := fileMap_names (s := s) hpaths hp
  cases hfile : s.file? p with
  | none =>
    rw [hfile] at houtcome hm
    exact .of_outcome (Driver.outcome_serve_read_error pieces houtcome)
      (FileMap.allows_read_none hm pieces) h
  | some bytes =>
    rw [hfile] at houtcome hm
    by_cases hoffset : bytes.length < offset
    · simp only [if_pos hoffset] at houtcome
      exact .of_outcome (Driver.outcome_serve_read_error pieces houtcome)
        (FileMap.allows_read_beyond hm hoffset pieces) h
    · simp only [if_neg hoffset] at houtcome
      exact .of_outcome (Driver.outcome_serve_read pieces houtcome (drain_driver s pieces _))
        (FileMap.allows_read hm (Nat.not_lt.1 hoffset) pieces) h

theorem serves_stat : driver.Serves fileMap false (IsWithin paths) s (.stat p) := by
  have houtcome := s.outcome_stat p
  have hm := fileMap_names (s := s) hpaths hp
  have hoccupied := (h.isLone hpaths hp).occupied_iff
  cases hfile : s.file? p with
  | some bytes =>
    rw [hfile] at houtcome hm
    exact .of_map rfl houtcome (FileMap.allows_stat hm) h
  | none =>
    rw [hfile] at houtcome hm hoccupied
    rw [if_neg (by simp [hoccupied])] at houtcome
    exact .of_map rfl houtcome (FileMap.allows_stat_none hm) h

theorem serves_delete : driver.Serves fileMap false (IsWithin paths) s (.delete p) := by
  have houtcome := s.outcome_delete p
  have hm := fileMap_names (s := s) hpaths hp
  have hoccupied := (h.isLone hpaths hp).occupied_iff
  cases hfile : s.file? p with
  | some bytes =>
    rw [hfile] at hm hoccupied
    rw [if_pos (hoccupied.2 ⟨bytes, rfl⟩)] at houtcome
    refine .of_map rfl houtcome ?_ (h.remove p)
    rw [h.fileMap_remove hpaths hp]
    exact FileMap.allows_delete hm
  | none =>
    rw [hfile] at hm hoccupied
    rw [if_neg (by simp [hoccupied])] at houtcome
    exact .of_map rfl houtcome (FileMap.allows_delete_none hm) h

theorem serves_rename {q : Path} (hq : q ∈ paths) (hne : p.components ≠ q.components) :
    driver.Serves fileMap false (IsWithin paths) s (.rename p q) := by
  have houtcome := s.outcome_rename p q
  have hm := fileMap_names (s := s) hpaths hp
  have hoccupied := (h.isLone hpaths hp).occupied_iff
  cases hfile : s.file? p with
  | some bytes =>
    rw [hfile] at hm hoccupied
    rw [if_pos (hoccupied.2 ⟨bytes, rfl⟩)] at houtcome
    refine .of_map rfl houtcome ?_ (h.move hpaths hp hq hne hfile)
    rw [h.fileMap_move hpaths hp hq hne hfile]
    exact FileMap.allows_rename hm
  | none =>
    rw [hfile] at hm hoccupied
    rw [if_neg (by simp [hoccupied])] at houtcome
    exact .of_map rfl houtcome (FileMap.allows_rename_none hm) h

end Serving

/-- **Storage in memory serves each request as the map does.** -/
theorem serves (hpaths : Path.AreFiles paths) {q : FileRequest} (hq : q.IsWithin paths)
    (s : MemoryStore) (h : s.IsWithin paths) :
    driver.Serves fileMap false (IsWithin paths) s q := by
  cases q with
  | put p bytes => exact serves_put hpaths h hq bytes
  | get p => exact serves_get hpaths h hq
  | write p offset source => exact serves_write hpaths h hq offset source
  | read p offset pieces => exact serves_read hpaths h hq offset pieces
  | stat p => exact serves_stat hpaths h hq
  | delete p => exact serves_delete hpaths h hq
  | rename source destination =>
    obtain ⟨hs, hd, hne⟩ := hq
    exact serves_rename hpaths h hs hd hne

theorem explains (hpaths : Path.AreFiles paths) {requests : List FileRequest}
    (hrequests : ∀ q ∈ requests, q.IsWithin paths) :
    FileMap.Explains false .empty requests (driver.trace fileMap .empty requests) := by
  rw [← fileMap_empty]
  exact Driver.explains_trace (isWithin_empty paths) fun q hq s hs =>
    serves hpaths (hrequests q hq) s hs

end MemoryStore
end ContainerRegistry
