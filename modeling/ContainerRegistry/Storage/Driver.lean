/-
# What a storage driver does

A driver gives positional byte access to files at slash separated paths, over a
state of its own. Every call may fail, and the state that it leaves behind
counts either way. Directories are implicit: writing a file makes them, and
deleting one deletes everything beneath it.

Reading is split in two: a call opens a stream at an offset, and bytes are taken
from the stream. One fetch gives some of the next bytes, as far as there is room,
and may give fewer than are left; a pull fetches again and again for as many as
are wanted, up to the end or up to a failure. Writing takes a source, which is
what a reader yields before it ends or fails.

Key definitions: `Action`, `Source`, `Transfer`, `Metadata`, `Pulled`, `Driver`.
Key theorems: `Action.outcome_pure`, `Action.outcome_bind`, `Action.outcome_throw`,
`upTo_append_beyond`, `splice_length`.
-/
import ContainerRegistry.Storage.Error

namespace ContainerRegistry

/-- A computation over a state that may fail; the state is kept when it does. -/
abbrev Action (σ ε : Type) := ExceptT ε (StateM σ)

namespace Action

variable {σ τ ε δ α β : Type}

/-- The answer of an action, and the state after it. -/
def outcome (action : Action σ ε α) (s : σ) : Except ε α × σ :=
  action s

/-- The action with these answers and states. -/
def ofOutcome (f : σ → Except ε α × σ) : Action σ ε α :=
  f

/-- Renames the failures of an action. -/
def mapError (f : ε → δ) (action : Action σ ε α) : Action σ δ α :=
  ofOutcome fun s =>
    match action.outcome s with
    | (.ok a, s) => (.ok a, s)
    | (.error e, s) => (.error (f e), s)

/-- The answer of an action as a value: the action itself no longer fails. -/
def attempt (action : Action σ ε α) : Action σ δ (Except ε α) :=
  ofOutcome fun s => (.ok (action.outcome s).1, (action.outcome s).2)

/-- An action on a part of a larger state. -/
def zoom (part : τ → σ) (restore : τ → σ → τ) (action : Action σ ε α) : Action τ ε α :=
  ofOutcome fun t =>
    let (answer, s) := action.outcome (part t)
    (answer, restore t s)

theorem outcome_pure (a : α) (s : σ) : (pure a : Action σ ε α).outcome s = (.ok a, s) := rfl

theorem outcome_throw (e : ε) (s : σ) : (throw e : Action σ ε α).outcome s = (.error e, s) := rfl

theorem outcome_bind (action : Action σ ε α) (next : α → Action σ ε β) (s : σ) :
    (action >>= next).outcome s =
      match action.outcome s with
      | (.ok a, s) => (next a).outcome s
      | (.error e, s) => (.error e, s) := by
  show (ExceptT.bind action next : StateM σ _) s = _
  simp only [ExceptT.bind, ExceptT.mk, bind, StateT.bind, outcome]
  rcases h : (action : StateM σ _) s with ⟨_ | a, s'⟩ <;> rfl

theorem outcome_get (s : σ) : (get : Action σ ε σ).outcome s = (.ok s, s) := rfl

theorem outcome_set (s t : σ) : (set t : Action σ ε PUnit).outcome s = (.ok ⟨⟩, t) := rfl

theorem outcome_modify (f : σ → σ) (s : σ) :
    (modify f : Action σ ε PUnit).outcome s = (.ok ⟨⟩, f s) := rfl

theorem outcome_attempt (action : Action σ ε α) (s : σ) :
    (action.attempt : Action σ δ _).outcome s = (.ok (action.outcome s).1, (action.outcome s).2) :=
  rfl

theorem outcome_mapError (f : ε → δ) (action : Action σ ε α) (s : σ) :
    (action.mapError f).outcome s = ((action.outcome s).1.mapError f, (action.outcome s).2) := by
  rw [mapError, ofOutcome, outcome]
  rcases action.outcome s with ⟨_ | _, _⟩ <;> rfl

theorem outcome_zoom (part : τ → σ) (restore : τ → σ → τ) (action : Action σ ε α) (t : τ) :
    (action.zoom part restore).outcome t =
      ((action.outcome (part t)).1, restore t (action.outcome (part t)).2) :=
  rfl

end Action

/-- What a reader yields: bytes, and then its end or a failure. -/
structure Source where
  bytes : Bytes
  failure : Option IoError
  deriving DecidableEq, Repr

/-- The source of bytes that are at hand. -/
def Source.ofBytes (bytes : Bytes) : Source :=
  ⟨bytes, none⟩

/-- A finished write: the bytes taken from the source, and the bytes reported as written. -/
structure Transfer where
  taken : Nat
  written : Nat
  deriving DecidableEq, Repr

/-- What is known of a file or directory. -/
structure Metadata where
  /-- The size in bytes, zero for a directory. -/
  size : Nat
  isDirectory : Bool
  deriving DecidableEq, Repr

/-- What was taken from a stream. -/
structure Pulled (ρ : Type) where
  bytes : Bytes
  /-- The failure that stopped it. -/
  failure : Option IoError
  /-- The stream after it. -/
  rest : ρ

/-- A storage driver with states `σ` and streams `ρ`. -/
structure Driver (σ ρ : Type) where
  name : String
  /-- The bytes of a file. -/
  getContent : Path → Action σ StorageError Bytes
  /-- Replaces a file, or creates it. -/
  putContent : Path → Bytes → Action σ StorageError Unit
  /-- Opens a file for reading from an offset, which lies within it or at its end. -/
  readStream : Path → Nat → Action σ StorageError ρ
  /-- Takes what comes next from a stream in one go, with room for so many bytes. -/
  fetch : ρ → Nat → σ → Pulled ρ
  /-- Pulls bytes from a stream: so many, or all without a limit. -/
  pull : ρ → Option Nat → σ → Pulled ρ
  /-- Writes a source into a file from an offset, which lies within it or at its end. -/
  writeStream : Path → Nat → Source → Action σ StorageError Transfer
  stat : Path → Action σ StorageError Metadata
  /-- The direct children of a directory, in order. -/
  list : Path → Action σ StorageError (List Path)
  /-- Moves a file or a directory, replacing what is at the destination. -/
  rename : Path → Path → Action σ StorageError Unit
  /-- Deletes a file, or a directory and everything beneath it. -/
  delete : Path → Action σ StorageError Unit
  /-- More than the number of directories that a walk from one place can list. -/
  extent : σ → Nat

/-- The part of a byte string that a limit allows. -/
def upTo (limit : Option Nat) (bytes : Bytes) : Bytes :=
  match limit with
  | none => bytes
  | some n => bytes.take n

/-- The part of a byte string beyond a limit. -/
def beyond (limit : Option Nat) (bytes : Bytes) : Bytes :=
  match limit with
  | none => []
  | some n => bytes.drop n

theorem upTo_append_beyond : ∀ (limit : Option Nat) (bytes : Bytes),
    upTo limit bytes ++ beyond limit bytes = bytes
  | none, bytes => List.append_nil bytes
  | some n, bytes => List.take_append_drop n bytes

theorem upTo_isPrefix : ∀ (limit : Option Nat) (bytes : Bytes), upTo limit bytes <+: bytes
  | none, _ => List.prefix_rfl
  | some n, bytes => List.take_prefix n bytes

/-- A file with bytes written over it from an offset. -/
def splice (file : Bytes) (offset : Nat) (bytes : Bytes) : Bytes :=
  file.take offset ++ bytes ++ file.drop (offset + bytes.length)

/-- Writing at the end appends. -/
theorem splice_length (file bytes : Bytes) : splice file file.length bytes = file ++ bytes := by
  simp [splice]

end ContainerRegistry
