/-
# A driver that fails on request

A faulty driver passes calls on to another driver, except where a fault strikes.
The faults wait in a list. A call meets the first fault for its method whose text
occurs in the call's path: a fault that is to be skipped is only counted down,
any other is used up and acts. Mostly it fails the call. On a write it may
instead let part of the source land, and report success or failure; on a read it
may let the stream break after some bytes.

Key definitions: `Fault`, `Faulty`, `Faulty.strike`, `Faulty.driver`.
-/
import ContainerRegistry.Storage.Driver

namespace ContainerRegistry

namespace Faulty

/-- The methods of a driver that can fail. -/
inductive Method where
  | getContent
  | putContent
  | readStream
  | writeStream
  | stat
  | list
  | rename
  | delete
  deriving DecidableEq, Repr

/-- How a fault acts. -/
inductive Mode where
  /-- The call fails before it does anything. -/
  | refuse
  /-- A write takes the source, lands a part and reports that part. -/
  | short
  /-- A read opens a stream that breaks. -/
  | breakStream
  /-- A write takes the source, lands a part and fails. -/
  | partialWrite
  deriving DecidableEq, Repr

end Faulty

/-- A failure that waits for a call. -/
structure Fault where
  method : Faulty.Method
  /-- A text that must occur in the call's path. -/
  contains : String
  /-- The number of matching calls that go through first. -/
  skip : Nat
  mode : Faulty.Mode
  kind : StorageErrorKind
  message : String
  /-- The number of bytes that land or are delivered before the failure. -/
  keep : Nat
  deriving DecidableEq, Repr

/-- The state of a faulty driver: that of the driver beneath, and the faults that wait. -/
structure Faulty (σ : Type) where
  inner : σ
  faults : List Fault

namespace Faulty

/-- Whether characters occur in others, side by side. -/
def occursIn (part : List Char) : List Char → Bool
  | [] => part.isEmpty
  | c :: cs => part.isPrefixOf (c :: cs) || occursIn part cs

/-- Whether a call meets a fault. -/
def meets (method : Method) (p : Path) (f : Fault) : Bool :=
  f.method == method && occursIn f.contains.toList p.text.toList

/-- The fault that strikes a call, and the faults that wait on. -/
def strike (method : Method) (p : Path) : List Fault → Option Fault × List Fault
  | [] => (none, [])
  | f :: fs =>
    if meets method p f then
      if 0 < f.skip then (none, { f with skip := f.skip - 1 } :: fs) else (some f, fs)
    else
      let (struck, rest) := strike method p fs
      (struck, f :: rest)

/-- The engine's name in failures. -/
def engine : String := "flaky"

/-- The failure that a fault gives. -/
def failure (f : Fault) : StorageError :=
  .plain engine f.kind f.message

/-- A stream, and where it breaks: after so many bytes, with this text. -/
structure Stream (ρ : Type) where
  inner : ρ
  breaks : Option (Nat × String)

variable {σ ρ α : Type}

/-- The fault that strikes a call, taken from the list. -/
def struck (method : Method) (p : Path) : Action (Faulty σ) StorageError (Option Fault) := do
  let s ← get
  let (fault, rest) := strike method p s.faults
  set { s with faults := rest }
  pure fault

/-- A call on the driver beneath. -/
def pass (call : Action σ StorageError α) : Action (Faulty σ) StorageError α :=
  call.zoom Faulty.inner fun s inner => { s with inner := inner }

/-- A call that any fault fails. -/
def guarded (method : Method) (p : Path) (call : Action σ StorageError α) :
    Action (Faulty σ) StorageError α := do
  match ← struck method p with
  | some f => throw (failure f)
  | none => pass call

variable (d : Driver σ ρ)

/-- Opens a stream, which a fault may break. -/
def readStream (p : Path) (offset : Nat) : Action (Faulty σ) StorageError (Stream ρ) := do
  match ← struck .readStream p with
  | none => pure ⟨← pass (d.readStream p offset), none⟩
  | some f =>
    if f.mode = .breakStream then pure ⟨← pass (d.readStream p offset), some (f.keep, f.message)⟩
    else throw (failure f)

/-- Takes what comes next from a stream. At its break, or where nothing comes before
it, it fails. -/
def fetch (stream : Stream ρ) (room : Nat) (s : Faulty σ) : Pulled (Stream ρ) :=
  match stream.breaks with
  | none =>
    let fetched := d.fetch stream.inner room s.inner
    ⟨fetched.bytes, fetched.failure, ⟨fetched.rest, none⟩⟩
  | some (left, message) =>
    let fetched := d.fetch stream.inner (min left room) s.inner
    let rest : Stream ρ := ⟨fetched.rest, some (left - fetched.bytes.length, message)⟩
    if fetched.bytes = [] ∧ 0 < room then
      ⟨[], some (fetched.failure.getD (.custom .other message)), rest⟩
    else ⟨fetched.bytes, fetched.failure, rest⟩

/-- Pulls from a stream, up to its break. -/
def pull (stream : Stream ρ) (limit : Option Nat) (s : Faulty σ) : Pulled (Stream ρ) :=
  match stream.breaks with
  | none =>
    let pulled := d.pull stream.inner limit s.inner
    ⟨pulled.bytes, pulled.failure, ⟨pulled.rest, none⟩⟩
  | some (left, message) =>
    let pulled := d.pull stream.inner (some ((limit.map (min left)).getD left)) s.inner
    let rest : Stream ρ := ⟨pulled.rest, some (left - pulled.bytes.length, message)⟩
    if limit = some pulled.bytes.length then ⟨pulled.bytes, none, rest⟩
    else ⟨pulled.bytes, some (pulled.failure.getD (.custom .other message)), rest⟩

/-- Takes the whole source and writes the part that a fault lets land. -/
def writePart (p : Path) (offset : Nat) (source : Source) (f : Fault) :
    Action (Faulty σ) StorageError Transfer := do
  match source.failure with
  | some e => throw (.ofIo engine p e)
  | none =>
    let landed ← pass (d.writeStream p offset (.ofBytes (source.bytes.take f.keep)))
    pure ⟨source.bytes.length, landed.written⟩

/-- Writes a source, of which a fault may let only a part land. -/
def writeStream (p : Path) (offset : Nat) (source : Source) :
    Action (Faulty σ) StorageError Transfer := do
  match ← struck .writeStream p with
  | none => pass (d.writeStream p offset source)
  | some f =>
    match f.mode with
    | .refuse => throw (failure f)
    | .short => writePart d p offset source f
    | _ => do
      let _ ← writePart d p offset source f
      throw (failure f)

/-- The driver that fails on request. -/
def driver : Driver (Faulty σ) (Stream ρ) where
  name := engine
  getContent p := guarded .getContent p (d.getContent p)
  putContent p bytes := guarded .putContent p (d.putContent p bytes)
  readStream := readStream d
  fetch := fetch d
  pull := pull d
  writeStream := writeStream d
  stat p := guarded .stat p (d.stat p)
  list p := guarded .list p (d.list p)
  rename source destination := guarded .rename source (d.rename source destination)
  delete p := guarded .delete p (d.delete p)
  extent s := d.extent s.inner

end Faulty

end ContainerRegistry
