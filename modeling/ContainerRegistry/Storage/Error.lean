/-
# Failures of storage

A failed storage call says what kind of failure it is, which engine reports it,
and, where they are known, the path and the step that failed. Its cause is the
text of whatever went wrong below. An input or output error below is either an
error of the operating system, known by its number and shown as that number
(`<os 2>`), or a path that the system cannot be given because it holds a NUL, or
an error with a text of its own.

Key definitions: `IoError`, `StorageErrorKind`, `StorageError`,
`StorageError.message`, `StorageError.ofIo`, `StorageError.notFound`,
`StorageError.invalidOffset`.
-/
import ContainerRegistry.Path

namespace ContainerRegistry

/-- The errors of the operating system that a file tree gives. -/
inductive Errno where
  | noEntry
  | busy
  | exists
  | notDirectory
  | isDirectory
  | invalid
  | nameTooLong
  | notEmpty
  deriving DecidableEq, Repr

/-- The number of a system error. -/
def Errno.number : Errno → Nat
  | noEntry => 2
  | busy => 16
  | .exists => 17
  | notDirectory => 20
  | isDirectory => 21
  | invalid => 22
  | nameTooLong => 36
  | notEmpty => 39

/-- The kinds of input and output errors that storage tells apart. -/
inductive IoKind where
  | notFound
  | permissionDenied
  | other
  deriving DecidableEq, Repr

/-- An input or output error. -/
inductive IoError where
  | system (errno : Errno)
  | nulInPath
  | custom (kind : IoKind) (text : String)
  deriving DecidableEq, Repr

namespace IoError

/-- The kind of an error. -/
def kind : IoError → IoKind
  | system .noEntry => .notFound
  | system _ => .other
  | nulInPath => .other
  | custom kind _ => kind

/-- The text of an error. -/
def message : IoError → String
  | system errno => s!"<os {errno.number}>"
  | nulInPath => "<InvalidInput>"
  | custom _ text => text

end IoError

/-- The kinds of storage failures. -/
inductive StorageErrorKind where
  /-- Nothing is at the path. -/
  | notFound
  /-- A read or write starts beyond the end of a file. -/
  | invalidOffset
  | permissionDenied
  | io
  /-- The request itself is wrong. -/
  | invalidRequest
  | other
  deriving DecidableEq, Repr

namespace StorageErrorKind

/-- The kind in words. -/
def text : StorageErrorKind → String
  | notFound => "not found"
  | invalidOffset => "invalid offset"
  | permissionDenied => "permission denied"
  | io => "I/O error"
  | invalidRequest => "invalid request"
  | other => "other error"

/-- Whether trying again may help. -/
def isRetryable : StorageErrorKind → Bool
  | io => true
  | _ => false

/-- The kind of failure that an input or output error is. -/
def ofIo : IoKind → StorageErrorKind
  | .notFound => notFound
  | .permissionDenied => permissionDenied
  | .other => io

end StorageErrorKind

/-- A failed storage call. -/
structure StorageError where
  kind : StorageErrorKind
  /-- The engine that reports the failure. -/
  engine : String
  /-- The path it is about. -/
  path : Option String
  /-- What was being done. -/
  context : Option String
  /-- The text of what went wrong below. -/
  cause : String
  deriving DecidableEq, Repr

namespace StorageError

/-- The report of a failure. -/
def message (e : StorageError) : String :=
  let path := (e.path.map fun p => s!" (path: {p})").getD ""
  let context := (e.context.map fun c => s!" ({c})").getD ""
  s!"Storage error [{e.kind.text}] from {e.engine}{path}{context}: {e.cause}"

/-- Whether nothing was at the path. -/
def isNotFound (e : StorageError) : Bool :=
  e.kind == .notFound

/-- Whether trying again may help. -/
def isRetryable (e : StorageError) : Bool :=
  e.kind.isRetryable

/-- A failure without a path or a context. -/
def plain (engine : String) (kind : StorageErrorKind) (cause : String) : StorageError :=
  ⟨kind, engine, none, none, cause⟩

/-- An input or output error at a path. -/
def ofIo (engine : String) (path : Path) (e : IoError) : StorageError :=
  ⟨.ofIo e.kind, engine, some path.text, none, e.message⟩

/-- Nothing is at a path. -/
def notFound (engine : String) (path : Path) : StorageError :=
  ⟨.notFound, engine, some path.text, none, s!"path not found: {path.text}"⟩

/-- An offset lies beyond the end of the file at a path. -/
def invalidOffset (engine : String) (path : Path) (offset size : Nat) : StorageError :=
  ⟨.invalidOffset, engine, some path.text, none,
    s!"offset {offset} is beyond the end of {path.text} ({size} bytes)"⟩

end StorageError

end ContainerRegistry
