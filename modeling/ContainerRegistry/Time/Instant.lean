/-
# Points in time, and their RFC 3339 form

An instant is a day, a second of that day and a fraction of that second, all in
UTC. The fraction reaches two seconds: what passes one second is a leap second,
which is written as second 60.

A time is read with a date, then `T`, `t` or a space, a time of day with any
number of fractional digits (those past nine are dropped), and a zone: `Z`, `z`
or an offset in hours and minutes. It is written in UTC with no fraction, or
three, six or nine digits of it, as few as show it.

Key definitions: `Instant`, `Instant.parse`, `Instant.toText`.
-/
import ContainerRegistry.Time.Calendar

namespace ContainerRegistry

/-- A point in time, in UTC. -/
structure Instant where
  /-- Days since 1 January 1970. -/
  day : Int
  /-- Seconds since midnight. -/
  second : Nat
  /-- Nanoseconds; a leap second is one second of them. -/
  nano : Nat
  deriving DecidableEq, Repr

namespace Instant

/-- The value of a decimal digit. -/
def digit? (c : Char) : Option Nat :=
  if '0' ≤ c && c ≤ '9' then some (c.toNat - 0x30) else none

/-- Reads exactly `count` digits, after the value read so far. -/
def digits (count value : Nat) (cs : List Char) : Option (Nat × List Char) :=
  match count, cs with
  | 0, cs => some (value, cs)
  | _ + 1, [] => none
  | count + 1, c :: cs => do
    let d ← digit? c
    digits count (value * 10 + d) cs

/-- Reads one character, which must be `c`. -/
def char (c : Char) : List Char → Option (List Char)
  | [] => none
  | d :: cs => if d = c then some cs else none

/-- Reads the digits of a fraction of a second: nine count, the others are dropped. -/
def fraction (cs : List Char) : Option (Nat × List Char) :=
  let shown := cs.takeWhile fun c => (digit? c).isSome
  if shown.isEmpty then none
  else do
    let (nano, _) ← digits 9 0 (shown ++ List.replicate 9 '0')
    some (nano, cs.dropWhile fun c => (digit? c).isSome)

/-- Reads the date. -/
def date (cs : List Char) : Option (Calendar.Date × List Char) := do
  let (year, cs) ← digits 4 0 cs
  let cs ← char '-' cs
  let (month, cs) ← digits 2 0 cs
  let cs ← char '-' cs
  let (day, cs) ← digits 2 0 cs
  some (⟨year, month, day⟩, cs)

/-- Reads the time of day: the second of the day and the nanoseconds. -/
def timeOfDay (cs : List Char) : Option ((Nat × Nat) × List Char) := do
  let (hour, cs) ← digits 2 0 cs
  let cs ← char ':' cs
  let (minute, cs) ← digits 2 0 cs
  let cs ← char ':' cs
  let (second, cs) ← digits 2 0 cs
  let (nano, cs) ← match cs with
    | '.' :: cs => fraction cs
    | cs => some (0, cs)
  if hour ≤ 23 && minute ≤ 59 && second ≤ 60 then
    if second = 60 then some ((hour * 3600 + minute * 60 + 59, 1000000000 + nano), cs)
    else some ((hour * 3600 + minute * 60 + second, nano), cs)
  else none

/-- Reads the hours and minutes of an offset, as seconds. -/
def offset (cs : List Char) : Option (Nat × List Char) := do
  let (hour, cs) ← digits 2 0 cs
  let cs ← char ':' cs
  let (minute, cs) ← digits 2 0 cs
  if hour ≤ 23 && minute ≤ 59 then some (hour * 3600 + minute * 60, cs) else none

/-- Reads the zone: the seconds by which local time is ahead of UTC. -/
def zone : List Char → Option (Int × List Char)
  | [] => none
  | c :: cs =>
    if c = 'Z' ∨ c = 'z' then some (0, cs)
    else if c = '+' then (offset cs).map fun (s, cs) => ((s : Int), cs)
    else if c = '-' ∨ c = '\u2212' then (offset cs).map fun (s, cs) => (-(s : Int), cs)
    else none

/-- Whether a character may stand between the date and the time. -/
def isSeparator (c : Char) : Bool :=
  c == 'T' || c == 't' || c == ' '

/-- The instant that an RFC 3339 text names. -/
def parse (s : String) : Option Instant := do
  let (date, cs) ← date s.toList
  let cs ← match cs with
    | c :: cs => if isSeparator c then some cs else none
    | [] => none
  let ((second, nano), cs) ← timeOfDay cs
  let (ahead, cs) ← zone cs
  if date.isValid && cs.isEmpty then
    let second := (second : Int) - ahead
    some ⟨Calendar.toDay date + Int.fdiv second 86400, (Int.fmod second 86400).toNat, nano⟩
  else none

/-- A number with at least `width` digits. -/
def padded (width n : Nat) : List Char :=
  let shown := Nat.toDigits 10 n
  List.replicate (width - shown.length) '0' ++ shown

/-- A year: four digits, or a sign and at least four. -/
def yearText (year : Int) : List Char :=
  if 0 ≤ year && year ≤ 9999 then padded 4 year.toNat
  else (if year < 0 then '-' else '+') :: padded 4 year.natAbs

/-- The fraction of a second, with as few digits as show it. -/
def fractionText (nano : Nat) : List Char :=
  if nano = 0 then []
  else if nano % 1000000 = 0 then '.' :: padded 3 (nano / 1000000)
  else if nano % 1000 = 0 then '.' :: padded 6 (nano / 1000)
  else '.' :: padded 9 nano

/-- The instant in RFC 3339 form, ending in the given name of the zone UTC. -/
def toText (t : Instant) (utc : String) : String :=
  let date := Calendar.ofDay t.day
  let leap := t.nano / 1000000000
  String.ofList <|
    yearText date.year ++ '-' :: padded 2 date.month ++ '-' :: padded 2 date.day ++ 'T' ::
    padded 2 (t.second / 3600) ++ ':' :: padded 2 (t.second / 60 % 60) ++ ':' ::
    padded 2 (t.second % 60 + leap) ++ fractionText (t.nano % 1000000000) ++ utc.toList

/-- The instant with the zone as an offset, `+00:00`. -/
def toOffsetText (t : Instant) : String :=
  t.toText "+00:00"

/-- The instant with the zone as a letter, `Z`. -/
def toZuluText (t : Instant) : String :=
  t.toText "Z"

example : (parse "2024-02-29t23:30:60.5-01:00").map toZuluText =
    some "2024-03-01T00:30:60.500Z" := by
  decide
example : (parse "2024-01-01 00:00:00.1234567891Z").map toOffsetText =
    some "2024-01-01T00:00:00.123456789+00:00" := by decide
example : parse "2023-02-29T00:00:00Z" = none := by decide

end Instant
end ContainerRegistry
