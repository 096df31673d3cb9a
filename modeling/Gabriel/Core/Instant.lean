import Gabriel.Core.Numbers

/-!
# `Gabriel.Core.Instant`: reading an instant

`parse_iso8601` and `split_offset` of `gabriel-core/src/lib.rs`. `split_offset` slices a text of
four bytes in the middle, which panics inside a character; a call that can panic returns an
`Option` around its result, with `none` for the panic.

The definitions:

* `splitOffset`: cut the zone off a text, and its offset in minutes.
* `parseDate`, `parseTime`: the numbers of a date, and those of a time of the day.
* `instantOf`: the instant of these numbers, unless it is before the epoch.
* `parseIso8601`: read an instant.
-/

set_option autoImplicit false

namespace Gabriel.Core

open Text

/-- Split at the first character of a set. -/
def splitOnceAny (chars : List Char) (t : Text) : Option (Text × Text) :=
  match t.dropWhile fun c => c ∉ chars with
  | [] => none
  | _ :: rest => some (t.takeWhile fun c => c ∉ chars, rest)

/-- Split in front of the last character of a set. -/
def splitAtLast (chars : List Char) (t : Text) : Option (Text × Text) :=
  match t.reverse.dropWhile fun c => c ∉ chars with
  | [] => none
  | c :: front => some (front.reverse, c :: (t.reverse.takeWhile fun c => c ∉ chars).reverse)

/-- Split after a number of bytes, which must not be inside a character. -/
def splitBytes : Nat → Text → Option (Text × Text)
  | 0, t => some ([], t)
  | _ + 1, [] => none
  | n + 1, c :: t =>
    if c.utf8Size ≤ n + 1 then (splitBytes (n + 1 - c.utf8Size) t).map fun e => (c :: e.1, e.2)
    else none

/-- The hours and the minutes of a zone designator without its sign. -/
def parseOffset (offset : Text) : Option (Option (Int64 × Int64)) :=
  match splitOnce [':'] offset with
  | some (h, m) => some do
    let hours ← parseI64 h
    let minutes ← parseI64 m
    some (hours, minutes)
  | none =>
    -- `+0200` and `+02` both occur.
    if utf8Len offset = 4 then
      (splitBytes 2 offset).map fun e => do
        let hours ← parseI64 e.1
        let minutes ← parseI64 e.2
        some (hours, minutes)
    else some ((parseI64 offset).map fun hours => (hours, 0))

/-- Split off a trailing zone designator: the time, and its offset in minutes east of UTC. A
time without one is in UTC. -/
def splitOffset (rest : Text) : Option (Option (Text × Int64)) :=
  if rest.getLast? = some 'Z' ∨ rest.getLast? = some 'z' then some (some (rest.dropLast, 0))
  else match splitAtLast ['+', '-'] rest with
    | none => some (some (rest, 0))
    | some (time, offset) =>
      let sign : Int64 := if offset.head? = some '-' then -1 else 1
      (parseOffset offset.tail).map fun parsed =>
        parsed.map fun e => (time, sign * (e.1 * 60 + e.2))

/-- Seconds, and the milliseconds of a fraction of any length. -/
def parseSeconds (seconds : Text) : Option (Int64 × Int64) :=
  match splitOnce ['.'] seconds with
  | some (whole, fraction) => do
    let whole ← parseI64 whole
    let digits := (fraction.filter Char.isDigit).take 3
    let millis ← parseI64 (digits ++ List.replicate (3 - digits.length) '0')
    some (whole, millis)
  | none => (parseI64 seconds).map fun whole => (whole, 0)

/-- The year, the month and the day of a date. -/
def parseDate (date : Text) : Option (Int64 × Int64 × Int64) := do
  let parts := date.splitOn '-'
  let year ← parts[0]?.bind parseI64
  let month ← parts[1]?.bind parseI64
  let day ← parts[2]?.bind parseI64
  if 1 ≤ month ∧ month ≤ 12 ∧ 1 ≤ day ∧ day ≤ 31 then some (year, month, day) else none

/-- The hour, the minute, the second and the millisecond of a time. -/
def parseTime (time : Text) : Option (Int64 × Int64 × Int64 × Int64) := do
  let parts := time.splitOn ':'
  let hour ← parts[0]?.bind parseI64
  let minute ← parts[1]?.bind parseI64
  let (second, millis) ← match parts[2]? with
    | some seconds => parseSeconds seconds
    | none => some (0, 0)
  if 0 ≤ hour ∧ hour ≤ 23 ∧ 0 ≤ minute ∧ minute ≤ 59 ∧ 0 ≤ second ∧ second ≤ 60 then
    some (hour, minute, second, millis)
  else none

/-- The instant of a date and a time, unless it is before the epoch. -/
def instantOf (date : Int64 × Int64 × Int64) (time : Int64 × Int64 × Int64 × Int64)
    (offsetMinutes : Int64) : Option UInt64 :=
  let days := daysFromCivil date.1 date.2.1 date.2.2
  let seconds := days * 86400 + time.1 * 3600 + time.2.1 * 60 + time.2.2.1 - offsetMinutes * 60
  let millis := seconds * 1000 + time.2.2.2
  if millis ≥ 0 then some millis.toUInt64 else none

/-- Parse an ISO-8601 instant into epoch milliseconds. -/
def parseIso8601 (value : Text) : Option (Option UInt64) :=
  match splitOnceAny ['T', 't', ' '] (trim value) with
  | none => some none
  | some (date, rest) =>
    match parseDate date with
    | none => some none
    | some date =>
      (splitOffset rest).map fun split => do
        let (time, offset) ← split
        let time ← parseTime time
        instantOf date time offset

example : parseIso8601 "2026-07-29 10:00:01.25+02:00".toList = some (some 1785312001250) := by
  decide +kernel

end Gabriel.Core
