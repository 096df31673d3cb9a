import Gabriel.Core.Instant
import Gabriel.Lib.MachineInt

/-!
# `Gabriel.Core.Checked`: instants, with overflow checks

`civil_from_days`, `days_from_civil`, `split_offset` and `parse_iso8601` in a build with overflow
checks, where an operation that overflows panics: these functions have `none` for a panic, and
otherwise compute what those without checks compute. A division by a positive constant does not
overflow.

The definitions:

* `civilFromDaysChecked`, `daysFromCivilChecked`: the calendar arithmetic.
* `splitOffsetChecked`, `instantOfChecked`: the zone, and the milliseconds of an instant.
* `parseIso8601Checked`: the whole parser.
-/

set_option autoImplicit false

namespace Gabriel.Core

open Text MachineInt

/-- Days since the epoch to a calendar date. -/
def civilFromDaysChecked (days : Int64) : Option (Int64 × UInt32 × UInt32) := do
  let z ← checkedAdd days 719468
  let start ← (if z ≥ 0 then some z else checkedSub z 146096)
  let era := start / 146097
  let eraDays ← checkedMul era 146097
  let doe ← checkedSub z eraDays
  let sum ← checkedSub doe (doe / 1460)
  let sum ← checkedAdd sum (doe / 36524)
  let sum ← checkedSub sum (doe / 146096)
  let yoe := sum / 365
  let eraYears ← checkedMul era 400
  let y ← checkedAdd yoe eraYears
  let yearDays ← checkedMul 365 yoe
  let yearDays ← checkedAdd yearDays (yoe / 4)
  let yearDays ← checkedSub yearDays (yoe / 100)
  let doy ← checkedSub doe yearDays
  let fifths ← checkedMul 5 doy
  let fifths ← checkedAdd fifths 2
  let mp := fifths / 153
  let months ← checkedMul 153 mp
  let months ← checkedAdd months 2
  let d ← checkedSub doy (months / 5)
  let d ← checkedAdd d 1
  let m ← (if mp < 10 then checkedAdd mp 3 else checkedSub mp 9)
  let y ← (if m.toUInt64.toUInt32 ≤ 2 then checkedAdd y 1 else some y)
  some (y, m.toUInt64.toUInt32, d.toUInt64.toUInt32)

/-- Days since the Unix epoch for a calendar date. -/
def daysFromCivilChecked (y m d : Int64) : Option Int64 := do
  let y ← (if m ≤ 2 then checkedSub y 1 else some y)
  let start ← (if y ≥ 0 then some y else checkedSub y 399)
  let era := start / 400
  let eraYears ← checkedMul era 400
  let yoe ← checkedSub y eraYears
  let march ← checkedAdd m 9
  let mp := march % 12
  let months ← checkedMul 153 mp
  let months ← checkedAdd months 2
  let day ← checkedAdd (months / 5) d
  let doy ← checkedSub day 1
  let days ← checkedMul yoe 365
  let days ← checkedAdd days (yoe / 4)
  let days ← checkedSub days (yoe / 100)
  let doe ← checkedAdd days doy
  let eraDays ← checkedMul era 146097
  let days ← checkedAdd eraDays doe
  checkedSub days 719468

/-- Split off a trailing zone designator. -/
def splitOffsetChecked (rest : Text) : Option (Option (Text × Int64)) :=
  if rest.getLast? = some 'Z' ∨ rest.getLast? = some 'z' then some (some (rest.dropLast, 0))
  else match splitAtLast ['+', '-'] rest with
    | none => some (some (rest, 0))
    | some (time, offset) =>
      let sign : Int64 := if offset.head? = some '-' then -1 else 1
      match parseOffset offset.tail with
      | none => none
      | some none => some none
      | some (some (hours, minutes)) => do
        let hours ← checkedMul hours 60
        let sum ← checkedAdd hours minutes
        let minutes ← checkedMul sign sum
        some (some (time, minutes))

/-- The instant of a date and a time, unless it is before the epoch. -/
def instantOfChecked (date : Int64 × Int64 × Int64) (time : Int64 × Int64 × Int64 × Int64)
    (offsetMinutes : Int64) : Option (Option UInt64) := do
  let days ← daysFromCivilChecked date.1 date.2.1 date.2.2
  let days ← checkedMul days 86400
  let hours ← checkedMul time.1 3600
  let seconds ← checkedAdd days hours
  let minutes ← checkedMul time.2.1 60
  let seconds ← checkedAdd seconds minutes
  let seconds ← checkedAdd seconds time.2.2.1
  let offset ← checkedMul offsetMinutes 60
  let seconds ← checkedSub seconds offset
  let millis ← checkedMul seconds 1000
  let millis ← checkedAdd millis time.2.2.2
  some (if millis ≥ 0 then some millis.toUInt64 else none)

/-- Parse an ISO-8601 instant into epoch milliseconds. -/
def parseIso8601Checked (value : Text) : Option (Option UInt64) :=
  match splitOnceAny ['T', 't', ' '] (trim value) with
  | none => some none
  | some (date, rest) =>
    match parseDate date with
    | none => some none
    | some date =>
      match splitOffsetChecked rest with
      | none => none
      | some none => some none
      | some (some (time, offset)) =>
        match parseTime time with
        | none => some none
        | some time => instantOfChecked date time offset

end Gabriel.Core
