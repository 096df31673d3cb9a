import Gabriel.Lib.Text
import Mathlib

/-!
# `Gabriel.Core.Numbers`: integers as text, and calendar days

The integer parsing of `str::parse` for `i64` and `usize`, decimal formatting, and the calendar
arithmetic of `gabriel-core/src/lib.rs`. The arithmetic is that of the machine types: an
overflow wraps, as in a release build.

The definitions:

* `parseI64`, `parseUsize`: read an integer; with a sign, and with a bound.
* `natText`, `padded`, `paddedHex`: write a number.
* `civilFromDays`, `daysFromCivil`: from a day to its date, and back.
* `formatIso8601`: write an instant.
-/

set_option autoImplicit false

namespace Gabriel.Core

open Text

/-- The value of a run of ASCII digits, or `none` when the text is empty or holds another
character. -/
def parseDigits (t : Text) : Option Nat :=
  if t ≠ [] ∧ t.all Char.isDigit then some (Nat.ofDigitChars 10 t 0) else none

/-- `str::parse::<i64>`: an optional sign, then digits, in range. -/
def parseI64 (t : Text) : Option Int64 := do
  let value : Int ← match t with
    | '-' :: digits => (parseDigits digits).map fun n => -(n : Int)
    | '+' :: digits => (parseDigits digits).map fun n => (n : Int)
    | digits => (parseDigits digits).map fun n => (n : Int)
  if -(2 : Int) ^ 63 ≤ value ∧ value < (2 : Int) ^ 63 then some (Int64.ofInt value) else none

/-- `str::parse::<usize>` on a 64-bit target: an optional `+`, then digits, in range. -/
def parseUsize (t : Text) : Option Nat := do
  let value ← match t with
    | '+' :: digits => parseDigits digits
    | digits => parseDigits digits
  if value < 2 ^ 64 then some value else none

/-- The decimal digits of a number. -/
def natText (n : Nat) : Text := Nat.toDigits 10 n

/-- The decimal digits of a number, padded with zeros to `width`. -/
def padded (width n : Nat) : Text :=
  List.replicate (width - (natText n).length) '0' ++ natText n

/-- `{n:0width}` for a signed number: the sign counts towards the width. -/
def paddedInt (width : Nat) (n : Int64) : Text :=
  if n < 0 then '-' :: padded (width - 1) n.toInt.natAbs else padded width n.toInt.natAbs

/-- The hexadecimal digits of a number, padded with zeros to `width`. -/
def paddedHex (width n : Nat) : Text :=
  let digits := Nat.toDigits 16 n
  List.replicate (width - digits.length) '0' ++ digits

/-- `usize::MAX` on a 64-bit target. -/
def usizeMax : Nat := 2 ^ 64 - 1

/-- Days since the epoch to a calendar date. -/
def civilFromDays (days : Int64) : Int64 × UInt32 × UInt32 :=
  let z := days + 719468
  let era := (if z ≥ 0 then z else z - 146096) / 146097
  let doe := z - era * 146097
  let yoe := (doe - doe / 1460 + doe / 36524 - doe / 146096) / 365
  let y := yoe + era * 400
  let doy := doe - (365 * yoe + yoe / 4 - yoe / 100)
  let mp := (5 * doy + 2) / 153
  let d := (doy - (153 * mp + 2) / 5 + 1).toUInt64.toUInt32
  let m := (if mp < 10 then mp + 3 else mp - 9).toUInt64.toUInt32
  (if m ≤ 2 then y + 1 else y, m, d)

/-- Days since the Unix epoch for a calendar date. -/
def daysFromCivil (y m d : Int64) : Int64 :=
  let y := if m ≤ 2 then y - 1 else y
  let era := (if y ≥ 0 then y else y - 399) / 400
  let yoe := y - era * 400
  let mp := (m + 9) % 12
  let doy := (153 * mp + 2) / 5 + d - 1
  let doe := yoe * 365 + yoe / 4 - yoe / 100 + doy
  era * 146097 + doe - 719468

/-- The fields of an instant in the ISO-8601 layout. -/
def isoText (year : Int64) (month day hour minute second millis : Nat) : Text :=
  paddedInt 4 year ++ '-' :: padded 2 month ++ '-' :: padded 2 day
    ++ 'T' :: padded 2 hour ++ ':' :: padded 2 minute ++ ':' :: padded 2 second
    ++ '.' :: padded 3 millis ++ ['Z']

/-- Format epoch milliseconds as `2026-07-29T13:54:00.123Z`. -/
def formatIso8601 (ms : UInt64) : Text :=
  let secs := (ms / 1000).toInt64.toInt
  let civil := civilFromDays (Int64.ofInt (secs / 86400))
  let timeOfDay := secs % 86400
  isoText civil.1 civil.2.1.toNat civil.2.2.toNat (timeOfDay / 3600).toNat
    (timeOfDay % 3600 / 60).toNat (timeOfDay % 60).toNat (ms % 1000).toNat

/-- A character of a number is an ASCII digit. -/
theorem isDigit_of_mem_natText {n : Nat} {c : Char} (h : c ∈ natText n) : c.isDigit :=
  Nat.isDigit_of_mem_toDigits (by decide) (by decide) h

/-- A number is read back. -/
theorem parseDigits_natText (n : Nat) : parseDigits (natText n) = some n := by
  have hdigits : (natText n).all Char.isDigit = true :=
    List.all_eq_true.mpr fun _ hc => isDigit_of_mem_natText hc
  rw [parseDigits, if_pos ⟨Nat.toDigits_ne_nil, hdigits⟩]
  exact congrArg some Nat.ofDigitChars_ten_toDigits

/-- Two numbers with the same digits are the same. -/
theorem natText_injective : Function.Injective natText := by
  intro m n h
  have hparsed : parseDigits (natText m) = parseDigits (natText n) := by rw [h]
  rw [parseDigits_natText, parseDigits_natText] at hparsed
  exact Option.some.inj hparsed

/-- A number in range is read back. -/
theorem parseUsize_natText {n : Nat} (h : n < 2 ^ 64) : parseUsize (natText n) = some n := by
  unfold parseUsize
  split
  · rename_i digits heq
    have hplus : '+' ∈ natText n := by
      rw [heq]
      exact List.mem_cons_self
    exact absurd (isDigit_of_mem_natText hplus) (by decide)
  · rw [parseDigits_natText]
    show (if n < 2 ^ 64 then some n else none) = some n
    rw [if_pos h]

/-- The digits behind an optional plus sign, if the number fits. -/
theorem parseUsize_eq (value : Text) :
    parseUsize value = (parseDigits (if value.head? = some '+' then value.tail else value)).filter
      (· < 2 ^ 64) := by
  have hfits : ∀ o : Option Nat, (o.bind fun n => if n < 2 ^ 64 then some n else none)
      = o.filter (· < 2 ^ 64) := by
    intro o
    cases o with
    | none => rfl
    | some n =>
      rw [Option.bind_some, Option.filter_some]
      by_cases hn : n < 2 ^ 64
      · rw [if_pos hn, if_pos (decide_eq_true hn)]
      · rw [if_neg hn, if_neg (fun h => hn (of_decide_eq_true h))]
  unfold parseUsize
  simp only [Option.bind_eq_bind]
  split
  · exact hfits _
  · rename_i hplus
    have hhead : ¬ value.head? = some '+' := by
      intro hhead
      obtain ⟨rest, rfl⟩ := List.head?_eq_some_iff.mp hhead
      exact hplus rest rfl
    rw [if_neg hhead]
    exact hfits _

/-- A number that was parsed is below `2 ^ 64`. -/
theorem lt_of_parseUsize {value : Text} {n : Nat} (h : parseUsize value = some n) : n < 2 ^ 64 := by
  rw [parseUsize_eq, Option.filter_eq_some_iff] at h
  exact of_decide_eq_true h.2

/-- A character of a padded number is an ASCII digit. -/
theorem isDigit_of_mem_padded {width n : Nat} {c : Char} (h : c ∈ padded width n) :
    c.isDigit := by
  rcases List.mem_append.mp h with h | h
  · rw [List.eq_of_mem_replicate h]
    decide
  · exact isDigit_of_mem_natText h

/-- A character of a formatted instant is a digit, a sign, a separator or a letter `T`, `Z`. -/
theorem mem_isoText {year : Int64} {month day hour minute second millis : Nat} {c : Char}
    (h : c ∈ isoText year month day hour minute second millis) :
    c.isDigit ∨ c ∈ "-T:.Z".toList := by
  have hyear : ∀ y : Int64, c ∈ paddedInt 4 y → c.isDigit ∨ c ∈ "-T:.Z".toList := by
    intro y hy
    unfold paddedInt at hy
    split at hy
    · rcases List.mem_cons.mp hy with rfl | hy
      · exact Or.inr (by decide)
      · exact Or.inl (isDigit_of_mem_padded hy)
    · exact Or.inl (isDigit_of_mem_padded hy)
  simp only [isoText, List.append_assoc, List.cons_append, List.mem_append, List.mem_cons,
    List.not_mem_nil, or_false] at h
  rcases h with h | rfl | h | rfl | h | rfl | h | rfl | h | rfl | h | rfl | h | rfl
  · exact hyear _ h
  all_goals first
    | exact Or.inr (by decide)
    | exact Or.inl (isDigit_of_mem_padded h)

end Gabriel.Core
