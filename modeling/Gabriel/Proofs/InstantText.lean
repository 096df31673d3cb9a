import Gabriel.Proofs.InstantZones

/-!
# `Gabriel.Proofs.InstantText`: the instant that a text denotes

`Denotes` says which texts stand for an instant, and for which one: a real date of the proleptic
Gregorian calendar and a real time of the day, with an optional fraction and an optional zone.
`parse_iso8601` tests the month, the hour and the minute, but not the length of the month, and it
computes with whatever numbers there are.

The zone comes first: `split_offset` may cut its text inside a character, and it multiplies before
the time has been looked at. So the condition (`InstantSound`) is about the numbers that the
parsers find, whether the text denotes an instant or not. The theorems:

* `Denotes.read`, `denotes_of_read`: a text that denotes an instant, by the numbers that are read.
* `parseIso8601_of_date`: the parsers on a text whose date is read.
* `instantHandled_of_date`: the instant of sound numbers is read, and it is the one they denote.
* `instantSound_of_handled`: when reading a text is handled, its numbers are sound.
* `instantHandled_iff`: every text is read without a panic, and no instant is invented, exactly when
  its numbers are sound.
-/

set_option autoImplicit false

namespace Gabriel.Core

open Calendar MachineInt Text

/-! ### The text -/

section Texts

variable {value : Text}

/-- A text denotes an instant: a real date and a real time of day, with an optional fraction and
an optional zone. The instant is in milliseconds, cut off. -/
inductive Denotes : Text → ℤ → Prop
  | intro {value date time zone : Text} {separator : Char}
      {year month day hour minute second milli offset : ℤ}
      (text : trim value = date ++ separator :: (time ++ zone))
      (separator : separator = 'T' ∨ separator = 't' ∨ separator = ' ')
      (dateText : DateText date year month day) (isDate : IsDate year month day)
      (timeText : TimeText time hour minute second milli) (isTime : IsTime hour minute second)
      (zoneText : ZoneText zone offset) :
      Denotes value ((civilDay year month day * 86400 + hour * 3600 + minute * 60 + second
        - offset * 60) * 1000 + milli)

/-- Reading a text is handled: with overflow checks and without them the parser returns the same,
and what it returns is the instant that the text denotes. -/
def InstantHandled (value : Text) : Prop :=
  ∃ result, parseIso8601Checked value = some result ∧ parseIso8601 value = some result ∧
    ∀ ms, result = some ms → Denotes value ms.toNat

/-- The numbers of a text are sound: no step on them overflows, and unless the instant is before
the epoch, they are written plainly, as a real date, a real time and a real zone. -/
def InstantSound (value : Text) : Prop :=
  ∀ date rest ymd, splitOnceAny ['T', 't', ' '] (trim value) = some (date, rest) →
    parseDate date = some ymd → ZoneFits rest ∧
      ∀ time offset hms, splitOffset rest = some (some (time, offset)) →
        parseTime time = some hms → InstantFits ymd hms offset ∧
          (0 ≤ instantMillis ymd hms offset →
            ((date.splitOn '-').length = 3 ∧ '+' ∉ date ∧ PlainTime time) ∧
              IsDate ymd.1.toInt ymd.2.1.toInt ymd.2.2.toInt ∧ hms.2.2.1.toInt ≤ 59 ∧
              ZoneReal rest)

/-- A split at the first character of a set puts the text back together. -/
theorem splitOnceAny_some {chars : List Char} {t a b : Text}
    (h : splitOnceAny chars t = some (a, b)) : ∃ c ∈ chars, t = a ++ c :: b := by
  unfold splitOnceAny at h
  have happend := List.takeWhile_append_dropWhile (p := fun c => decide (c ∉ chars)) (l := t)
  have hhead := List.head?_dropWhile_not (fun c => decide (c ∉ chars)) t
  cases hrest : t.dropWhile fun c => decide (c ∉ chars) with
  | nil =>
    rw [hrest] at h
    exact absurd h.symm (Option.some_ne_none _)
  | cons c rest =>
    rw [hrest] at h hhead happend
    obtain ⟨rfl, rfl⟩ := Prod.mk.inj (Option.some.inj h)
    exact ⟨c, by simpa using hhead, happend.symm⟩

section Reading

variable {date rest time : Text} {ymd : Int64 × Int64 × Int64} {offset : Int64}
  {hms : Int64 × Int64 × Int64 × Int64}

/-- The numbers of a text that denotes an instant are written plainly, and they are real. -/
theorem Denotes.read {k : ℤ} (h : Denotes value k)
    (hsplit : splitOnceAny ['T', 't', ' '] (trim value) = some (date, rest))
    (hdate : parseDate date = some ymd) (hfits : ZoneFits rest)
    (hzone : splitOffset rest = some (some (time, offset))) (htime : parseTime time = some hms) :
    ((date.splitOn '-').length = 3 ∧ '+' ∉ date ∧ PlainTime time) ∧
      IsDate ymd.1.toInt ymd.2.1.toInt ymd.2.2.toInt ∧ hms.2.2.1.toInt ≤ 59 ∧ ZoneReal rest := by
  obtain ⟨htext, hseparator, hdateText, hisDate, htimeText, hisTime, hzoneText⟩ := h
  have hplain : ∀ x ∈ _, x ∉ ['T', 't', ' '] := fun x hx hmem => by
    have hletters : x = 'T' ∨ x = 't' ∨ x = ' ' := by simpa using hmem
    rcases hletters with rfl | rfl | rfl <;> exact absurd (hdateText.chars _ hx) (by decide)
  rw [htext, splitOnceAny_append hplain (by simpa using hseparator), Option.some.injEq] at hsplit
  obtain ⟨rfl, rfl⟩ := Prod.mk.inj hsplit
  obtain ⟨rfl, hoffset, hreal⟩ := hzoneText.read htimeText.chars.2 hfits hzone
  obtain ⟨⟨vy, vm, vd⟩, hparts, hplus⟩ := hdateText.read hdate
  obtain ⟨⟨vh, vmin, vs, vmilli⟩, hplainTime⟩ := htimeText.read htime
  refine ⟨⟨hparts, hplus, hplainTime⟩, ?_, ?_, hreal⟩
  · rw [vy, vm, vd]
    exact hisDate
  · rw [vs]
    exact hisTime.2.2.2

/-- Numbers that are written plainly, as a real date, time and zone, denote their instant. -/
theorem denotes_of_read
    (hsplit : splitOnceAny ['T', 't', ' '] (trim value) = some (date, rest))
    (hdate : parseDate date = some ymd) (hfits : ZoneFits rest)
    (hzone : splitOffset rest = some (some (time, offset))) (htime : parseTime time = some hms)
    (hplain : (date.splitOn '-').length = 3 ∧ '+' ∉ date ∧ PlainTime time)
    (hisDate : IsDate ymd.1.toInt ymd.2.1.toInt ymd.2.2.toInt) (hsecond : hms.2.2.1.toInt ≤ 59)
    (hreal : ZoneReal rest) : Denotes value (instantMillis ymd hms offset) := by
  obtain ⟨separator, hseparator, htext⟩ := splitOnceAny_some hsplit
  obtain ⟨zone, rfl, hzoneText⟩ := zoneText_of_read hfits hreal hzone
  obtain ⟨-, hrange⟩ := parseTime_read htime
  exact Denotes.intro htext (by simpa using hseparator)
    (dateText_of_read hdate hplain.1 hplain.2.1) hisDate (timeText_of_read htime hplain.2.2)
    ⟨hrange.hour, hrange.minute, hrange.second.1, hsecond⟩ hzoneText

/-- The parsers on a text whose date is read. -/
theorem parseIso8601_of_date
    (hsplit : splitOnceAny ['T', 't', ' '] (trim value) = some (date, rest))
    (hdate : parseDate date = some ymd) :
    (splitOffsetChecked rest = none → parseIso8601Checked value = none) ∧
    (splitOffset rest = some none → parseIso8601 value = some none) ∧
    (splitOffsetChecked rest = some none → parseIso8601Checked value = some none) ∧
    ∀ time offset,
      (splitOffset rest = some (some (time, offset)) →
        parseIso8601 value = some ((parseTime time).bind fun hms => instantOf ymd hms offset)) ∧
      (splitOffsetChecked rest = some (some (time, offset)) → parseIso8601Checked value
        = (parseTime time).elim (some none) fun hms => instantOfChecked ymd hms offset) := by
  unfold parseIso8601 parseIso8601Checked
  rw [hsplit]
  dsimp only
  rw [hdate]
  dsimp only
  refine ⟨fun h => by rw [h], fun h => by rw [h]; rfl, fun h => by rw [h], fun time offset =>
    ⟨fun h => by rw [h]; rfl, fun h => ?_⟩⟩
  rw [h]
  dsimp only
  cases parseTime time <;> rfl

/-- The instant of sound numbers is read, and it is the one they denote. -/
theorem instantHandled_of_date
    (hsplit : splitOnceAny ['T', 't', ' '] (trim value) = some (date, rest))
    (hdate : parseDate date = some ymd) (hsound : InstantSound value) : InstantHandled value := by
  obtain ⟨hfits, hrest⟩ := hsound date rest ymd hsplit hdate
  obtain ⟨-, hnone, hnone', hread⟩ := parseIso8601_of_date hsplit hdate
  have hsome := splitOffsetChecked_iff.1.mpr hfits
  have hsame := splitOffsetChecked_iff.2 hfits
  obtain ⟨split, hsplit'⟩ := Option.isSome_iff_exists.mp hsome
  rw [hsplit'] at hsame
  cases split with
  | none => exact ⟨none, hnone' hsplit', hnone hsame.symm, fun ms h => absurd h.symm
      (Option.some_ne_none ms)⟩
  | some e =>
    obtain ⟨time, offset⟩ := e
    obtain ⟨hplain, hchecked⟩ := hread time offset
    rw [InstantHandled, hplain hsame.symm, hchecked hsplit']
    cases htime : parseTime time with
    | none => exact ⟨none, rfl, rfl, fun ms h => absurd h.symm (Option.some_ne_none ms)⟩
    | some hms =>
      rw [Option.elim_some, Option.bind_some]
      obtain ⟨hinstant, hstrict⟩ := hrest time offset hms hsame.symm htime
      obtain ⟨year, month, day⟩ := ymd
      obtain ⟨hour, minute, second, milli⟩ := hms
      obtain ⟨millis, hvalue, hchecked', hplain'⟩ := instantOfChecked_of_fits
        (parseDate_range hdate).2 (parseTime_read htime).2 hinstant
      refine ⟨_, hchecked', congrArg some hplain', fun ms hms => ?_⟩
      obtain ⟨hpos, hms⟩ := Option.ite_none_right_eq_some.mp hms
      have hnonneg := (le_iff (show (0 : Int64).toInt = 0 by decide) hvalue).mp hpos
      obtain ⟨hplain'', hisDate, hsecond, hreal⟩ := hstrict hnonneg
      have hms' : (ms.toNat : ℤ) = instantMillis (year, month, day)
          (hour, minute, second, milli) offset := by
        have hhigh := hinstant.high
        rw [← Option.some.inj hms, toUInt64_eq hvalue hnonneg, UInt64.toNat_ofNat']
        omega
      rw [hms']
      exact denotes_of_read hsplit hdate hfits hsame.symm htime hplain'' hisDate hsecond hreal

/-- When reading a text is handled, its numbers are sound. -/
theorem instantSound_of_handled (h : InstantHandled value) : InstantSound value := by
  intro date rest ymd hsplit hdate
  obtain ⟨hpanic, -, -, hread⟩ := parseIso8601_of_date hsplit hdate
  obtain ⟨result, hchecked, -, hdenotes⟩ := h
  have hfits : ZoneFits rest := by
    refine splitOffsetChecked_iff.1.mp (Option.isSome_iff_ne_none.mpr fun hnone => ?_)
    exact absurd ((hpanic hnone).symm.trans hchecked).symm (Option.some_ne_none _)
  refine ⟨hfits, fun time offset hms hzone htime => ?_⟩
  have hsame := splitOffsetChecked_iff.2 hfits
  rw [(hread time offset).2 (hsame.trans hzone), htime, Option.elim_some] at hchecked
  obtain ⟨year, month, day⟩ := ymd
  obtain ⟨hour, minute, second, milli⟩ := hms
  have hrange := (parseDate_range hdate).2
  have hinstant := fits_of_instantOfChecked hrange hchecked
  obtain ⟨millis, hvalue, hchecked', -⟩ :=
    instantOfChecked_of_fits hrange (parseTime_read htime).2 hinstant
  refine ⟨hinstant, fun hnonneg => ?_⟩
  have hpos := (le_iff (show (0 : Int64).toInt = 0 by decide) hvalue).mpr hnonneg
  rw [hchecked', if_pos hpos, Option.some.injEq] at hchecked
  exact (hdenotes _ hchecked.symm).read hsplit hdate hfits hzone htime

end Reading

/-- **An instant is read without a panic, and none is invented, exactly when its numbers are
sound.** -/
theorem instantHandled_iff (value : Text) : InstantHandled value ↔ InstantSound value := by
  refine ⟨instantSound_of_handled, fun hsound => ?_⟩
  cases hsplit : splitOnceAny ['T', 't', ' '] (trim value) with
  | none =>
    refine ⟨none, ?_, ?_, fun ms h => absurd h.symm (Option.some_ne_none ms)⟩
    · unfold parseIso8601Checked
      rw [hsplit]
    · unfold parseIso8601
      rw [hsplit]
  | some e =>
    obtain ⟨date, rest⟩ := e
    cases hdate : parseDate date with
    | none =>
      refine ⟨none, ?_, ?_, fun ms h => absurd h.symm (Option.some_ne_none ms)⟩
      · unfold parseIso8601Checked
        rw [hsplit]
        dsimp only
        rw [hdate]
      · unfold parseIso8601
        rw [hsplit]
        dsimp only
        rw [hdate]
    | some ymd => exact instantHandled_of_date hsplit hdate hsound

-- A zone of four bytes is cut inside a character.
example : parseIso8601Checked "2026-07-29T10:00:00+1é2".toList = none := by decide +kernel

/-- The 31st of February is read as an instant. -/
theorem not_instantHandled_february : ¬ InstantHandled "2026-02-31T00:00:00Z".toList := by
  intro h
  have hsound := instantSound_of_handled h "2026-02-31".toList "00:00:00Z".toList (2026, 2, 31)
    (by decide) (by decide)
  have hreal := (hsound.2 "00:00:00".toList 0 (0, 0, 0, 0) (by decide) (by decide)).2
    (by decide)
  exact absurd hreal.2.1 (by decide)

end Texts

end Gabriel.Core
