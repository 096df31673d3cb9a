import Gabriel.Proofs.Instant

/-!
# `Gabriel.Proofs.CivilDays`: days and dates are the same thing

`civilFromDays` and `daysFromCivil` over all of `i64`, with the overflow checks of a debug build.
`FitsCivil` is the range of days that both can count: a day is in it unless it is one of the last
719468 of `i64`, which have no number from 1 March of the year 0.

Each function is compared with the number of a day in the calendar (`civilDay`, of a year that
starts in March), and two real dates of one day are the same date. So the direction from a date
follows from the one from a day. The theorems:

* `civilFromDaysChecked_civilDay`: the day of a real date has this date, and no step overflows.
* `exists_date`: every day in range has a real date, which is counted as this day.
* `exists_day`: every real date whose day is in range is counted.
* `calendarExact`: days and dates are inverse to each other, and the days come in the order of the
  calendar.
-/

set_option autoImplicit false

namespace Gabriel.Core

open Calendar MachineInt

/-- The days that can be counted from the epoch and from 1 March of the year 0. -/
def FitsCivil (day : ℤ) : Prop :=
  -9223372036854775808 ≤ day ∧ day + epochDay ≤ 9223372036854775807

/-- A month or a day of the month as `days_from_civil` takes it. -/
def asInt64 (n : UInt32) : Int64 := Int64.ofNat n.toNat

/-- The numbers of a month and of a day lose nothing in `u32`. -/
theorem toNat_ofNat_small {a : ℤ} (h : 0 ≤ a ∧ a ≤ 31) :
    ((UInt32.ofNat a.toNat).toNat : ℤ) = a := by
  rw [UInt32.toNat_ofNat', Nat.mod_eq_of_lt (by omega)]
  omega

/-- Nor in `i64`. -/
theorem toInt_asInt64 {n : UInt32} (h : n.toNat ≤ 31) : (asInt64 n).toInt = n.toNat := by
  unfold asInt64
  rw [← Int64.ofInt_eq_ofNat, toInt_ofInt ⟨by omega, by omega⟩]

/-- The day of a date is its number from 1 March of the year 0, less the days until the epoch. -/
theorem civilDay_add_epochDay (y m d : ℤ) :
    civilDay y m d + epochDay = dayOfDate (marchDate y m d) := by
  unfold civilDay
  omega

/-- Two real dates of one day are the same date. -/
theorem eq_of_dayOfDate {y m d y' m' d' : ℤ} (h : IsDate y m d) (h' : IsDate y' m' d')
    (hday : dayOfDate (marchDate y m d) = dayOfDate (marchDate y' m' d')) :
    (y, m, d) = (y', m', d') := by
  have hmarch : marchDate y m d = marchDate y' m' d' := by
    rw [← dateOfDay_dayOfDate h, hday, dateOfDay_dayOfDate h']
  obtain ⟨⟨hy, hm, hd⟩, -⟩ := marchDate_fields (y := y) d h.month
  obtain ⟨⟨hy', hm', hd'⟩, -⟩ := marchDate_fields (y := y') d' h'.month
  rw [hmarch] at hy hm hd
  rw [hy.trans hy'.symm, hm.trans hm'.symm, hd.trans hd'.symm]

/-! ### From the day to the date -/

/-- The day of a real date has this date, whatever the year: no step overflows. -/
theorem civilFromDaysChecked_civilDay {days y : Int64} {m d : UInt32}
    (hdate : IsDate y.toInt m.toNat d.toNat)
    (hday : days.toInt = civilDay y.toInt m.toNat d.toNat) (hfits : FitsCivil days.toInt) :
    civilFromDaysChecked days = some (y, m, d) := by
  obtain ⟨⟨hy, hm, hd⟩, -⟩ := marchDate_fields (y := y.toInt) (d.toNat : ℤ) hdate.month
  have hback : dateOfDay (days.toInt + epochDay) = marchDate y.toInt m.toNat d.toNat := by
    rw [hday, civilDay_add_epochDay, dateOfDay_dayOfDate hdate]
  rw [civilFromDaysChecked_eq rfl hfits.2, hback, ← hy, ← hm, ← hd, Int64.ofInt_toInt,
    Int.toNat_natCast, Int.toNat_natCast, UInt32.ofNat_toNat, UInt32.ofNat_toNat]

/-- A day has a real date, which is counted as this day. -/
theorem exists_date {days : Int64} (hfits : FitsCivil days.toInt) :
    ∃ (y : Int64) (m d : UInt32), IsDate y.toInt m.toNat d.toNat ∧
      days.toInt = civilDay y.toInt m.toNat d.toNat := by
  obtain ⟨y, m, d, hdate, hmarch⟩ := exists_isDate_of_day (days.toInt + epochDay)
  have hday : dayOfDate (marchDate y m d) = days.toInt + epochDay := by
    rw [← hmarch, dayOfDate_dateOfDay]
  -- A year is not longer than its days.
  have hyear : Fits y := by
    obtain ⟨hlow, hhigh⟩ := hfits
    obtain ⟨⟨-, -, hd⟩, ⟨hy0, hy1⟩, hmonth⟩ := marchDate_fields (y := y) d hdate.month
    obtain ⟨hd0, hd1⟩ := hdate.day_le
    unfold dayOfDate monthStart yearStart epochDay at hday
    unfold epochDay at hhigh
    exact ⟨by omega, by omega⟩
  obtain ⟨hm1, hm12⟩ := hdate.month
  obtain ⟨hd1, hd31⟩ := hdate.day_le
  refine ⟨Int64.ofInt y, UInt32.ofNat m.toNat, UInt32.ofNat d.toNat, ?_, ?_⟩
  · rw [toInt_ofInt_of_fits hyear, toNat_ofNat_small ⟨by omega, by omega⟩,
      toNat_ofNat_small ⟨by omega, by omega⟩]
    exact hdate
  · rw [toInt_ofInt_of_fits hyear, toNat_ofNat_small ⟨by omega, by omega⟩,
      toNat_ofNat_small ⟨by omega, by omega⟩]
    unfold civilDay
    omega

/-! ### From the date to the day -/

/-- A real date is counted, when its day is in range: no step overflows. -/
theorem exists_day {y : Int64} {m d : UInt32} (hdate : IsDate y.toInt m.toNat d.toNat)
    (hfits : FitsCivil (civilDay y.toInt m.toNat d.toNat)) :
    ∃ days, daysFromCivilChecked y (asInt64 m) (asInt64 d) = some days ∧
      days.toInt = civilDay y.toInt m.toNat d.toNat := by
  obtain ⟨⟨hy, hm, hd⟩, -, hmonth⟩ := marchDate_fields (y := y.toInt) (d.toNat : ℤ) hdate.month
  obtain ⟨hm1, hm12⟩ := hdate.month
  obtain ⟨hd1, hd31⟩ := hdate.day_le
  have hday := civilDay_add_epochDay y.toInt m.toNat d.toNat
  obtain ⟨hlow, hhigh⟩ := hfits
  exact exists_daysFromCivilChecked hy ((toInt_asInt64 (by omega)).trans hm)
    ((toInt_asInt64 (by omega)).trans hd) hmonth (hd ▸ ⟨hd1, hd31⟩) hlow (hday ▸ hhigh)

/-- When no step overflows on the way to the day and back, the day is in range. -/
theorem fitsCivil_of_checked {y days : Int64} {m d : UInt32} {date : Int64 × UInt32 × UInt32}
    (hdate : IsDate y.toInt m.toNat d.toNat)
    (hdays : daysFromCivilChecked y (asInt64 m) (asInt64 d) = some days)
    (hback : civilFromDaysChecked days = some date) :
    FitsCivil (civilDay y.toInt m.toNat d.toNat) := by
  obtain ⟨hm1, hm12⟩ := hdate.month
  obtain ⟨hd1, hd31⟩ := hdate.day_le
  have vm : (asInt64 m).toInt = m.toNat := toInt_asInt64 (by omega)
  have vd : (asInt64 d).toInt = d.toNat := toInt_asInt64 (by omega)
  have hvalue := toInt_of_daysFromCivilChecked (by rw [vm]; exact hdate.month) hdays
  rw [vm, vd] at hvalue
  obtain ⟨z, hz, -⟩ := Option.bind_eq_some_iff.mp hback
  rw [← hvalue]
  exact ⟨(fits_toInt days).1, (of_checkedAdd (b := 719468) rfl (by decide) hz).1.2⟩

/-- **Days and dates are the same thing.** Every day within 10^15 days of the epoch has a real date
of the calendar, this date is counted as the day, and the next day has the next date, with no step
that overflows; and a real date leads to a day and back to itself, with no step that overflows,
exactly when its day can be counted from the epoch and from 1 March of the year 0. What the checks
let through is what is computed without them. -/
theorem calendarExact :
    (∀ days : Int64, -1000000000000000 ≤ days.toInt → days.toInt ≤ 1000000000000000 →
      ∃ y m d, civilFromDaysChecked days = some (y, m, d) ∧ IsDate y.toInt m.toNat d.toNat ∧
        daysFromCivilChecked y (asInt64 m) (asInt64 d) = some days ∧
        ∃ y' m' d', civilFromDaysChecked (days + 1) = some (y', m', d') ∧
          (y'.toInt, (m'.toNat : ℤ), (d'.toNat : ℤ)) = nextDate y.toInt m.toNat d.toNat) ∧
      (∀ (y : Int64) (m d : UInt32), IsDate y.toInt m.toNat d.toNat →
        ((∃ days, daysFromCivilChecked y (asInt64 m) (asInt64 d) = some days ∧
          civilFromDaysChecked days = some (y, m, d)) ↔
            FitsCivil (civilDay y.toInt m.toNat d.toNat))) ∧
      (∀ days date, civilFromDaysChecked days = some date → civilFromDays days = date) ∧
      ∀ y m d days, daysFromCivilChecked y m d = some days → daysFromCivil y m d = days := by
  refine ⟨?_, ?_, fun _ _ h => civilFromDays_of_checked h,
    fun _ _ _ _ h => daysFromCivil_of_checked h⟩
  -- Both the day and the next one are in the range, so both have a date.
  · intro days hlow hhigh
    have hnext : (days + 1).toInt = days.toInt + 1 :=
      toInt_add_of_fits (b := 1) rfl (by decide) ⟨by omega, by omega⟩
    have hfits : FitsCivil days.toInt := ⟨by omega, by unfold epochDay; omega⟩
    have hfits' : FitsCivil (days + 1).toInt := by
      rw [hnext]
      exact ⟨by omega, by unfold epochDay; omega⟩
    -- The date is a real one and is counted as this day.
    obtain ⟨y, m, d, hdate, hday⟩ := exists_date hfits
    obtain ⟨y', m', d', hdate', hday'⟩ := exists_date hfits'
    obtain ⟨days', hcount, hvalue⟩ := exists_day hdate (hday ▸ hfits)
    obtain rfl : days' = days := Int64.toInt_inj.mp (hvalue.trans hday.symm)
    refine ⟨y, m, d, civilFromDaysChecked_civilDay hdate hday hfits, hdate, hcount, y', m', d',
      civilFromDaysChecked_civilDay hdate' hday' hfits', ?_⟩
    -- The next date is the date of the next day, since a day has one date only.
    have hafter := dayOfDate_nextDate hdate
    have hreal := isDate_nextDate hdate
    generalize nextDate y.toInt m.toNat d.toNat = after at hafter hreal ⊢
    obtain ⟨nextYear, nextMonth, nextDay⟩ := after
    refine eq_of_dayOfDate hdate' hreal ?_
    rw [hafter, ← civilDay_add_epochDay, ← civilDay_add_epochDay, ← hday, ← hday',
      hnext]
    omega
  · intro y m d hdate
    constructor
    -- The checked functions only succeed where the day fits.
    · rintro ⟨days, hdays, hback⟩
      exact fitsCivil_of_checked hdate hdays hback
    · intro hfits
      obtain ⟨days, hdays, hvalue⟩ := exists_day hdate hfits
      exact ⟨days, hdays, civilFromDaysChecked_civilDay hdate hvalue (hvalue.symm ▸ hfits)⟩

/-- A real date of a late year is not counted: its day does not fit. -/
theorem not_calendarExact_late :
    ¬ ∀ (y : Int64) (m d : UInt32), IsDate y.toInt m.toNat d.toNat →
      ∃ days, daysFromCivilChecked y (asInt64 m) (asInt64 d) = some days ∧
        civilFromDaysChecked days = some (y, m, d) := by
  intro h
  obtain ⟨days, hdays, -⟩ := h 9223372036854775807 1 1 (by decide)
  have hnone : daysFromCivilChecked 9223372036854775807 (asInt64 1) (asInt64 1) = none := by
    decide +kernel
  rw [hnone] at hdays
  exact Option.some_ne_none days hdays.symm

end Gabriel.Core
