import Gabriel.Core.Checked
import Gabriel.Lib.Calendar
import Gabriel.Lib.MachineInt

/-!
# `Gabriel.Proofs.Instant`: calendar days in machine arithmetic

`civilFromDays` and `daysFromCivil` compute on `Int64`, and so does the instant that is made of a
date, a time and a zone. Each has a twin in `Core/Checked` that fails where a step overflows. So the
two questions are apart: when no step overflows, and what the value is then.

The calendar of `Lib/Calendar` counts its years from March and its days from 1 March of the year 0,
on integers. The code counts both from January and from the epoch, with the same four steps, which
are proved one by one. The theorems:

* `civilFromDaysChecked_eq`: the date of a day is that of the calendar, and no step overflows.
* `exists_daysFromCivilChecked`: the same for the day of a date, for every date whose day fits.
* `toInt_of_daysFromCivilChecked`: whatever the year, a day number that did not overflow is right.
* `instantOfChecked_of_fits`, `fits_of_instantOfChecked`: the steps of an instant do not overflow
  exactly when its numbers are in range (`InstantFits`), and the value is then `instantMillis`.
-/

set_option autoImplicit false

namespace Gabriel.Core

open Calendar MachineInt Text

/-! ### The calendar -/

/-- The year of a date, counted from January. -/
def januaryYear (date : MarchDate) : ℤ := if date.month < 10 then date.year else date.year + 1

/-- The month of a date, with January as the first. -/
def januaryMonth (date : MarchDate) : ℤ :=
  if date.month < 10 then date.month + 3 else date.month - 9

/-- A month that counts from March is a month that counts from January. -/
theorem januaryMonth_range {date : MarchDate} (h : 0 ≤ date.month ∧ date.month ≤ 11) :
    1 ≤ januaryMonth date ∧ januaryMonth date ≤ 12 := by
  unfold januaryMonth
  split
  · omega
  · omega

/-- The days from 1 March of the year 0 to the epoch. -/
def epochDay : ℤ := 719468

/-- The last day whose milliseconds fit in `i64`, counted from the epoch. -/
def latestDay : ℤ := 106751991167

/-! ### The date of a day -/

/-- The steps of a date, one after the other. -/
theorem civilFromDaysChecked_of_steps
    {days z start eraDays doe a1 a2 a3 eraYears y b1 b2 b3 doy c1 c2 e1 e2 f1 f2 m year : Int64}
    (hz : checkedAdd days 719468 = some z)
    (hstart : (if z ≥ 0 then some z else checkedSub z 146096) = some start)
    (heraDays : checkedMul (start / 146097) 146097 = some eraDays)
    (hdoe : checkedSub z eraDays = some doe) (h1460 : checkedSub doe (doe / 1460) = some a1)
    (h36524 : checkedAdd a1 (doe / 36524) = some a2)
    (h146096 : checkedSub a2 (doe / 146096) = some a3)
    (heraYears : checkedMul (start / 146097) 400 = some eraYears)
    (hy : checkedAdd (a3 / 365) eraYears = some y) (h365 : checkedMul 365 (a3 / 365) = some b1)
    (hleap : checkedAdd b1 (a3 / 365 / 4) = some b2)
    (hcentury : checkedSub b2 (a3 / 365 / 100) = some b3) (hdoy : checkedSub doe b3 = some doy)
    (h5 : checkedMul 5 doy = some c1) (h2 : checkedAdd c1 2 = some c2)
    (h153 : checkedMul 153 (c2 / 153) = some e1) (h2' : checkedAdd e1 2 = some e2)
    (hday : checkedSub doy (e2 / 5) = some f1) (hday' : checkedAdd f1 1 = some f2)
    (hm : (if c2 / 153 < 10 then checkedAdd (c2 / 153) 3 else checkedSub (c2 / 153) 9) = some m)
    (hyear : (if m.toUInt64.toUInt32 ≤ 2 then checkedAdd y 1 else some y) = some year) :
    civilFromDaysChecked days = some (year, m.toUInt64.toUInt32, f2.toUInt64.toUInt32) := by
  unfold civilFromDaysChecked
  -- Each line feeds the value of a step to the rest of the `do` block.
  refine Option.bind_eq_some_iff.mpr ⟨_, hz, ?_⟩
  refine Option.bind_eq_some_iff.mpr ⟨_, hstart, ?_⟩
  refine Option.bind_eq_some_iff.mpr ⟨_, heraDays, ?_⟩
  refine Option.bind_eq_some_iff.mpr ⟨_, hdoe, ?_⟩
  refine Option.bind_eq_some_iff.mpr ⟨_, h1460, ?_⟩
  refine Option.bind_eq_some_iff.mpr ⟨_, h36524, ?_⟩
  refine Option.bind_eq_some_iff.mpr ⟨_, h146096, ?_⟩
  refine Option.bind_eq_some_iff.mpr ⟨_, heraYears, ?_⟩
  refine Option.bind_eq_some_iff.mpr ⟨_, hy, ?_⟩
  refine Option.bind_eq_some_iff.mpr ⟨_, h365, ?_⟩
  refine Option.bind_eq_some_iff.mpr ⟨_, hleap, ?_⟩
  refine Option.bind_eq_some_iff.mpr ⟨_, hcentury, ?_⟩
  refine Option.bind_eq_some_iff.mpr ⟨_, hdoy, ?_⟩
  refine Option.bind_eq_some_iff.mpr ⟨_, h5, ?_⟩
  refine Option.bind_eq_some_iff.mpr ⟨_, h2, ?_⟩
  refine Option.bind_eq_some_iff.mpr ⟨_, h153, ?_⟩
  refine Option.bind_eq_some_iff.mpr ⟨_, h2', ?_⟩
  refine Option.bind_eq_some_iff.mpr ⟨_, hday, ?_⟩
  refine Option.bind_eq_some_iff.mpr ⟨_, hday', ?_⟩
  refine Option.bind_eq_some_iff.mpr ⟨_, hm, ?_⟩
  refine Option.bind_eq_some_iff.mpr ⟨_, hyear, ?_⟩
  rfl

/-- The year of a day of an era: no step overflows. -/
theorem exists_yearOfEra {doe : Int64} {k : ℤ} (h : doe.toInt = k) (hk : 0 ≤ k ∧ k ≤ 146096) :
    ∃ a1 a2 a3, checkedSub doe (doe / 1460) = some a1 ∧ checkedAdd a1 (doe / 36524) = some a2 ∧
      checkedSub a2 (doe / 146096) = some a3 ∧ (a3 / 365).toInt = yearOfEra k := by
  have h1460 : (doe / 1460).toInt = k / 1460 := toInt_div h (by decide) hk.1 (by decide)
  have h36524 : (doe / 36524).toInt = k / 36524 := toInt_div h (by decide) hk.1 (by decide)
  have h146096 : (doe / 146096).toInt = k / 146096 := toInt_div h (by decide) hk.1 (by decide)
  obtain ⟨a1, ha1, v1⟩ := exists_checkedSub h h1460 ⟨by omega, by omega⟩
  obtain ⟨a2, ha2, v2⟩ := exists_checkedAdd v1 h36524 ⟨by omega, by omega⟩
  obtain ⟨a3, ha3, v3⟩ := exists_checkedSub v2 h146096 ⟨by omega, by omega⟩
  exact ⟨a1, a2, a3, ha1, ha2, ha3, toInt_div v3 (by decide) (by omega) (by decide)⟩

/-- The day of the year: no step overflows. -/
theorem exists_dayOfYear {doe yoe : Int64} {k w : ℤ} (hdoe : doe.toInt = k) (hyoe : yoe.toInt = w)
    (hk : 0 ≤ k ∧ k ≤ 146096) (hw : 0 ≤ w ∧ w ≤ 399) :
    ∃ b1 b2 b3 doy, checkedMul 365 yoe = some b1 ∧ checkedAdd b1 (yoe / 4) = some b2 ∧
      checkedSub b2 (yoe / 100) = some b3 ∧ checkedSub doe b3 = some doy ∧
      doy.toInt = k - (365 * w + w / 4 - w / 100) := by
  have h4 : (yoe / 4).toInt = w / 4 := toInt_div hyoe (by decide) hw.1 (by decide)
  have h100 : (yoe / 100).toInt = w / 100 := toInt_div hyoe (by decide) hw.1 (by decide)
  obtain ⟨b1, hb1, v1⟩ := exists_checkedMul (a := 365) (x := 365) (by decide) hyoe
    ⟨by omega, by omega⟩
  obtain ⟨b2, hb2, v2⟩ := exists_checkedAdd v1 h4 ⟨by omega, by omega⟩
  obtain ⟨b3, hb3, v3⟩ := exists_checkedSub v2 h100 ⟨by omega, by omega⟩
  obtain ⟨doy, hdoy, vdoy⟩ := exists_checkedSub hdoe v3 ⟨by omega, by omega⟩
  exact ⟨b1, b2, b3, doy, hb1, hb2, hb3, hdoy, vdoy⟩

/-- The month and the day of a day of the year: no step overflows. -/
theorem exists_monthOf {doy : Int64} {v : ℤ} (h : doy.toInt = v) (hv : 0 ≤ v ∧ v ≤ 366) :
    ∃ c1 c2 e1 e2 f1 f2, checkedMul 5 doy = some c1 ∧ checkedAdd c1 2 = some c2 ∧
      checkedMul 153 (c2 / 153) = some e1 ∧ checkedAdd e1 2 = some e2 ∧
      checkedSub doy (e2 / 5) = some f1 ∧ checkedAdd f1 1 = some f2 ∧
      (c2 / 153).toInt = monthOf v ∧ f2.toInt = v - monthStart (monthOf v) + 1 := by
  obtain ⟨c1, hc1, v1⟩ := exists_checkedMul (a := 5) (x := 5) (by decide) h ⟨by omega, by omega⟩
  obtain ⟨c2, hc2, v2⟩ := exists_checkedAdd (b := 2) (y := 2) v1 (by decide) ⟨by omega, by omega⟩
  have hmonth : (c2 / 153).toInt = monthOf v := toInt_div v2 (by decide) (by omega) (by decide)
  obtain ⟨p, hp⟩ : ∃ p, p = monthOf v := ⟨_, rfl⟩
  have hp' : 0 ≤ p ∧ p ≤ 11 := by
    unfold monthOf at hp
    omega
  rw [← hp] at hmonth ⊢
  obtain ⟨e1, he1, v3⟩ := exists_checkedMul (a := 153) (x := 153) (by decide) hmonth
    ⟨by omega, by omega⟩
  obtain ⟨e2, he2, v4⟩ := exists_checkedAdd (b := 2) (y := 2) v3 (by decide) ⟨by omega, by omega⟩
  have hstart : (e2 / 5).toInt = monthStart p := toInt_div v4 (by decide) (by omega) (by decide)
  have hstart' : 0 ≤ monthStart p ∧ monthStart p ≤ 337 := by
    unfold monthStart
    omega
  obtain ⟨f1, hf1, v5⟩ := exists_checkedSub h hstart ⟨by omega, by omega⟩
  obtain ⟨f2, hf2, v6⟩ := exists_checkedAdd (b := 1) (y := 1) v5 (by decide) ⟨by omega, by omega⟩
  exact ⟨c1, c2, e1, e2, f1, f2, hc1, hc2, he1, he2, hf1, hf2, hmonth, v6⟩

/-- The month and the year, counted from January: no step overflows. -/
theorem exists_january {mp y : Int64} (date : MarchDate) (hmp : mp.toInt = date.month)
    (hy : y.toInt = date.year) (hmonth : 0 ≤ date.month ∧ date.month ≤ 11)
    (hyear : Roomy (date.year + 1)) :
    ∃ m year, (if mp < 10 then checkedAdd mp 3 else checkedSub mp 9) = some m ∧
      (if m.toUInt64.toUInt32 ≤ 2 then checkedAdd y 1 else some y) = some year ∧
      m.toInt = januaryMonth date ∧ year.toInt = januaryYear date := by
  -- The two comparisons of the source, read on the mathematical values.
  have hlt : mp < 10 ↔ date.month < 10 := lt_iff hmp (by decide)
  have hcast : ∀ m : Int64, 0 ≤ m.toInt → m.toInt ≤ 12 →
      (m.toUInt64.toUInt32 ≤ 2 ↔ m.toInt ≤ 2) := by
    intro m h0 h1
    rw [toUInt64_eq rfl h0, UInt64.toUInt32_ofNat', UInt32.le_iff_toNat_le, UInt32.toNat_ofNat']
    show m.toInt.toNat % 2 ^ 32 ≤ 2 ↔ _
    omega
  unfold januaryMonth januaryYear
  -- `mp < 10` is March to December, where the year stays; below it the year moves on.
  by_cases hspring : date.month < 10
  · obtain ⟨m, hm, vm⟩ := exists_checkedAdd (b := 3) (y := 3) hmp (by decide)
      ⟨by omega, by omega⟩
    rw [if_pos (hlt.mpr hspring), if_pos hspring, if_pos hspring]
    have hlate : ¬ m.toUInt64.toUInt32 ≤ 2 := by
      rw [hcast m (by omega) (by omega)]
      omega
    exact ⟨m, y, hm, if_neg hlate, vm, hy⟩
  · obtain ⟨m, hm, vm⟩ := exists_checkedSub (b := 9) (y := 9) hmp (by decide)
      ⟨by omega, by omega⟩
    obtain ⟨year, hnext, vyear⟩ := exists_checkedAdd (b := 1) (y := 1) hy (by decide) hyear.fits
    rw [if_neg fun h => hspring (hlt.mp h), if_neg hspring, if_neg hspring]
    have hearly : m.toUInt64.toUInt32 ≤ 2 := by
      rw [hcast m (by omega) (by omega)]
      omega
    exact ⟨m, year, hm, (if_pos hearly).trans hnext, vm, vyear⟩

/-- The date of a day, for every day that can be counted from 1 March of the year 0: no step
overflows. -/
theorem civilFromDaysChecked_eq {days : Int64} {n : ℤ} (hn : days.toInt = n)
    (hhigh : n + epochDay ≤ 9223372036854775807) :
    civilFromDaysChecked days = some (Int64.ofInt (januaryYear (dateOfDay (n + epochDay))),
      UInt32.ofNat (januaryMonth (dateOfDay (n + epochDay))).toNat,
      UInt32.ofNat (dateOfDay (n + epochDay)).day.toNat) := by
  obtain ⟨hlow, -⟩ : Fits n := hn ▸ fits_toInt days
  unfold epochDay at hhigh ⊢
  obtain ⟨hm0, hm1, hd0, hd1⟩ := dateOfDay_range (n + 719468)
  obtain ⟨z, hz, vz⟩ := exists_checkedAdd (b := 719468) (y := 719468) hn (by decide)
    ⟨by omega, hhigh⟩
  -- The floor division by 146097: a negative day is first moved to the start of its era.
  obtain ⟨start, hstart, vpos, vneg⟩ :
      ∃ start, (if z ≥ 0 then some z else checkedSub z 146096) = some start ∧
        (0 ≤ n + 719468 → start.toInt = n + 719468) ∧
        (n + 719468 < 0 → start.toInt = n + 719468 - (146097 - 1)) := by
    by_cases hpos : z ≥ 0
    · have hle := (le_iff (a := 0) (x := 0) (by decide) vz).mp hpos
      exact ⟨z, if_pos hpos, fun _ => vz, fun hneg => absurd hle (not_le.mpr hneg)⟩
    · have hneg : ¬ 0 ≤ n + 719468 := fun h =>
        hpos ((le_iff (a := 0) (x := 0) (by decide) vz).mpr h)
      obtain ⟨start, hstart, vstart⟩ := exists_checkedSub (b := 146096) (y := 146096) vz (by decide)
        ⟨by omega, by omega⟩
      exact ⟨start, (if_neg hpos).trans hstart, fun h => absurd h hneg, fun _ => by omega⟩
  have vera : (start / 146097).toInt = (n + 719468) / 146097 :=
    toInt_floorDiv (by decide) (by decide) vpos vneg
  -- Names for the era, the day of the era, its year and the day of the year keep the goals of
  -- `omega` small.
  obtain ⟨e, he⟩ : ∃ e, e = (n + 719468) / 146097 := ⟨_, rfl⟩
  rw [← he] at vera
  obtain ⟨eraDays, heraDays, vdays⟩ := exists_checkedMul (b := 146097) (y := 146097) vera
    (by decide) ⟨by omega, by omega⟩
  obtain ⟨doe, hdoe, vdoe⟩ := exists_checkedSub vz vdays ⟨by omega, by omega⟩
  obtain ⟨k, hk⟩ : ∃ k, k = n + 719468 - e * 146097 := ⟨_, rfl⟩
  rw [← hk] at vdoe
  have hk' : 0 ≤ k ∧ k ≤ 146096 := by omega
  obtain ⟨hw0, hw1, hfirst, hlast⟩ := yearOfEra_spec hk'.1 hk'.2
  obtain ⟨a1, a2, a3, ha1, ha2, ha3, vyoe⟩ := exists_yearOfEra vdoe hk'
  obtain ⟨w, hw⟩ : ∃ w, w = yearOfEra k := ⟨_, rfl⟩
  rw [← hw] at vyoe hw0 hw1 hfirst hlast
  obtain ⟨eraYears, heraYears, vyears⟩ := exists_checkedMul (b := 400) (y := 400) vera (by decide)
    ⟨by omega, by omega⟩
  obtain ⟨y, hy, vy⟩ := exists_checkedAdd vyoe vyears ⟨by omega, by omega⟩
  obtain ⟨b1, b2, b3, doy, hb1, hb2, hb3, hdoy, vdoy⟩ := exists_dayOfYear vdoe vyoe hk' ⟨hw0, hw1⟩
  obtain ⟨v, hv⟩ : ∃ v, v = k - (365 * w + w / 4 - w / 100) := ⟨_, rfl⟩
  rw [← hv] at vdoy
  have hv' : 0 ≤ v ∧ v ≤ 366 := by
    unfold yearStart at hfirst hlast
    omega
  -- The month and the day, by the magic numbers 153 and 5 of the source.
  obtain ⟨c1, c2, e1, e2, f1, f2, hc1, hc2, he1, he2, hf1, hf2, vmp, vday⟩ :=
    exists_monthOf vdoy hv'
  have hdate : dateOfDay (n + 719468)
      = { year := w + e * 400, month := monthOf v, day := v - monthStart (monthOf v) + 1 } := by
    unfold dateOfDay
    dsimp only
    rw [← he, ← hk, ← hw, ← hv]
  rw [hdate] at hm0 hm1 hd0 hd1 ⊢
  -- The year of a 64-bit day count leaves room for one more.
  have hroom : Roomy (w + e * 400 + 1) := ⟨by omega, by omega⟩
  obtain ⟨m, year, hm, hyear, vm, vyear⟩ := exists_january
    { year := w + e * 400, month := monthOf v, day := v - monthStart (monthOf v) + 1 } vmp vy
    ⟨hm0, hm1⟩ hroom
  have hj0 := (januaryMonth_range ⟨hm0, hm1⟩).1
  dsimp only at hd0
  rw [civilFromDaysChecked_of_steps hz hstart heraDays hdoe ha1 ha2 ha3 heraYears hy hb1 hb2 hb3
    hdoy hc1 hc2 he1 he2 hf1 hf2 hm hyear, ← vyear, Int64.ofInt_toInt, toUInt64_eq vm (by omega),
    toUInt64_eq vday (by omega), UInt64.toUInt32_ofNat', UInt64.toUInt32_ofNat']

/-- A date whose calculation did not overflow is the one without the checks. -/
theorem civilFromDays_of_checked {days : Int64} {date : Int64 × UInt32 × UInt32}
    (h : civilFromDaysChecked days = some date) : civilFromDays days = date := by
  unfold civilFromDaysChecked at h
  -- Peel the checked steps off one by one, each with the value that it gave.
  obtain ⟨z, hz, h⟩ := Option.bind_eq_some_iff.mp h
  obtain ⟨start, hstart, h⟩ := Option.bind_eq_some_iff.mp h
  obtain ⟨eraDays, heraDays, h⟩ := Option.bind_eq_some_iff.mp h
  obtain ⟨doe, hdoe, h⟩ := Option.bind_eq_some_iff.mp h
  obtain ⟨a1, h1460, h⟩ := Option.bind_eq_some_iff.mp h
  obtain ⟨a2, h36524, h⟩ := Option.bind_eq_some_iff.mp h
  obtain ⟨a3, h146096, h⟩ := Option.bind_eq_some_iff.mp h
  obtain ⟨eraYears, heraYears, h⟩ := Option.bind_eq_some_iff.mp h
  obtain ⟨y, hy, h⟩ := Option.bind_eq_some_iff.mp h
  obtain ⟨b1, h365, h⟩ := Option.bind_eq_some_iff.mp h
  obtain ⟨b2, hleap, h⟩ := Option.bind_eq_some_iff.mp h
  obtain ⟨b3, hcentury, h⟩ := Option.bind_eq_some_iff.mp h
  obtain ⟨doy, hdoy, h⟩ := Option.bind_eq_some_iff.mp h
  obtain ⟨c1, h5, h⟩ := Option.bind_eq_some_iff.mp h
  obtain ⟨c2, h2, h⟩ := Option.bind_eq_some_iff.mp h
  obtain ⟨e1, h153, h⟩ := Option.bind_eq_some_iff.mp h
  obtain ⟨e2, h2', h⟩ := Option.bind_eq_some_iff.mp h
  obtain ⟨f1, hday, h⟩ := Option.bind_eq_some_iff.mp h
  obtain ⟨f2, hday', h⟩ := Option.bind_eq_some_iff.mp h
  obtain ⟨m, hm, h⟩ := Option.bind_eq_some_iff.mp h
  obtain ⟨year, hyear, h⟩ := Option.bind_eq_some_iff.mp h
  rw [← Option.some.inj h]
  unfold civilFromDays
  extract_lets z' era' doe' yoe' y' doy' mp' d' m'
  -- Now the unchecked steps, in the order of the source: each is the checked one without its test.
  have ez : z' = z := (eq_of_checkedAdd hz).symm
  have eera : era' = start / 146097 := by
    show (if z' ≥ 0 then z' else z' - 146096) / 146097 = _
    rw [ez]
    by_cases hpos : z ≥ 0
    · rw [if_pos hpos, Option.some.injEq] at hstart
      rw [if_pos hpos, hstart]
    · rw [if_neg hpos] at hstart
      rw [if_neg hpos, eq_of_checkedSub hstart]
  have edoe : doe' = doe := by
    show z' - era' * 146097 = doe
    rw [ez, eera, eq_of_checkedSub hdoe, eq_of_checkedMul heraDays]
  have eyoe : yoe' = a3 / 365 := by
    show (doe' - doe' / 1460 + doe' / 36524 - doe' / 146096) / 365 = _
    rw [edoe, eq_of_checkedSub h146096, eq_of_checkedAdd h36524, eq_of_checkedSub h1460]
  have ey : y' = y := by
    show yoe' + era' * 400 = y
    rw [eyoe, eera, eq_of_checkedAdd hy, eq_of_checkedMul heraYears]
  have edoy : doy' = doy := by
    show doe' - (365 * yoe' + yoe' / 4 - yoe' / 100) = doy
    rw [edoe, eyoe, eq_of_checkedSub hdoy, eq_of_checkedSub hcentury, eq_of_checkedAdd hleap,
      eq_of_checkedMul h365]
  have emp : mp' = c2 / 153 := by
    show (5 * doy' + 2) / 153 = _
    rw [edoy, eq_of_checkedAdd h2, eq_of_checkedMul h5]
  have ed : d' = f2.toUInt64.toUInt32 := by
    show (doy' - (153 * mp' + 2) / 5 + 1).toUInt64.toUInt32 = _
    rw [edoy, emp, eq_of_checkedAdd hday', eq_of_checkedSub hday, eq_of_checkedAdd h2',
      eq_of_checkedMul h153]
  have em : m' = m.toUInt64.toUInt32 := by
    show (if mp' < 10 then mp' + 3 else mp' - 9).toUInt64.toUInt32 = _
    rw [emp]
    by_cases hspring : c2 / 153 < 10
    · rw [if_pos hspring] at hm
      rw [if_pos hspring, eq_of_checkedAdd hm]
    · rw [if_neg hspring] at hm
      rw [if_neg hspring, eq_of_checkedSub hm]
  have eyear : (if m' ≤ 2 then y' + 1 else y') = year := by
    rw [em, ey]
    by_cases hearly : m.toUInt64.toUInt32 ≤ 2
    · rw [if_pos hearly] at hyear
      rw [if_pos hearly, eq_of_checkedAdd hyear]
    · rw [if_neg hearly, Option.some.injEq] at hyear
      rw [if_neg hearly, hyear]
  rw [eyear, em, ed]

/-- The date of a day, for the days from the epoch on whose milliseconds fit. -/
theorem civilFromDays_eq {days : Int64} {n : ℤ} (hn : days.toInt = n) (hlow : 0 ≤ n)
    (hhigh : n ≤ latestDay) :
    civilFromDays days = (Int64.ofInt (januaryYear (dateOfDay (n + epochDay))),
      UInt32.ofNat (januaryMonth (dateOfDay (n + epochDay))).toNat,
      UInt32.ofNat (dateOfDay (n + epochDay)).day.toNat) := by
  unfold latestDay at hhigh
  exact civilFromDays_of_checked (civilFromDaysChecked_eq hn (by unfold epochDay; omega))

/-! ### The day of a date -/

/-- The steps of the day number, one after the other. -/
theorem daysFromCivilChecked_of_steps
    {y m d z start eraYears yoe march b1 b2 b3 doy c1 c2 c3 doe e1 e2 days : Int64}
    (hyear : (if m ≤ 2 then checkedSub y 1 else some y) = some z)
    (hstart : (if z ≥ 0 then some z else checkedSub z 399) = some start)
    (hmul : checkedMul (start / 400) 400 = some eraYears) (hyoe : checkedSub z eraYears = some yoe)
    (hmarch : checkedAdd m 9 = some march) (h153 : checkedMul 153 (march % 12) = some b1)
    (hplus : checkedAdd b1 2 = some b2) (hday : checkedAdd (b2 / 5) d = some b3)
    (hdoy : checkedSub b3 1 = some doy) (h365 : checkedMul yoe 365 = some c1)
    (hleap : checkedAdd c1 (yoe / 4) = some c2) (hcentury : checkedSub c2 (yoe / 100) = some c3)
    (hdoe : checkedAdd c3 doy = some doe) (hera : checkedMul (start / 400) 146097 = some e1)
    (hsum : checkedAdd e1 doe = some e2) (hepoch : checkedSub e2 719468 = some days) :
    daysFromCivilChecked y m d = some days := by
  unfold daysFromCivilChecked
  -- Each line feeds the value of a step to the rest of the `do` block.
  refine Option.bind_eq_some_iff.mpr ⟨_, hyear, ?_⟩
  refine Option.bind_eq_some_iff.mpr ⟨_, hstart, ?_⟩
  refine Option.bind_eq_some_iff.mpr ⟨_, hmul, ?_⟩
  refine Option.bind_eq_some_iff.mpr ⟨_, hyoe, ?_⟩
  refine Option.bind_eq_some_iff.mpr ⟨_, hmarch, ?_⟩
  refine Option.bind_eq_some_iff.mpr ⟨_, h153, ?_⟩
  refine Option.bind_eq_some_iff.mpr ⟨_, hplus, ?_⟩
  refine Option.bind_eq_some_iff.mpr ⟨_, hday, ?_⟩
  refine Option.bind_eq_some_iff.mpr ⟨_, hdoy, ?_⟩
  refine Option.bind_eq_some_iff.mpr ⟨_, h365, ?_⟩
  refine Option.bind_eq_some_iff.mpr ⟨_, hleap, ?_⟩
  refine Option.bind_eq_some_iff.mpr ⟨_, hcentury, ?_⟩
  refine Option.bind_eq_some_iff.mpr ⟨_, hdoe, ?_⟩
  refine Option.bind_eq_some_iff.mpr ⟨_, hera, ?_⟩
  exact Option.bind_eq_some_iff.mpr ⟨_, hsum, hepoch⟩

/-- The steps of a day number that did not overflow. -/
theorem steps_of_daysFromCivilChecked {y m d days : Int64}
    (h : daysFromCivilChecked y m d = some days) :
    ∃ z start eraYears yoe march b1 b2 b3 doy c1 c2 c3 doe e1 e2 : Int64,
      (if m ≤ 2 then checkedSub y 1 else some y) = some z ∧
      (if z ≥ 0 then some z else checkedSub z 399) = some start ∧
      checkedMul (start / 400) 400 = some eraYears ∧ checkedSub z eraYears = some yoe ∧
      checkedAdd m 9 = some march ∧ checkedMul 153 (march % 12) = some b1 ∧
      checkedAdd b1 2 = some b2 ∧ checkedAdd (b2 / 5) d = some b3 ∧
      checkedSub b3 1 = some doy ∧ checkedMul yoe 365 = some c1 ∧
      checkedAdd c1 (yoe / 4) = some c2 ∧ checkedSub c2 (yoe / 100) = some c3 ∧
      checkedAdd c3 doy = some doe ∧ checkedMul (start / 400) 146097 = some e1 ∧
      checkedAdd e1 doe = some e2 ∧ checkedSub e2 719468 = some days := by
  unfold daysFromCivilChecked at h
  -- One value for each checked step, in the order of the source.
  obtain ⟨z, hyear, h⟩ := Option.bind_eq_some_iff.mp h
  obtain ⟨start, hstart, h⟩ := Option.bind_eq_some_iff.mp h
  obtain ⟨eraYears, hmul, h⟩ := Option.bind_eq_some_iff.mp h
  obtain ⟨yoe, hyoe, h⟩ := Option.bind_eq_some_iff.mp h
  obtain ⟨march, hmarch, h⟩ := Option.bind_eq_some_iff.mp h
  obtain ⟨b1, h153, h⟩ := Option.bind_eq_some_iff.mp h
  obtain ⟨b2, hplus, h⟩ := Option.bind_eq_some_iff.mp h
  obtain ⟨b3, hday, h⟩ := Option.bind_eq_some_iff.mp h
  obtain ⟨doy, hdoy, h⟩ := Option.bind_eq_some_iff.mp h
  obtain ⟨c1, h365, h⟩ := Option.bind_eq_some_iff.mp h
  obtain ⟨c2, hleap, h⟩ := Option.bind_eq_some_iff.mp h
  obtain ⟨c3, hcentury, h⟩ := Option.bind_eq_some_iff.mp h
  obtain ⟨doe, hdoe, h⟩ := Option.bind_eq_some_iff.mp h
  obtain ⟨e1, hera, h⟩ := Option.bind_eq_some_iff.mp h
  obtain ⟨e2, hsum, hepoch⟩ := Option.bind_eq_some_iff.mp h
  exact ⟨z, start, eraYears, yoe, march, b1, b2, b3, doy, c1, c2, c3, doe, e1, e2, hyear, hstart,
    hmul, hyoe, hmarch, h153, hplus, hday, hdoy, h365, hleap, hcentury, hdoe, hera, hsum, hepoch⟩

/-- The era of a year: the division is that of the integers, also for the years before 0. -/
theorem toInt_era {z start : Int64} {year : ℤ} (hz : z.toInt = year)
    (hstart : (if z ≥ 0 then some z else checkedSub z 399) = some start) :
    (start / 400).toInt = year / 400 := by
  have hpos : z ≥ 0 ↔ 0 ≤ year := le_iff (by decide) hz
  refine toInt_floorDiv (by decide) (by decide) ?_ ?_
  · intro h
    rw [if_pos (hpos.mpr h), Option.some.injEq] at hstart
    rw [← hstart, hz]
  · intro h
    rw [if_neg fun hle => not_le.mpr h (hpos.mp hle)] at hstart
    exact (of_checkedSub (b := 399) hz (by decide) hstart).2

/-- The first year of a date and the month counted from March: no step overflows. -/
theorem exists_march {y m : Int64} {date : MarchDate} (hy : y.toInt = januaryYear date)
    (hm : m.toInt = januaryMonth date) (hmonth : 0 ≤ date.month ∧ date.month ≤ 11)
    (hyear : Fits date.year) :
    ∃ z march, (if m ≤ 2 then checkedSub y 1 else some y) = some z ∧ checkedAdd m 9 = some march ∧
      z.toInt = date.year ∧ (march % 12).toInt = date.month := by
  -- The comparison of the source, read on the mathematical value.
  have h2 : m ≤ 2 ↔ m.toInt ≤ 2 := le_iff rfl (by decide)
  obtain ⟨hm1, hm12⟩ := januaryMonth_range hmonth
  obtain ⟨march, hmarch, vmarch⟩ := exists_checkedAdd (b := 9) (y := 9) hm (by decide)
    ⟨by omega, by omega⟩
  have vmp : (march % 12).toInt = date.month := by
    rw [toInt_mod (b := 12) vmarch (by decide) (by omega)]
    unfold januaryMonth
    split_ifs <;> omega
  unfold januaryYear at hy
  unfold januaryMonth at hm
  -- March to December: the year is that of the date; January and February count to the year before.
  by_cases hspring : date.month < 10
  · rw [if_pos hspring] at hy hm
    have hlate : ¬ m ≤ 2 := by
      rw [h2]
      omega
    exact ⟨y, march, if_neg hlate, hmarch, hy, vmp⟩
  · rw [if_neg hspring] at hy hm
    have hearly : m ≤ 2 := by
      rw [h2]
      omega
    obtain ⟨z, hz, vz⟩ := exists_checkedSub (b := 1) (y := 1) hy (by decide)
      (by rw [show date.year + 1 - 1 = date.year by omega]; exact hyear)
    exact ⟨z, march, (if_pos hearly).trans hz, hmarch, by omega, vmp⟩

/-- The day of the year of a month and a day: no step overflows. -/
theorem exists_dayOfMonth {mp d : Int64} {p day : ℤ} (hmp : mp.toInt = p) (hd : d.toInt = day)
    (hp : 0 ≤ p ∧ p ≤ 11) (hday : 1 ≤ day ∧ day ≤ 31) :
    ∃ b1 b2 b3 doy, checkedMul 153 mp = some b1 ∧ checkedAdd b1 2 = some b2 ∧
      checkedAdd (b2 / 5) d = some b3 ∧ checkedSub b3 1 = some doy ∧
      doy.toInt = monthStart p + day - 1 := by
  obtain ⟨b1, hb1, v1⟩ := exists_checkedMul (a := 153) (x := 153) (by decide) hmp
    ⟨by omega, by omega⟩
  obtain ⟨b2, hb2, v2⟩ := exists_checkedAdd (b := 2) (y := 2) v1 (by decide) ⟨by omega, by omega⟩
  have hstart : (b2 / 5).toInt = monthStart p := toInt_div v2 (by decide) (by omega) (by decide)
  have hstart' : 0 ≤ monthStart p ∧ monthStart p ≤ 337 := by
    unfold monthStart
    omega
  obtain ⟨b3, hb3, v3⟩ := exists_checkedAdd hstart hd ⟨by omega, by omega⟩
  obtain ⟨doy, hdoy, vdoy⟩ := exists_checkedSub (b := 1) (y := 1) v3 (by decide)
    ⟨by omega, by omega⟩
  exact ⟨b1, b2, b3, doy, hb1, hb2, hb3, hdoy, vdoy⟩

/-- The day of an era of a year of it and a day of the year: no step overflows. -/
theorem exists_dayOfEra {yoe doy : Int64} {w v : ℤ} (hyoe : yoe.toInt = w) (hdoy : doy.toInt = v)
    (hw : 0 ≤ w ∧ w ≤ 399) (hv : 0 ≤ v ∧ v ≤ 400) :
    ∃ c1 c2 c3 doe, checkedMul yoe 365 = some c1 ∧ checkedAdd c1 (yoe / 4) = some c2 ∧
      checkedSub c2 (yoe / 100) = some c3 ∧ checkedAdd c3 doy = some doe ∧
      doe.toInt = w * 365 + w / 4 - w / 100 + v := by
  have h4 : (yoe / 4).toInt = w / 4 := toInt_div hyoe (by decide) hw.1 (by decide)
  have h100 : (yoe / 100).toInt = w / 100 := toInt_div hyoe (by decide) hw.1 (by decide)
  obtain ⟨c1, hc1, v1⟩ := exists_checkedMul (b := 365) (y := 365) hyoe (by decide)
    ⟨by omega, by omega⟩
  obtain ⟨c2, hc2, v2⟩ := exists_checkedAdd v1 h4 ⟨by omega, by omega⟩
  obtain ⟨c3, hc3, v3⟩ := exists_checkedSub v2 h100 ⟨by omega, by omega⟩
  obtain ⟨doe, hdoe, vdoe⟩ := exists_checkedAdd v3 hdoy ⟨by omega, by omega⟩
  exact ⟨c1, c2, c3, doe, hc1, hc2, hc3, hdoe, vdoe⟩

/-- The day of a date, for every date whose day fits, counted from 1 March of the year 0 and from
the epoch: no step overflows. -/
theorem exists_daysFromCivilChecked {y m d : Int64} {date : MarchDate}
    (hy : y.toInt = januaryYear date) (hm : m.toInt = januaryMonth date) (hd : d.toInt = date.day)
    (hmonth : 0 ≤ date.month ∧ date.month ≤ 11) (hday : 1 ≤ date.day ∧ date.day ≤ 31)
    (hlow : -9223372036854775808 ≤ dayOfDate date - epochDay)
    (hhigh : dayOfDate date ≤ 9223372036854775807) :
    ∃ days, daysFromCivilChecked y m d = some days ∧ days.toInt = dayOfDate date - epochDay := by
  -- The day is the first day of its year and the day in it. Both parts have bounds of their own.
  have hsum : dayOfDate date = yearStart date.year + (monthStart date.month + date.day - 1) := by
    unfold dayOfDate
    omega
  obtain ⟨hv0, hv1⟩ : 0 ≤ monthStart date.month + date.day - 1 ∧
      monthStart date.month + date.day - 1 ≤ 367 := by
    unfold monthStart
    omega
  -- The year is written by its era, as the source does, so that each product is in range.
  obtain ⟨e, he⟩ : ∃ e, e = date.year / 400 := ⟨_, rfl⟩
  have hstart : yearStart date.year = e * 146097 + ((date.year - e * 400) * 365
      + (date.year - e * 400) / 4 - (date.year - e * 400) / 100) := by
    unfold yearStart
    omega
  unfold epochDay at hlow ⊢
  -- From here one checked step after the other, each with its value; all bounds follow from those
  -- of the day.
  obtain ⟨z, march, hz, hmarch, vz, vmp⟩ := exists_march hy hm hmonth ⟨by omega, by omega⟩
  obtain ⟨start, hstartChecked⟩ :
      ∃ start, (if z ≥ 0 then some z else checkedSub z 399) = some start := by
    by_cases hpos : z ≥ 0
    · exact ⟨z, if_pos hpos⟩
    · obtain ⟨start, hsub, -⟩ := exists_checkedSub (b := 399) (y := 399) vz (by decide)
        ⟨by omega, by omega⟩
      exact ⟨start, (if_neg hpos).trans hsub⟩
  have vera : (start / 400).toInt = e := he ▸ toInt_era vz hstartChecked
  obtain ⟨eraYears, heraYears, vyears⟩ := exists_checkedMul (b := 400) (y := 400) vera (by decide)
    ⟨by omega, by omega⟩
  obtain ⟨yoe, hyoe, vyoe⟩ := exists_checkedSub vz vyears ⟨by omega, by omega⟩
  obtain ⟨b1, b2, b3, doy, hb1, hb2, hb3, hdoy, vdoy⟩ := exists_dayOfMonth vmp hd hmonth hday
  obtain ⟨c1, c2, c3, doe, hc1, hc2, hc3, hdoe, vdoe⟩ := exists_dayOfEra vyoe vdoy
    ⟨by omega, by omega⟩ ⟨hv0, by omega⟩
  obtain ⟨eraDays, heraDays, vdays⟩ := exists_checkedMul (b := 146097) (y := 146097) vera
    (by decide) ⟨by omega, by omega⟩
  obtain ⟨total, htotal, vtotal⟩ := exists_checkedAdd vdays vdoe ⟨by omega, by omega⟩
  obtain ⟨days, hdays, vresult⟩ := exists_checkedSub (b := 719468) (y := 719468) vtotal (by decide)
    ⟨by omega, by omega⟩
  exact ⟨days, daysFromCivilChecked_of_steps hz hstartChecked heraYears hyoe hmarch hb1 hb2 hb3 hdoy
    hc1 hc2 hc3 hdoe heraDays htotal hdays, by omega⟩

/-- A day whose calculation did not overflow is the one without the checks. -/
theorem daysFromCivil_of_checked {y m d days : Int64} (h : daysFromCivilChecked y m d = some days) :
    daysFromCivil y m d = days := by
  obtain ⟨z, start, eraYears, yoe, march, b1, b2, b3, doy, c1, c2, c3, doe, eraDays, total, hz,
    hstart, heraYears, hyoe, hmarch, h153, hplus, hday, hdoy, h365, hleap, hcentury, hdoe, heraDays,
    htotal, hdays⟩ := steps_of_daysFromCivilChecked h
  -- Each value of the unchecked computation, in the order of the source, is the checked one without
  -- its test.
  unfold daysFromCivil
  extract_lets z' era' yoe' mp' doy' doe'
  have ez : z' = z := by
    show (if m ≤ 2 then y - 1 else y) = z
    by_cases hearly : m ≤ 2
    · rw [if_pos hearly] at hz
      rw [if_pos hearly, eq_of_checkedSub hz]
    · rw [if_neg hearly, Option.some.injEq] at hz
      rw [if_neg hearly, hz]
  have eera : era' = start / 400 := by
    show (if z' ≥ 0 then z' else z' - 399) / 400 = _
    rw [ez]
    by_cases hpos : z ≥ 0
    · rw [if_pos hpos, Option.some.injEq] at hstart
      rw [if_pos hpos, hstart]
    · rw [if_neg hpos] at hstart
      rw [if_neg hpos, eq_of_checkedSub hstart]
  have eyoe : yoe' = yoe := by
    show z' - era' * 400 = yoe
    rw [ez, eera, eq_of_checkedSub hyoe, eq_of_checkedMul heraYears]
  have edoy : doy' = doy := by
    show (153 * ((m + 9) % 12) + 2) / 5 + d - 1 = doy
    rw [eq_of_checkedSub hdoy, eq_of_checkedAdd hday, eq_of_checkedAdd hplus,
      eq_of_checkedMul h153, eq_of_checkedAdd hmarch]
  have edoe : doe' = doe := by
    show yoe' * 365 + yoe' / 4 - yoe' / 100 + doy' = doe
    rw [eyoe, edoy, eq_of_checkedAdd hdoe, eq_of_checkedSub hcentury, eq_of_checkedAdd hleap,
      eq_of_checkedMul h365]
  rw [eera, edoe, eq_of_checkedSub hdays, eq_of_checkedAdd htotal, eq_of_checkedMul heraDays]

/-- The day of a date, for the years from -1 to a million million: no step overflows. -/
theorem daysFromCivilChecked_eq {y m d : Int64} {date : MarchDate}
    (hy : y.toInt = januaryYear date) (hm : m.toInt = januaryMonth date) (hd : d.toInt = date.day)
    (hyear : -1 ≤ date.year ∧ date.year ≤ 1000000000000)
    (hmonth : 0 ≤ date.month ∧ date.month ≤ 11) (hday : 1 ≤ date.day ∧ date.day ≤ 31) :
    daysFromCivilChecked y m d = some (daysFromCivil y m d) ∧
      (daysFromCivil y m d).toInt = dayOfDate date - epochDay := by
  have hlow : -9223372036854775808 ≤ dayOfDate date - epochDay := by
    unfold dayOfDate yearStart monthStart epochDay
    omega
  have hhigh : dayOfDate date ≤ 9223372036854775807 := by
    unfold dayOfDate yearStart monthStart
    omega
  obtain ⟨days, hchecked, hdays⟩ := exists_daysFromCivilChecked hy hm hd hmonth hday hlow hhigh
  rw [daysFromCivil_of_checked hchecked]
  exact ⟨hchecked, hdays⟩

/-- The day of a date, for the years from 0 to a thousand million. -/
theorem toInt_daysFromCivil {y m d : Int64} {date : MarchDate}
    (hy : y.toInt = januaryYear date) (hm : m.toInt = januaryMonth date) (hd : d.toInt = date.day)
    (hyear : 0 ≤ date.year ∧ date.year ≤ 1000000000) (hmonth : 0 ≤ date.month ∧ date.month ≤ 11)
    (hday : 1 ≤ date.day ∧ date.day ≤ 31) :
    (daysFromCivil y m d).toInt = dayOfDate date - epochDay :=
  (daysFromCivilChecked_eq hy hm hd ⟨by omega, by omega⟩ hmonth hday).2

/-! ### Civil dates and times -/

/-- The day of a civil date, counted from the epoch. -/
def civilDay (y m d : ℤ) : ℤ := dayOfDate (marchDate y m d) - epochDay

/-- A time of the day. -/
def IsTime (hour minute second : ℤ) : Prop :=
  (0 ≤ hour ∧ hour ≤ 23) ∧ (0 ≤ minute ∧ minute ≤ 59) ∧ (0 ≤ second ∧ second ≤ 59)

instance (hour minute second : ℤ) : Decidable (IsTime hour minute second) :=
  inferInstanceAs (Decidable (_ ∧ _ ∧ _))

/-- The fields of a date from those of the year that begins in March. -/
theorem marchDate_fields {y m : ℤ} (d : ℤ) (hm : 1 ≤ m ∧ m ≤ 12) :
    (y = januaryYear (marchDate y m d) ∧ m = januaryMonth (marchDate y m d) ∧
      d = (marchDate y m d).day) ∧
    (y - 1 ≤ (marchDate y m d).year ∧ (marchDate y m d).year ≤ y) ∧
      0 ≤ (marchDate y m d).month ∧ (marchDate y m d).month ≤ 11 := by
  unfold januaryYear januaryMonth marchDate
  by_cases hmarch : m ≤ 2
  · simp only [if_pos hmarch]
    rw [if_neg (by omega), if_neg (by omega)]
    exact ⟨⟨by omega, by omega, trivial⟩, by omega, by omega⟩
  · simp only [if_neg hmarch]
    rw [if_pos (by omega), if_pos (by omega)]
    exact ⟨⟨by omega, by omega, trivial⟩, by omega, by omega⟩

/-- The day of a civil date in machine arithmetic: no step overflows. -/
theorem daysFromCivilChecked_civil {y m d : Int64} (hyear : 0 ≤ y.toInt ∧ y.toInt ≤ 1000000000000)
    (hmonth : 1 ≤ m.toInt ∧ m.toInt ≤ 12) (hday : 1 ≤ d.toInt ∧ d.toInt ≤ 31) :
    daysFromCivilChecked y m d = some (daysFromCivil y m d) ∧
      (daysFromCivil y m d).toInt = civilDay y.toInt m.toInt d.toInt := by
  obtain ⟨⟨hy, hm, hd⟩, hyears, hmonths⟩ := marchDate_fields (y := y.toInt) d.toInt hmonth
  exact daysFromCivilChecked_eq hy hm hd ⟨by omega, by omega⟩ hmonths (hd ▸ hday)

/-- Whatever the year: a day number whose calculation did not overflow is that of the date. -/
theorem toInt_of_daysFromCivilChecked {y m d days : Int64}
    (hmonth : 1 ≤ m.toInt ∧ m.toInt ≤ 12) (h : daysFromCivilChecked y m d = some days) :
    days.toInt = civilDay y.toInt m.toInt d.toInt := by
  -- The date as counted from March, by its three fields.
  obtain ⟨⟨hy, hm, hd⟩, hyears, hmonths⟩ := marchDate_fields (y := y.toInt) d.toInt hmonth
  unfold civilDay
  generalize marchDate y.toInt m.toInt d.toInt = date at *
  obtain ⟨year, month, day⟩ := date
  unfold januaryYear at hy
  unfold januaryMonth at hm
  dsimp only at hy hm hd hyears hmonths
  obtain ⟨z, start, eraYears, yoe, march, months, months', sum, doy, yoeDays, leap, century, doe,
    eraDays, total, hz, hstart, heraYears, hyoe, hmarch, hmonths', hmonths'', hsum, hdoy, hyoeDays,
    hleap, hcentury, hdoe, heraDays, htotal, hdays⟩ := steps_of_daysFromCivilChecked h
  have h2 : (2 : Int64).toInt = 2 := by decide
  have h12 : (12 : Int64).toInt = 12 := by decide
  -- The values of the steps, in the order of the source; `of_checkedAdd` and its like turn each
  -- into an equation of integers.
  have vz : z.toInt = year := by
    by_cases hearly : m ≤ 2
    · have hle := (le_iff rfl h2).mp hearly
      rw [if_pos hearly] at hz
      rw [(of_checkedSub (b := 1) rfl (by decide) hz).2]
      split_ifs at hy hm <;> omega
    · have hgt : ¬ m.toInt ≤ 2 := fun hle => hearly ((le_iff rfl h2).mpr hle)
      rw [if_neg hearly, Option.some.injEq] at hz
      rw [← hz]
      split_ifs at hy hm <;> omega
  have vera : (start / 400).toInt = year / 400 := toInt_era vz hstart
  have veraYears := (of_checkedMul (b := 400) vera (by decide) heraYears).2
  have vyoe := (of_checkedSub vz veraYears hyoe).2
  have vmarch := (of_checkedAdd (b := 9) rfl (by decide) hmarch).2
  have vmp : (march % 12).toInt = month := by
    rw [toInt_mod vmarch h12 (by omega)]
    split_ifs at hm <;> omega
  have vmonths := (of_checkedMul (a := 153) (by decide) vmp hmonths').2
  have vmonths' := (of_checkedAdd (b := 2) vmonths (by decide) hmonths'').2
  have vstart : (months' / 5).toInt = (153 * month + 2) / 5 :=
    toInt_div vmonths' (by decide) (by omega) (by decide)
  have vsum := (of_checkedAdd vstart rfl hsum).2
  have vdoy := (of_checkedSub (b := 1) vsum (by decide) hdoy).2
  have hyoe0 : 0 ≤ year - year / 400 * 400 := by omega
  have vyoeDays := (of_checkedMul (b := 365) vyoe (by decide) hyoeDays).2
  have v4 : (yoe / 4).toInt = (year - year / 400 * 400) / 4 :=
    toInt_div vyoe (by decide) hyoe0 (by decide)
  have v100 : (yoe / 100).toInt = (year - year / 400 * 400) / 100 :=
    toInt_div vyoe (by decide) hyoe0 (by decide)
  have vleap := (of_checkedAdd vyoeDays v4 hleap).2
  have vcentury := (of_checkedSub vleap v100 hcentury).2
  have vdoe := (of_checkedAdd vcentury vdoy hdoe).2
  have veraDays := (of_checkedMul (b := 146097) vera (by decide) heraDays).2
  have vtotal := (of_checkedAdd veraDays vdoe htotal).2
  rw [(of_checkedSub (b := 719468) vtotal (by decide) hdays).2]
  -- The era and the year in it are named, so that the two sides are linear in them.
  obtain ⟨e, he⟩ : ∃ e, e = year / 400 := ⟨_, rfl⟩
  obtain ⟨w, hw⟩ : ∃ w, w = year - e * 400 := ⟨_, rfl⟩
  have hyear : year = w + e * 400 := by omega
  rw [← he, ← hw, hyear]
  unfold dayOfDate monthStart epochDay
  dsimp only
  rw [yearStart_add_era]
  unfold yearStart
  omega

/-- The seconds of a day and a time of it: no step overflows when their sum fits. -/
theorem checked_seconds {days hour minute second : Int64} {n : ℤ} (hdays : days.toInt = n)
    (hn : -1000000 ≤ n) (htime : (0 ≤ hour.toInt ∧ hour.toInt ≤ 23) ∧
      (0 ≤ minute.toInt ∧ minute.toInt ≤ 59) ∧ (0 ≤ second.toInt ∧ second.toInt ≤ 60))
    (hfits : n * 86400 + hour.toInt * 3600 + minute.toInt * 60 + second.toInt
      ≤ 9223372036854775807) :
    checkedMul days 86400 = some (days * 86400) ∧ checkedMul hour 3600 = some (hour * 3600) ∧
      checkedAdd (days * 86400) (hour * 3600) = some (days * 86400 + hour * 3600) ∧
      checkedMul minute 60 = some (minute * 60) ∧
      checkedAdd (days * 86400 + hour * 3600) (minute * 60)
        = some (days * 86400 + hour * 3600 + minute * 60) ∧
      checkedAdd (days * 86400 + hour * 3600 + minute * 60) second
        = some (days * 86400 + hour * 3600 + minute * 60 + second) ∧
      (days * 86400 + hour * 3600 + minute * 60 + second).toInt
        = n * 86400 + hour.toInt * 3600 + minute.toInt * 60 + second.toInt := by
  -- The three terms of the sum and the sums of the first ones, as integers.
  have hday : (days * 86400).toInt = n * 86400 :=
    toInt_mul_of_fits hdays (by decide) ⟨by omega, by omega⟩
  have hhours : (hour * 3600).toInt = hour.toInt * 3600 :=
    toInt_mul rfl (by decide) ⟨by omega, by omega⟩
  have hminutes : (minute * 60).toInt = minute.toInt * 60 :=
    toInt_mul rfl (by decide) ⟨by omega, by omega⟩
  have hsum : (days * 86400 + hour * 3600).toInt = n * 86400 + hour.toInt * 3600 :=
    toInt_add_of_fits hday hhours ⟨by omega, by omega⟩
  have hsum' : (days * 86400 + hour * 3600 + minute * 60).toInt
      = n * 86400 + hour.toInt * 3600 + minute.toInt * 60 :=
    toInt_add_of_fits hsum hminutes ⟨by omega, by omega⟩
  exact ⟨checkedMul_of_fits (b := 86400) hdays (by decide) ⟨by omega, by omega⟩,
    checkedMul_roomy (b := 3600) rfl (by decide) ⟨by omega, by omega⟩,
    checkedAdd_of_fits hday hhours ⟨by omega, by omega⟩,
    checkedMul_roomy (b := 60) rfl (by decide) ⟨by omega, by omega⟩,
    checkedAdd_of_fits hsum hminutes ⟨by omega, by omega⟩,
    checkedAdd_of_fits hsum' rfl ⟨by omega, by omega⟩,
    toInt_add_of_fits hsum' rfl ⟨by omega, by omega⟩⟩

/-! ### The arithmetic of an instant -/

section Arithmetic

/-- The numbers of a date. -/
structure DateRange (date : Int64 × Int64 × Int64) : Prop where
  year : 0 ≤ date.1.toInt
  month : 1 ≤ date.2.1.toInt ∧ date.2.1.toInt ≤ 12
  day : 1 ≤ date.2.2.toInt ∧ date.2.2.toInt ≤ 31

/-- The numbers of a time. -/
structure TimeRange (time : Int64 × Int64 × Int64 × Int64) : Prop where
  hour : 0 ≤ time.1.toInt ∧ time.1.toInt ≤ 23
  minute : 0 ≤ time.2.1.toInt ∧ time.2.1.toInt ≤ 59
  second : 0 ≤ time.2.2.1.toInt ∧ time.2.2.1.toInt ≤ 60
  millis : 0 ≤ time.2.2.2.toInt

/-- The seconds that a clock without a zone shows. -/
def clockSeconds (date : Int64 × Int64 × Int64) (time : Int64 × Int64 × Int64 × Int64) : ℤ :=
  civilDay date.1.toInt date.2.1.toInt date.2.2.toInt * 86400 + time.1.toInt * 3600
    + time.2.1.toInt * 60 + time.2.2.1.toInt

/-- The milliseconds from the epoch to an instant. -/
def instantMillis (date : Int64 × Int64 × Int64) (time : Int64 × Int64 × Int64 × Int64)
    (offset : Int64) : ℤ :=
  (clockSeconds date time - offset.toInt * 60) * 1000 + time.2.2.2.toInt

/-- The numbers of an instant are in the range in which no step overflows. -/
structure InstantFits (date : Int64 × Int64 × Int64) (time : Int64 × Int64 × Int64 × Int64)
    (offset : Int64) : Prop where
  clock : clockSeconds date time ≤ 9223372036854775807
  zone : Fits (offset.toInt * 60)
  low : -9223372036854775 ≤ clockSeconds date time - offset.toInt * 60
  high : instantMillis date time offset ≤ 9223372036854775807

variable {date : Int64 × Int64 × Int64} {time : Int64 × Int64 × Int64 × Int64} {offset : Int64}

/-- The day of a date is not far below its years. -/
theorem civilDay_ge {y m d : ℤ} (hy : 0 ≤ y) (hm : 1 ≤ m ∧ m ≤ 12) (hd : 1 ≤ d) :
    365 * y - 720000 ≤ civilDay y m d := by
  unfold civilDay dayOfDate yearStart monthStart marchDate epochDay
  by_cases hmarch : m ≤ 2
  · rw [if_pos hmarch]
    dsimp only
    omega
  · rw [if_neg hmarch]
    dsimp only
    omega

/-- The zone and the milliseconds after the seconds of a clock: no step overflows. -/
theorem checked_zone {secs offset millis : Int64} {n : ℤ} (hsecs : secs.toInt = n)
    (hzone : Fits (offset.toInt * 60)) (hmillis : 0 ≤ millis.toInt)
    (hlow : -9223372036854775 ≤ n - offset.toInt * 60)
    (hhigh : (n - offset.toInt * 60) * 1000 + millis.toInt ≤ 9223372036854775807) :
    checkedMul offset 60 = some (offset * 60) ∧
      checkedSub secs (offset * 60) = some (secs - offset * 60) ∧
      checkedMul (secs - offset * 60) 1000 = some ((secs - offset * 60) * 1000) ∧
      checkedAdd ((secs - offset * 60) * 1000) millis
        = some ((secs - offset * 60) * 1000 + millis) ∧
      ((secs - offset * 60) * 1000 + millis).toInt
        = (n - offset.toInt * 60) * 1000 + millis.toInt := by
  have hsixty : (60 : Int64).toInt = 60 := by decide
  have hthousand : (1000 : Int64).toInt = 1000 := by decide
  have voffset : (offset * 60).toInt = offset.toInt * 60 := toInt_mul_of_fits rfl hsixty hzone
  have vsub : (secs - offset * 60).toInt = n - offset.toInt * 60 :=
    toInt_sub_of_fits hsecs voffset ⟨by omega, by omega⟩
  have vmul : ((secs - offset * 60) * 1000).toInt = (n - offset.toInt * 60) * 1000 :=
    toInt_mul_of_fits vsub hthousand ⟨by omega, by omega⟩
  exact ⟨checkedMul_of_fits rfl hsixty hzone,
    checkedSub_of_fits hsecs voffset ⟨by omega, by omega⟩,
    checkedMul_of_fits vsub hthousand ⟨by omega, by omega⟩,
    checkedAdd_of_fits vmul rfl ⟨by omega, by omega⟩,
    toInt_add_of_fits vmul rfl ⟨by omega, by omega⟩⟩

/-- The steps of the instant, one after the other. -/
theorem instantOfChecked_of_steps {days c1 c2 c3 c4 c5 c6 c7 c8 c9 c10 : Int64}
    (hdays : daysFromCivilChecked date.1 date.2.1 date.2.2 = some days)
    (hday : checkedMul days 86400 = some c1) (hhours : checkedMul time.1 3600 = some c2)
    (hsum : checkedAdd c1 c2 = some c3) (hminutes : checkedMul time.2.1 60 = some c4)
    (hsum' : checkedAdd c3 c4 = some c5) (hsecs : checkedAdd c5 time.2.2.1 = some c6)
    (hoffset : checkedMul offset 60 = some c7) (hzone : checkedSub c6 c7 = some c8)
    (hmul : checkedMul c8 1000 = some c9) (hmillis : checkedAdd c9 time.2.2.2 = some c10) :
    instantOfChecked date time offset = some (if c10 ≥ 0 then some c10.toUInt64 else none) := by
  unfold instantOfChecked
  refine Option.bind_eq_some_iff.mpr ⟨_, hdays, ?_⟩
  refine Option.bind_eq_some_iff.mpr ⟨_, hday, ?_⟩
  refine Option.bind_eq_some_iff.mpr ⟨_, hhours, ?_⟩
  refine Option.bind_eq_some_iff.mpr ⟨_, hsum, ?_⟩
  refine Option.bind_eq_some_iff.mpr ⟨_, hminutes, ?_⟩
  refine Option.bind_eq_some_iff.mpr ⟨_, hsum', ?_⟩
  refine Option.bind_eq_some_iff.mpr ⟨_, hsecs, ?_⟩
  refine Option.bind_eq_some_iff.mpr ⟨_, hoffset, ?_⟩
  refine Option.bind_eq_some_iff.mpr ⟨_, hzone, ?_⟩
  refine Option.bind_eq_some_iff.mpr ⟨_, hmul, ?_⟩
  exact Option.bind_eq_some_iff.mpr ⟨_, hmillis, rfl⟩

/-- When no step overflows, the numbers are in range. -/
theorem fits_of_instantOfChecked {result : Option UInt64} (hdate : DateRange date)
    (h : instantOfChecked date time offset = some result) :
    InstantFits date time offset := by
  simp only [instantOfChecked, Option.bind_eq_bind, Option.bind_eq_some_iff] at h
  obtain ⟨days, hdays, dayPart, hday, hourPart, hhours, c3, hsum, minutePart, hminutes, c5, hsum',
    c6, hsecs, offsetPart, hoffset, c8, hzone, c9, hmul, c10, hmillis, -⟩ := h
  have vdays := toInt_of_daysFromCivilChecked hdate.month hdays
  have vday := (of_checkedMul (b := 86400) vdays (by decide) hday).2
  have vhours := (of_checkedMul (b := 3600) rfl (by decide) hhours).2
  have vsum := (of_checkedAdd vday vhours hsum).2
  have vminutes := (of_checkedMul (b := 60) rfl (by decide) hminutes).2
  have vsum' := (of_checkedAdd vsum vminutes hsum').2
  obtain ⟨fsecs, vsecs⟩ := of_checkedAdd vsum' rfl hsecs
  obtain ⟨foffset, voffset⟩ := of_checkedMul (b := 60) rfl (by decide) hoffset
  have vzone := (of_checkedSub vsecs voffset hzone).2
  obtain ⟨fmul, vmul⟩ := of_checkedMul (b := 1000) vzone (by decide) hmul
  obtain ⟨fmillis, -⟩ := of_checkedAdd vmul rfl hmillis
  refine ⟨fsecs.2, foffset, ?_, fmillis.2⟩
  have hlow := fmul.1
  unfold clockSeconds
  omega

/-- The value of an instant whose numbers are in range: no step overflows. -/
theorem instantOfChecked_of_fits (hdate : DateRange date) (htime : TimeRange time)
    (h : InstantFits date time offset) :
    ∃ millis : Int64, millis.toInt = instantMillis date time offset ∧
      instantOfChecked date time offset
        = some (if millis ≥ 0 then some millis.toUInt64 else none) ∧
      instantOf date time offset = if millis ≥ 0 then some millis.toUInt64 else none := by
  obtain ⟨hclock, hoffset, hlow, hhigh⟩ := h
  unfold instantMillis at hhigh ⊢
  unfold clockSeconds at hclock hlow hhigh ⊢
  have hdays0 := civilDay_ge hdate.year hdate.month hdate.day.1
  have hyear := hdate.year
  have hmillis0 := htime.millis
  obtain ⟨hhour0, hhour1⟩ := htime.hour
  obtain ⟨hminute0, hminute1⟩ := htime.minute
  obtain ⟨hsecond0, hsecond1⟩ := htime.second
  obtain ⟨hchecked, hdays⟩ :=
    daysFromCivilChecked_civil (y := date.1) ⟨hyear, by omega⟩ hdate.month hdate.day
  obtain ⟨h1, h2, h3, h4, h5, h6, hsecs⟩ := checked_seconds hdays (by omega)
    ⟨htime.hour, htime.minute, htime.second⟩ (by omega)
  obtain ⟨h7, h8, h9, h10, hvalue⟩ := checked_zone hsecs hoffset hmillis0 hlow hhigh
  exact ⟨_, hvalue,
    instantOfChecked_of_steps hchecked h1 h2 h3 h4 h5 h6 h7 h8 h9 h10, rfl⟩

end Arithmetic

end Gabriel.Core
