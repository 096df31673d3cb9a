import Mathlib

/-!
# `Gabriel.Lib.Calendar`: the proleptic Gregorian calendar

The two algorithms between a day number and a calendar date, over the integers and counted from
1 March of the year 0: years begin in March, so that the leap day is the last one, and 400 years
are an era of 146097 days. `IsDate` is a real date of the civil year, which begins in January.

Everything rests on where a year starts: the year of a day starts at the day or before it, and ends
after it. The theorems:

* `yearOfEra_spec`, `dateOfDay_spec`: the year of a day, and its date.
* `dayOfDate_dateOfDay`: the date of a day leads back to the day.
* `dateOfDay_dayOfDate`: a real date is the date of its day.
* `dateOfDay_lt`: dates come in the order of their days.
* `exists_isDate_of_day`: every day has a real date.
* `isDate_nextDate`, `dayOfDate_nextDate`: the next date is real, and that of the next day.
-/

set_option autoImplicit false

namespace Calendar

/-- The first day of a year. -/
def yearStart (y : ℤ) : ℤ := 365 * y + y / 4 - y / 100 + y / 400

/-- The year of a day of an era, counted from the start of the era. -/
def yearOfEra (doe : ℤ) : ℤ := (doe - doe / 1460 + doe / 36524 - doe / 146096) / 365

/-- The month of a day of the year, counted from March. -/
def monthOf (doy : ℤ) : ℤ := (5 * doy + 2) / 153

/-- The first day of a month, counted from 1 March. -/
def monthStart (mp : ℤ) : ℤ := (153 * mp + 2) / 5

/-- A day as a year, a month counted from March, and a day of the month. -/
structure MarchDate where
  year : ℤ
  month : ℤ
  day : ℤ

/-- The date of a day. -/
def dateOfDay (z : ℤ) : MarchDate :=
  let era := z / 146097
  let doe := z - era * 146097
  let yoe := yearOfEra doe
  let doy := doe - (365 * yoe + yoe / 4 - yoe / 100)
  { year := yoe + era * 400, month := monthOf doy, day := doy - monthStart (monthOf doy) + 1 }

/-- The day of a date. -/
def dayOfDate (date : MarchDate) : ℤ := yearStart date.year + monthStart date.month + date.day - 1

/-! ### Years -/

/-- The year of a day starts at the day or before it, and ends after it. -/
theorem yearOfEra_spec {doe : ℤ} (h0 : 0 ≤ doe) (h1 : doe ≤ 146096) :
    0 ≤ yearOfEra doe ∧ yearOfEra doe ≤ 399 ∧ yearStart (yearOfEra doe) ≤ doe ∧
      doe < yearStart (yearOfEra doe + 1) := by
  by_cases hlast : doe = 146096
  · subst hlast
    decide
  have hera : doe / 146096 = 0 := by omega
  -- The century, the leap years before the day, and the year within the century.
  obtain ⟨f, hf⟩ : ∃ f, f = doe / 36524 := ⟨_, rfl⟩
  obtain ⟨e, he⟩ : ∃ e, e = doe / 1460 := ⟨_, rfl⟩
  obtain ⟨y, hy⟩ : ∃ y, y = yearOfEra doe := ⟨_, rfl⟩
  have hyear : y = (doe - e + f) / 365 := by
    rw [hy, yearOfEra, hera, ← he, ← hf, sub_zero]
  rw [← hy]
  have hfs : f = 0 ∨ f = 1 ∨ f = 2 ∨ f = 3 := by omega
  obtain ⟨w, hw⟩ : ∃ w, y = 100 * f + w := ⟨y - 100 * f, by omega⟩
  have hlow : 0 ≤ w := by omega
  have hhigh : w ≤ 99 := by rcases hfs with rfl | rfl | rfl | rfl <;> omega
  have hrest : 365 * w ≤ doe - 36524 * f := by rcases hfs with rfl | rfl | rfl | rfl <;> omega
  have hquad : w / 4 ≤ e - 25 * f := by rcases hfs with rfl | rfl | rfl | rfl <;> omega
  have hquad' : e - 25 * f ≤ (w + 1) / 4 := by rcases hfs with rfl | rfl | rfl | rfl <;> omega
  have h4 : y / 4 = 25 * f + w / 4 := by omega
  have h100 : y / 100 = f := by omega
  have h400 : y / 400 = 0 := by omega
  unfold yearStart
  refine ⟨by omega, by omega, ?_, ?_⟩
  · rw [h4, h100, h400, hw]
    omega
  · by_cases hcentury : w = 99
    · rw [hw, hcentury]
      rcases hfs with rfl | rfl | rfl | rfl <;> omega
    · have h4' : (y + 1) / 4 = 25 * f + (w + 1) / 4 := by omega
      have h100' : (y + 1) / 100 = f := by omega
      have h400' : (y + 1) / 400 = 0 := by omega
      rw [h4', h100', h400', hw]
      omega

/-- Years of an era. -/
theorem yearStart_add_era (y era : ℤ) :
    yearStart (y + era * 400) = yearStart y + era * 146097 := by
  unfold yearStart
  omega

/-- Later years start later. -/
theorem yearStart_mono {y y' : ℤ} (h : y ≤ y') : yearStart y ≤ yearStart y' := by
  unfold yearStart
  omega

/-- The date of a day, by its year and its day of the year. -/
theorem dateOfDay_spec (z : ℤ) : ∃ y doy, dateOfDay z
      = { year := y, month := monthOf doy, day := doy - monthStart (monthOf doy) + 1 } ∧
    z = yearStart y + doy ∧ 0 ≤ doy ∧ z < yearStart (y + 1) := by
  have hlow : 0 ≤ z - z / 146097 * 146097 := by omega
  have hhigh : z - z / 146097 * 146097 ≤ 146096 := by omega
  obtain ⟨hyear, hyear', hstart, hend⟩ := yearOfEra_spec hlow hhigh
  -- Within an era the four hundred years bring nothing.
  have hera : yearOfEra (z - z / 146097 * 146097) / 400 = 0 := by omega
  refine ⟨_, _, rfl, ?_, ?_, ?_⟩
  · rw [yearStart_add_era]
    unfold yearStart
    rw [hera]
    omega
  · unfold yearStart at hstart
    rw [hera] at hstart
    omega
  · rw [show yearOfEra (z - z / 146097 * 146097) + z / 146097 * 400 + 1
      = yearOfEra (z - z / 146097 * 146097) + 1 + z / 146097 * 400 by ring, yearStart_add_era]
    omega

/-- A year has at most 366 days. -/
theorem yearStart_succ_le (y : ℤ) : yearStart (y + 1) ≤ yearStart y + 366 := by
  unfold yearStart
  omega

/-! ### The two directions -/

/-- The date of a day leads back to the day. -/
theorem dayOfDate_dateOfDay (z : ℤ) : dayOfDate (dateOfDay z) = z := by
  obtain ⟨y, doy, hdate, hday, -, -⟩ := dateOfDay_spec z
  rw [hdate, hday, dayOfDate]
  dsimp only
  omega

/-- The months and the days of a date are in range. -/
theorem dateOfDay_range (z : ℤ) :
    0 ≤ (dateOfDay z).month ∧ (dateOfDay z).month ≤ 11 ∧ 1 ≤ (dateOfDay z).day ∧
      (dateOfDay z).day ≤ 31 := by
  obtain ⟨y, doy, hdate, hday, hlow, hnext⟩ := dateOfDay_spec z
  have hyear := yearStart_succ_le y
  have hhigh : doy ≤ 365 := by omega
  rw [hdate]
  dsimp only
  unfold monthStart monthOf
  refine ⟨by omega, by omega, by omega, by omega⟩

/-- Of two dates, the one that comes first. -/
def MarchDate.Lt (a b : MarchDate) : Prop :=
  a.year < b.year ∨ (a.year = b.year ∧ (a.month < b.month ∨ (a.month = b.month ∧ a.day < b.day)))

/-- Dates come in the order of their days. -/
theorem dateOfDay_lt {z z' : ℤ} (h : z < z') : (dateOfDay z).Lt (dateOfDay z') := by
  obtain ⟨y, doy, hdate, hday, hlow, hnext⟩ := dateOfDay_spec z
  obtain ⟨y', doy', hdate', hday', hlow', hnext'⟩ := dateOfDay_spec z'
  rw [hdate, hdate']
  unfold MarchDate.Lt
  dsimp only
  rcases lt_trichotomy y y' with hlt | rfl | hgt
  · exact Or.inl hlt
  · refine Or.inr ⟨rfl, ?_⟩
    unfold monthStart monthOf
    omega
  · -- A later year has begun only after the earlier one ended.
    have hmono := yearStart_mono (show y' + 1 ≤ y by omega)
    omega

/-! ### Dates of the civil year -/

/-- Whether a year has a leap day. -/
def IsLeap (y : ℤ) : Prop := y % 4 = 0 ∧ (y % 100 ≠ 0 ∨ y % 400 = 0)

instance (y : ℤ) : Decidable (IsLeap y) := inferInstanceAs (Decidable (_ ∧ _))

/-- The number of days of a month, with January as the first. -/
def daysInMonth (y m : ℤ) : ℤ :=
  if m = 2 then (if IsLeap y then 29 else 28)
  else if m = 4 ∨ m = 6 ∨ m = 9 ∨ m = 11 then 30 else 31

/-- A real date of the proleptic Gregorian calendar. -/
structure IsDate (y m d : ℤ) : Prop where
  month : 1 ≤ m ∧ m ≤ 12
  day : 1 ≤ d ∧ d ≤ daysInMonth y m

instance (y m d : ℤ) : Decidable (IsDate y m d) :=
  decidable_of_iff ((1 ≤ m ∧ m ≤ 12) ∧ (1 ≤ d ∧ d ≤ daysInMonth y m))
    ⟨fun h => ⟨h.1, h.2⟩, fun h => ⟨h.month, h.day⟩⟩

/-- No month has more than 31 days. -/
theorem IsDate.day_le {y m d : ℤ} (h : IsDate y m d) : 1 ≤ d ∧ d ≤ 31 := by
  obtain ⟨-, hlow, hhigh⟩ := h
  unfold daysInMonth at hhigh
  split_ifs at hhigh <;> omega

/-- A date with its year and its month counted from March. -/
def marchDate (y m d : ℤ) : MarchDate :=
  if m ≤ 2 then ⟨y - 1, m + 9, d⟩ else ⟨y, m - 3, d⟩

/-- The fields of a real date: the day of the year that they give is in the month and in the
year. -/
theorem marchDate_spec {y m d : ℤ} (h : IsDate y m d) :
    (0 ≤ (marchDate y m d).month ∧ (marchDate y m d).month ≤ 11) ∧
      (1 ≤ (marchDate y m d).day ∧ (marchDate y m d).day ≤ 31) ∧
      monthOf (monthStart (marchDate y m d).month + (marchDate y m d).day - 1)
        = (marchDate y m d).month ∧
      dayOfDate (marchDate y m d) < yearStart ((marchDate y m d).year + 1) := by
  obtain ⟨⟨hm1, hm12⟩, hd1, hd⟩ := h
  unfold daysInMonth IsLeap at hd
  unfold marchDate dayOfDate monthOf monthStart yearStart
  by_cases hmarch : m ≤ 2
  · -- January and February belong to the year before.
    rw [if_pos hmarch]
    dsimp only
    split_ifs at hd <;> omega
  · rw [if_neg hmarch]
    dsimp only
    have hspring : 3 ≤ m := by omega
    interval_cases m <;> simp at hd <;> omega

/-- A real date is the date of its day. -/
theorem dateOfDay_dayOfDate {y m d : ℤ} (h : IsDate y m d) :
    dateOfDay (dayOfDate (marchDate y m d)) = marchDate y m d := by
  obtain ⟨⟨hmonth, -⟩, ⟨hday, -⟩, hof, hlast⟩ := marchDate_spec h
  obtain ⟨y', doy, hdate, hsum, hlow, hnext⟩ := dateOfDay_spec (dayOfDate (marchDate y m d))
  rw [hdate]
  generalize marchDate y m d = date at *
  have hdoy : dayOfDate date = yearStart date.year + (monthStart date.month + date.day - 1) := by
    unfold dayOfDate
    omega
  have hpos : 0 ≤ monthStart date.month := by
    unfold monthStart
    omega
  -- Years do not overlap.
  have hyear : y' = date.year := by
    rcases lt_trichotomy y' date.year with hlt | heq | hgt
    · have hmono := yearStart_mono (show y' + 1 ≤ date.year by omega)
      omega
    · exact heq
    · have hmono := yearStart_mono (show date.year + 1 ≤ y' by omega)
      omega
  subst hyear
  have hsame : doy = monthStart date.month + date.day - 1 := by omega
  rw [hsame, hof]
  obtain ⟨year, month, day⟩ := date
  congr 1
  dsimp only
  omega

/-- The date after a date: the next day of the month, or the first day of the next month. -/
def nextDate (y m d : ℤ) : ℤ × ℤ × ℤ :=
  if d < daysInMonth y m then (y, m, d + 1) else if m < 12 then (y, m + 1, 1) else (y + 1, 1, 1)

/-- The date after a real one is real. -/
theorem isDate_nextDate {y m d : ℤ} (h : IsDate y m d) :
    IsDate (nextDate y m d).1 (nextDate y m d).2.1 (nextDate y m d).2.2 := by
  obtain ⟨hm, hd⟩ := h
  have hfirst : ∀ y m, 1 ≤ daysInMonth y m := by
    intro y m
    unfold daysInMonth
    split_ifs <;> decide
  unfold nextDate
  by_cases hday : d < daysInMonth y m
  · rw [if_pos hday]
    exact ⟨hm, by show 1 ≤ d + 1; omega, by show d + 1 ≤ daysInMonth y m; omega⟩
  · rw [if_neg hday]
    by_cases hmonth : m < 12
    · rw [if_pos hmonth]
      exact ⟨⟨by show 1 ≤ m + 1; omega, by show m + 1 ≤ 12; omega⟩, le_refl _, hfirst y (m + 1)⟩
    · rw [if_neg hmonth]
      exact ⟨⟨le_refl _, by show (1 : ℤ) ≤ 12; decide⟩, le_refl _, hfirst (y + 1) 1⟩

/-- The date after a real one is that of the next day. -/
theorem dayOfDate_nextDate {y m d : ℤ} (h : IsDate y m d) :
    dayOfDate (marchDate (nextDate y m d).1 (nextDate y m d).2.1 (nextDate y m d).2.2)
      = dayOfDate (marchDate y m d) + 1 := by
  obtain ⟨⟨hm1, hm12⟩, hd1, hd⟩ := h
  unfold nextDate
  by_cases hday : d < daysInMonth y m
  · rw [if_pos hday]
    unfold marchDate dayOfDate
    dsimp only
    split_ifs <;> dsimp only <;> omega
  · -- The last day of its month.
    rw [if_neg hday]
    have hlast : d = daysInMonth y m := le_antisymm hd (not_lt.mp hday)
    unfold daysInMonth IsLeap at hlast
    unfold marchDate dayOfDate monthStart yearStart
    interval_cases m <;> norm_num at hlast ⊢ <;> (try split_ifs at hlast) <;> omega

/-- The date of a day is a real date. -/
theorem exists_isDate_of_day (z : ℤ) : ∃ y m d, IsDate y m d ∧ dateOfDay z = marchDate y m d := by
  obtain ⟨y, doy, hdate, hday, hlow, hnext⟩ := dateOfDay_spec z
  -- The day of the year lies in one of the twelve months.
  have hyear := yearStart_succ_le y
  obtain ⟨p, hp⟩ : ∃ p, p = monthOf doy := ⟨_, rfl⟩
  have hp' := hp
  unfold monthOf at hp'
  unfold yearStart at hday hnext
  rw [hdate, ← hp]
  have hp0 : 0 ≤ p := by omega
  have hp11 : p ≤ 11 := by
    unfold yearStart at hyear
    omega
  -- March to December belong to the year itself, January and February to the next one.
  by_cases hspring : p < 10
  · refine ⟨y, p + 3, doy - monthStart p + 1, ⟨by omega, ?_⟩, ?_⟩
    · unfold daysInMonth monthStart
      interval_cases p <;> norm_num <;> omega
    · unfold marchDate
      rw [if_neg (by omega), show p + 3 - 3 = p by omega]
  · refine ⟨y + 1, p - 9, doy - monthStart p + 1, ⟨by omega, ?_⟩, ?_⟩
    · unfold daysInMonth monthStart IsLeap
      interval_cases p
      · norm_num
        omega
      · norm_num
        split_ifs <;> omega
    · unfold marchDate
      rw [if_pos (by omega), show y + 1 - 1 = y by omega, show p - 9 + 9 = p by omega]

end Calendar
