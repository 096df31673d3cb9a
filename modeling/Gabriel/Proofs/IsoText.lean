import Gabriel.Core.Instant
import Gabriel.Proofs.Instant

/-!
# `Gabriel.Proofs.IsoText`: the text of an instant

`formatIso8601` writes an instant as seven numbers of a fixed width, and `parseIso8601` reads one.
`Fields` is what stands between the two: the seven numbers, each within its bound, and the instant
is the sum of the numbers by their weights.

A padded number is read back, and two numbers of one width compare as texts the way they compare
as numbers. That is carried over the separators from the milliseconds up to the year. The theorems:

* `formatIso8601_eq`: the text of an instant is that of its numbers.
* `padded_lt`, `text_lt`: texts of one width are in the order of their numbers, if the years have
  four digits.
* `weights_lt`: instants are in the order of their numbers, taken one after the other.
* `formatIso8601_le_iff`: so texts come in the order of their instants, up to the end of 9999.
* `parseIso8601_formatIso8601`: an instant is read back, whatever the number of digits of its year.
* `timestamps_round_trip`: every instant up to `i64::MAX` makes the round trip, and the texts of a
  year of four digits sort as the instants do.
-/

set_option autoImplicit false

namespace Gabriel.Core

open Calendar MachineInt Text

/-! ### Numbers of a fixed width -/

/-- A number of one digit. -/
theorem padded_one {n : Nat} (h : n < 10) : padded 1 n = [Nat.digitChar n] := by
  have hdigits : natText n = [Nat.digitChar n] := Nat.toDigits_of_lt_base h
  unfold padded
  rw [hdigits]
  rfl

/-- The last digit of a number of more digits. -/
theorem padded_succ {width : Nat} (hwidth : 0 < width) (n : Nat) :
    padded (width + 1) n = padded width (n / 10) ++ [Nat.digitChar (n % 10)] := by
  unfold padded natText
  by_cases hn : n < 10
  · -- The digits in front are zeros.
    have hfront : n / 10 = 0 := Nat.div_eq_of_lt hn
    rw [hfront, Nat.mod_eq_of_lt hn, Nat.toDigits_of_lt_base hn, Nat.toDigits_zero]
    show List.replicate (width + 1 - 1) '0' ++ [Nat.digitChar n]
      = List.replicate (width - 1) '0' ++ ['0'] ++ [Nat.digitChar n]
    rw [← List.replicate_succ', Nat.sub_add_cancel hwidth, Nat.add_sub_cancel]
  · rw [Nat.toDigits_of_base_le (by decide) (Nat.le_of_not_lt hn), List.length_append,
      List.append_assoc]
    show List.replicate (width + 1 - ((Nat.toDigits 10 (n / 10)).length + 1)) '0' ++ _ = _
    rw [Nat.add_sub_add_right]

/-- A number that fits its width has that many digits. -/
theorem length_padded {width n : Nat} (hwidth : 0 < width) (h : n < 10 ^ width) :
    (padded width n).length = width := by
  have hlength : (natText n).length ≤ width := (Nat.length_toDigits_le_iff (by decide) hwidth).mpr h
  unfold padded
  rw [List.length_append, List.length_replicate]
  omega

/-- The order of two texts with parts of one length in front. -/
theorem append_lt_append {s t u v : Text} (hlength : s.length = t.length)
    (h : s < t ∨ (s = t ∧ u < v)) : s ++ u < t ++ v := by
  induction s generalizing t with
  | nil =>
    obtain rfl : t = [] := List.length_eq_zero_iff.mp hlength.symm
    rcases h with h | ⟨-, h⟩
    · exact absurd h (List.not_lt_nil _)
    · exact h
  | cons c s ih =>
    cases t with
    | nil => exact absurd hlength (Nat.succ_ne_zero _)
    | cons d t =>
      have hrest : s.length = t.length := Nat.succ.inj hlength
      rw [List.cons_append, List.cons_append, List.cons_lt_cons_iff]
      rcases h with h | ⟨h, huv⟩
      · rcases List.cons_lt_cons_iff.mp h with hcd | ⟨hcd, hst⟩
        · exact Or.inl hcd
        · exact Or.inr ⟨hcd, ih hrest (Or.inl hst)⟩
      · obtain ⟨hcd, hst⟩ := List.cons.inj h
        exact Or.inr ⟨hcd, ih hrest (Or.inr ⟨hst, huv⟩)⟩

/-- Digits come in the order of their values. -/
theorem digitChar_lt : ∀ n < 10, ∀ m < n, Nat.digitChar m < Nat.digitChar n := by decide

/-- Numbers of one width compare as texts the way they compare as numbers. -/
theorem padded_lt {width m n : Nat} (hwidth : 0 < width) (hn : n < 10 ^ width) (h : m < n) :
    padded width m < padded width n := by
  induction width, hwidth using Nat.le_induction generalizing m n with
  | base =>
    have hn' : n < 10 := hn
    rw [padded_one hn', padded_one (h.trans hn'), List.cons_lt_cons_iff]
    exact Or.inl (digitChar_lt n hn' m h)
  | succ width hwidth ih =>
    have hfront : n / 10 < 10 ^ width := by
      rw [Nat.pow_succ] at hn
      omega
    rw [padded_succ hwidth, padded_succ hwidth]
    refine append_lt_append ?_ ?_
    · rw [length_padded hwidth hfront, length_padded hwidth (by omega)]
    · -- The digits in front decide, unless they are the same.
      by_cases hdigits : m / 10 < n / 10
      · exact Or.inl (ih hfront hdigits)
      · have hsame : m / 10 = n / 10 := by omega
        rw [hsame, List.cons_lt_cons_iff]
        exact Or.inr ⟨rfl, Or.inl (digitChar_lt _ (by omega) _ (by omega))⟩

/-- The order of two texts with a number in front: that of the numbers, and then of the rests. -/
theorem number_append_lt {width m n : Nat} {ms ns : List Nat} {s t : Text} (hwidth : 0 < width)
    (hm : m < 10 ^ width) (hn : n < 10 ^ width) (hrest : ms < ns → s < t)
    (h : m :: ms < n :: ns) : padded width m ++ s < padded width n ++ t := by
  refine append_lt_append ((length_padded hwidth hm).trans (length_padded hwidth hn).symm) ?_
  rcases List.cons_lt_cons_iff.mp h with hmn | ⟨rfl, hms⟩
  · exact Or.inl (padded_lt hwidth hn hmn)
  · exact Or.inr ⟨rfl, hrest hms⟩

/-- A separator in front of two texts keeps their order. -/
theorem separator_lt {c : Char} {s t : Text} (h : s < t) : c :: s < c :: t :=
  List.cons_lt_cons_iff.mpr (Or.inr ⟨rfl, h⟩)

/-- The digits of a padded number give the number. -/
theorem parseDigits_padded (width n : Nat) : parseDigits (padded width n) = some n := by
  have hdigits : (padded width n).all Char.isDigit = true :=
    List.all_eq_true.mpr fun _ hc => isDigit_of_mem_padded hc
  have hne : padded width n ≠ [] := List.append_ne_nil_of_right_ne_nil _ Nat.toDigits_ne_nil
  rw [parseDigits, if_pos ⟨hne, hdigits⟩]
  unfold padded
  rw [Nat.ofDigitChars_append, Nat.ofDigitChars_replicate_zero, Nat.mul_zero]
  exact congrArg some Nat.ofDigitChars_ten_toDigits

/-- A character that is no digit does not stand in a padded number. -/
theorem not_mem_padded {c : Char} (h : c.isDigit = false) (width n : Nat) : c ∉ padded width n := by
  intro hmem
  have hdigit : c.isDigit := isDigit_of_mem_padded hmem
  rw [h] at hdigit
  exact Bool.false_ne_true hdigit

/-- A number without a sign: its digits, in range. -/
theorem parseI64_of_unsigned {t : Text} (hplus : '+' ∉ t) (hminus : '-' ∉ t) :
    parseI64 t = (parseDigits t).bind fun n =>
      if (n : ℤ) < 2 ^ 63 then some (Int64.ofInt n) else none := by
  unfold parseI64
  split
  · exact absurd List.mem_cons_self hminus
  · exact absurd List.mem_cons_self hplus
  · cases parseDigits t with
    | none => rfl
    | some n =>
      dsimp only
      have hvalue : (Option.map (fun value => value) do let digits ← some n; pure (digits : ℤ))
          = some (n : ℤ) := rfl
      rw [hvalue, Option.bind_eq_bind, Option.bind_some, Option.bind_some]
      by_cases hn : (n : ℤ) < 2 ^ 63
      · rw [if_pos hn]
        exact if_pos ⟨by omega, hn⟩
      · rw [if_neg hn]
        exact if_neg fun h => hn h.2

/-- A padded number is read back. -/
theorem parseI64_padded {width n : Nat} (h : n ≤ 1000000000) :
    parseI64 (padded width n) = some (Int64.ofInt n) := by
  rw [parseI64_of_unsigned (not_mem_padded (by decide) _ _) (not_mem_padded (by decide) _ _),
    parseDigits_padded, Option.bind_some]
  exact if_pos (by omega)

/-! ### The seven numbers -/

/-- The numbers of an instant, each within its bound. -/
structure Fields where
  year : Nat
  month : Nat
  day : Nat
  hour : Nat
  minute : Nat
  second : Nat
  millis : Nat
  year_le : year ≤ 1000000000
  month_range : 1 ≤ month ∧ month ≤ 12
  day_range : 1 ≤ day ∧ day ≤ 31
  hour_lt : hour < 24
  minute_lt : minute < 60
  second_lt : second < 60
  millis_lt : millis < 1000

namespace Fields

/-- The date of the numbers. -/
def dateText (f : Fields) : Text :=
  padded 4 f.year ++ '-' :: (padded 2 f.month ++ '-' :: padded 2 f.day)

/-- The time of day of the numbers. -/
def timeText (f : Fields) : Text :=
  padded 2 f.hour ++ ':' :: (padded 2 f.minute ++ ':' ::
    (padded 2 f.second ++ '.' :: padded 3 f.millis))

/-- The numbers as a text. -/
def text (f : Fields) : Text := f.dateText ++ 'T' :: (f.timeText ++ ['Z'])

/-- The numbers of a text, in the order of their weights. -/
def weights (f : Fields) : List Nat :=
  [f.year, f.month, f.day, f.hour, f.minute, f.second, f.millis]

/-- The layout of an instant, given its numbers. -/
theorem isoText_eq (f : Fields) :
    isoText (Int64.ofInt f.year) f.month f.day f.hour f.minute f.second f.millis = f.text := by
  have hbound := f.year_le
  have hyear : (Int64.ofInt f.year).toInt = f.year := toInt_ofInt ⟨by omega, by omega⟩
  have hpositive : ¬ Int64.ofInt f.year < 0 := by
    rw [lt_iff hyear (show (0 : Int64).toInt = 0 by decide)]
    omega
  unfold isoText text dateText timeText paddedInt
  rw [if_neg hpositive, hyear, Int.natAbs_natCast]
  simp only [List.append_assoc, List.cons_append]

/-- Of two instants in the order of their numbers, the texts come in that order, if the years
have four digits. -/
theorem text_lt {f g : Fields} (hf4 : f.year < 10000) (hg4 : g.year < 10000)
    (h : f.weights < g.weights) : f.text < g.text := by
  obtain ⟨-, hf⟩ := f.month_range
  obtain ⟨-, hg⟩ := g.month_range
  obtain ⟨-, hf'⟩ := f.day_range
  obtain ⟨-, hg'⟩ := g.day_range
  have h2 : (10 : Nat) ^ 2 = 100 := by decide
  simp only [text, dateText, timeText, List.append_assoc, List.cons_append]
  -- One number after the other, the separators between them.
  refine number_append_lt (by decide) hf4 hg4 (fun h => separator_lt ?_) h
  refine number_append_lt (by decide) (by omega) (by omega) (fun h => separator_lt ?_) h
  refine number_append_lt (by decide) (by omega) (by omega) (fun h => separator_lt ?_) h
  refine number_append_lt (by decide) (f.hour_lt.trans (by decide)) (g.hour_lt.trans (by decide))
    (fun h => separator_lt ?_) h
  refine number_append_lt (by decide) (f.minute_lt.trans (by decide))
    (g.minute_lt.trans (by decide)) (fun h => separator_lt ?_) h
  refine number_append_lt (by decide) (f.second_lt.trans (by decide))
    (g.second_lt.trans (by decide)) (fun h => separator_lt ?_) h
  exact number_append_lt (by decide) f.millis_lt g.millis_lt
    (fun h => absurd h (List.not_lt_nil _)) h

end Fields

/-! ### The numbers of an instant -/

/-- The last instant that `i64` holds. -/
def latestMs : Nat := 9223372036854775807

/-- The first instant of the year 10000. -/
def yearTenThousand : Nat := 253402300800000

/-- The day of an instant, counted from the epoch. -/
def dayOf (ms : Nat) : Nat := ms / 86400000

/-- The date of an instant. -/
def dateOf (ms : Nat) : MarchDate := dateOfDay (dayOf ms + epochDay)

/-- The years of a date are not negative, and far from the bounds. -/
theorem year_range {ms : Nat} (h : ms ≤ latestMs) :
    0 ≤ (dateOf ms).year ∧ (dateOf ms).year < 1000000000 ∧
      (ms < yearTenThousand → januaryYear (dateOf ms) < 10000) := by
  obtain ⟨y, doy, hdate, hday, hlow, hnext⟩ := dateOfDay_spec (dayOf ms + epochDay)
  unfold latestMs at h
  unfold yearTenThousand
  unfold yearStart at hday hnext
  unfold januaryYear dateOf
  rw [hdate]
  unfold dayOf epochDay at hday hnext
  unfold monthOf
  dsimp only
  refine ⟨by omega, by omega, ?_⟩
  intro hms
  split
  · omega
  · omega

/-- The same of the years that begin in January. -/
theorem januaryYear_range {ms : Nat} (h : ms ≤ latestMs) :
    0 ≤ januaryYear (dateOf ms) ∧ januaryYear (dateOf ms) ≤ 1000000000 := by
  obtain ⟨hlow, hhigh, -⟩ := year_range h
  unfold januaryYear
  split
  · exact ⟨hlow, hhigh.le⟩
  · exact ⟨by omega, by omega⟩

/-- The numbers of an instant. -/
def fieldsOf (ms : Nat) (h : ms ≤ latestMs) : Fields where
  year := (januaryYear (dateOf ms)).toNat
  month := (januaryMonth (dateOf ms)).toNat
  day := (dateOf ms).day.toNat
  hour := ms / 3600000 % 24
  minute := ms / 60000 % 60
  second := ms / 1000 % 60
  millis := ms % 1000
  year_le := by
    have hyear := januaryYear_range h
    omega
  month_range := by
    obtain ⟨hm0, hm1, -, -⟩ := dateOfDay_range (dayOf ms + epochDay)
    have hmonth : 1 ≤ januaryMonth (dateOf ms) ∧ januaryMonth (dateOf ms) ≤ 12 :=
      januaryMonth_range ⟨hm0, hm1⟩
    omega
  day_range := by
    obtain ⟨-, -, hd0, hd1⟩ := dateOfDay_range (dayOf ms + epochDay)
    have hday : 1 ≤ (dateOf ms).day ∧ (dateOf ms).day ≤ 31 := ⟨hd0, hd1⟩
    omega
  hour_lt := Nat.mod_lt _ (by decide)
  minute_lt := Nat.mod_lt _ (by decide)
  second_lt := Nat.mod_lt _ (by decide)
  millis_lt := Nat.mod_lt _ (by decide)

/-- **The text of an instant is that of its numbers.** -/
theorem formatIso8601_eq {ms : UInt64} (h : ms.toNat ≤ latestMs) :
    formatIso8601 ms = (fieldsOf ms.toNat h).text := by
  have hms : ms.toNat ≤ 9223372036854775807 := h
  have hquotient : (ms / 1000).toNat = ms.toNat / 1000 := UInt64.toNat_div ms 1000
  have hsecs : (ms / 1000).toInt64.toInt = ((ms.toNat / 1000 : Nat) : ℤ) := by
    rw [toInt_toInt64 (by omega), hquotient]
  have hdays : (Int64.ofInt (((ms.toNat / 1000 : Nat) : ℤ) / 86400)).toInt = dayOf ms.toNat := by
    rw [toInt_ofInt ⟨by omega, by omega⟩]
    unfold dayOf
    omega
  have hcivil : civilFromDays (Int64.ofInt (((ms.toNat / 1000 : Nat) : ℤ) / 86400))
      = (Int64.ofInt (januaryYear (dateOf ms.toNat)),
        UInt32.ofNat (fieldsOf ms.toNat h).month, UInt32.ofNat (fieldsOf ms.toNat h).day) :=
    civilFromDays_eq hdays (by omega) (by unfold dayOf latestDay; omega)
  have hyear : januaryYear (dateOf ms.toNat) = (fieldsOf ms.toNat h).year :=
    (Int.toNat_of_nonneg (januaryYear_range h).1).symm
  have hsmall : ∀ k : Nat, k ≤ 31 → (UInt32.ofNat k).toNat = k := by
    intro k hk
    exact UInt32.toNat_ofNat_of_lt' (lt_of_le_of_lt hk (by decide))
  have hmonth := (fieldsOf ms.toNat h).month_range.2
  have hday := (fieldsOf ms.toNat h).day_range.2
  unfold formatIso8601
  rw [hsecs]
  dsimp only
  rw [hcivil, hyear]
  dsimp only
  rw [hsmall _ (by omega), hsmall _ hday, ← Fields.isoText_eq]
  -- What is left is the time of day.
  have hmillis : (ms % 1000).toNat = ms.toNat % 1000 := UInt64.toNat_mod ms 1000
  have hsecond : (((ms.toNat / 1000 : Nat) : ℤ) % 86400 % 60).toNat = ms.toNat / 1000 % 60 := by
    omega
  have hminute : (((ms.toNat / 1000 : Nat) : ℤ) % 86400 % 3600 / 60).toNat
      = ms.toNat / 60000 % 60 := by
    omega
  have hhour : (((ms.toNat / 1000 : Nat) : ℤ) % 86400 / 3600).toNat = ms.toNat / 3600000 % 24 := by
    omega
  rw [hmillis, hsecond, hminute, hhour]
  rfl

/-- Dates come in the order of their years, months and days, counted from January. -/
theorem january_lt {d e : MarchDate} (hd : 0 ≤ d.month ∧ d.month ≤ 11)
    (he : 0 ≤ e.month ∧ e.month ≤ 11) (hyear : 0 ≤ januaryYear d) (hday : 1 ≤ d.day) (h : d.Lt e)
    (ms ns : List Nat) :
    (januaryYear d).toNat :: (januaryMonth d).toNat :: d.day.toNat :: ms
      < (januaryYear e).toNat :: (januaryMonth e).toNat :: e.day.toNat :: ns := by
  have hjanuary : januaryYear d < januaryYear e ∨ (januaryYear d = januaryYear e ∧
      (januaryMonth d < januaryMonth e ∨ (januaryMonth d = januaryMonth e ∧ d.day < e.day))) := by
    unfold MarchDate.Lt at h
    unfold januaryYear januaryMonth
    -- January and February are the last months of a year that begins in March.
    split_ifs <;> omega
  have hmonth := (januaryMonth_range hd).1
  simp only [List.cons_lt_cons_iff]
  rcases hjanuary with hlt | ⟨hyears, hlt | ⟨hmonths, hlt⟩⟩
  · exact Or.inl ((Int.toNat_lt_toNat (by omega)).mpr hlt)
  · rw [hyears]
    exact Or.inr ⟨rfl, Or.inl ((Int.toNat_lt_toNat (by omega)).mpr hlt)⟩
  · rw [hyears, hmonths]
    exact Or.inr ⟨rfl, Or.inr ⟨rfl, Or.inl ((Int.toNat_lt_toNat (by omega)).mpr hlt)⟩⟩

/-- Of two numbers that agree above a digit, the digit decides or the numbers agree above the
next one. -/
theorem digit_lt {a b unit base : Nat} (h : a < b) (hsame : a / (unit * base) = b / (unit * base)) :
    a / unit % base < b / unit % base ∨
      (a / unit % base = b / unit % base ∧ a / unit = b / unit) := by
  have hle : a / unit ≤ b / unit := Nat.div_le_div_right h.le
  have ha := Nat.div_add_mod (a / unit) base
  have hb := Nat.div_add_mod (b / unit) base
  rw [Nat.div_div_eq_div_mul] at ha hb
  rw [hsame] at ha
  omega

/-- Instants of one day come in the order of their times of day. -/
theorem timeOfDay_lt {a b : Nat} (h : a < b) (hday : dayOf a = dayOf b) :
    [a / 3600000 % 24, a / 60000 % 60, a / 1000 % 60, a % 1000]
      < [b / 3600000 % 24, b / 60000 % 60, b / 1000 % 60, b % 1000] := by
  simp only [List.cons_lt_cons_iff]
  rcases @digit_lt a b 3600000 24 h hday with hhour | ⟨hhour, hhours⟩
  · exact Or.inl hhour
  rcases @digit_lt a b 60000 60 h hhours with hminute | ⟨hminute, hminutes⟩
  · exact Or.inr ⟨hhour, Or.inl hminute⟩
  rcases @digit_lt a b 1000 60 h hminutes with hsecond | ⟨hsecond, hseconds⟩
  · exact Or.inr ⟨hhour, Or.inr ⟨hminute, Or.inl hsecond⟩⟩
  · have hmillis : a % 1000 < b % 1000 := by omega
    exact Or.inr ⟨hhour, Or.inr ⟨hminute, Or.inr ⟨hsecond, Or.inl hmillis⟩⟩⟩

/-- Instants come in the order of their numbers. -/
theorem weights_lt {a b : Nat} (ha : a ≤ latestMs) (hb : b ≤ latestMs) (h : a < b) :
    (fieldsOf a ha).weights < (fieldsOf b hb).weights := by
  by_cases hday : dayOf a < dayOf b
  · have hrange : ∀ ms, 0 ≤ (dateOf ms).month ∧ (dateOf ms).month ≤ 11 ∧ 1 ≤ (dateOf ms).day ∧
        (dateOf ms).day ≤ 31 := fun ms => dateOfDay_range _
    obtain ⟨hm0, hm1, hd0, -⟩ := hrange a
    obtain ⟨hm0', hm1', -, -⟩ := hrange b
    have hlt : (dateOf a).Lt (dateOf b) := dateOfDay_lt (by omega)
    exact january_lt ⟨hm0, hm1⟩ ⟨hm0', hm1'⟩ (januaryYear_range ha).1 hd0 hlt _ _
  · -- On one day the time of day decides.
    have hdays : dayOf a = dayOf b := by
      unfold dayOf at hday ⊢
      omega
    have hdate : dateOf a = dateOf b := by
      unfold dateOf
      rw [hdays]
    unfold Fields.weights fieldsOf
    dsimp only
    rw [hdate]
    have hfront : ∀ {n : Nat} {s t : List Nat}, s < t → n :: s < n :: t := fun hst =>
      List.cons_lt_cons_iff.mpr (Or.inr ⟨rfl, hst⟩)
    exact hfront (hfront (hfront (timeOfDay_lt h hdays)))

/-- **Two instants compare as texts the way they compare as numbers.** -/
theorem formatIso8601_lt {a b : UInt64} (hb : b.toNat < yearTenThousand) (h : a.toNat < b.toNat) :
    formatIso8601 a < formatIso8601 b := by
  have hb' : b.toNat ≤ latestMs := hb.le.trans (by decide)
  have ha' : a.toNat ≤ latestMs := h.le.trans hb'
  have hyear : ∀ {ms : Nat} (h : ms ≤ latestMs), ms < yearTenThousand →
      (fieldsOf ms h).year < 10000 := by
    intro ms h hms
    have hlt := (year_range h).2.2 hms
    have hlow := (januaryYear_range h).1
    show (januaryYear (dateOf ms)).toNat < 10000
    omega
  rw [formatIso8601_eq ha', formatIso8601_eq hb']
  exact Fields.text_lt (hyear ha' (h.trans hb)) (hyear hb' hb) (weights_lt ha' hb' h)

/-- The same, for a comparison that may be equal. -/
theorem formatIso8601_le_iff {a b : UInt64} (ha : a.toNat < yearTenThousand)
    (hb : b.toNat < yearTenThousand) : formatIso8601 a ≤ formatIso8601 b ↔ a.toNat ≤ b.toNat := by
  constructor
  · intro h
    by_contra hab
    exact absurd (formatIso8601_lt ha (Nat.lt_of_not_le hab)) (not_lt.mpr h)
  · intro h
    rcases Nat.lt_or_eq_of_le h with hlt | heq
    · exact (formatIso8601_lt hb hlt).le
    · rw [UInt64.toNat_inj.mp heq]

/-! ### Reading an instant -/

/-- A digit is not white space. -/
theorem isWhitespace_of_isDigit {c : Char} (h : c.isDigit) : isWhitespace c = false := by
  have hrange : 48 ≤ c.toNat ∧ c.toNat ≤ 57 := by
    simp only [Char.isDigit, Bool.and_eq_true, decide_eq_true_eq, ge_iff_le,
      UInt32.le_iff_toNat_le] at h
    exact h
  simp only [isWhitespace, Bool.or_eq_false_iff, Bool.and_eq_false_iff, decide_eq_false_iff_not,
    beq_eq_false_iff_ne]
  omega

/-- A split at the first character of a set. -/
theorem splitOnceAny_append {chars : List Char} {a b : Text} {c : Char}
    (ha : ∀ x ∈ a, x ∉ chars) (hc : c ∈ chars) :
    splitOnceAny chars (a ++ c :: b) = some (a, b) := by
  have hpos : ∀ x ∈ a, decide (x ∉ chars) = true := fun x hx => decide_eq_true (ha x hx)
  have hneg : decide (c ∉ chars) = false := decide_eq_false fun h => h hc
  unfold splitOnceAny
  rw [List.dropWhile_append_of_pos hpos, List.takeWhile_append_of_pos hpos, List.dropWhile_cons,
    List.takeWhile_cons, hneg]
  show some (a ++ [], b) = some (a, b)
  rw [List.append_nil]

namespace Fields

variable (f : Fields)

/-- A character of a date is a digit or a hyphen. -/
theorem mem_dateText {f : Fields} {c : Char} (h : c ∈ f.dateText) : c.isDigit ∨ c = '-' := by
  unfold dateText at h
  rw [List.mem_append, List.mem_cons, List.mem_append, List.mem_cons] at h
  rcases h with h | h | h | h | h
  · exact Or.inl (isDigit_of_mem_padded h)
  · exact Or.inr h
  · exact Or.inl (isDigit_of_mem_padded h)
  · exact Or.inr h
  · exact Or.inl (isDigit_of_mem_padded h)

/-- No white space stands around an instant. -/
theorem trim_text : trim f.text = f.text := by
  refine trim_of_forall ?_
  intro c hc
  rw [← f.isoText_eq] at hc
  rcases mem_isoText hc with hdigit | hmark
  · exact isWhitespace_of_isDigit hdigit
  · have hmarks : c = '-' ∨ c = 'T' ∨ c = ':' ∨ c = '.' ∨ c = 'Z' := by simpa using hmark
    rcases hmarks with rfl | rfl | rfl | rfl | rfl <;> rfl

/-- The date is read back. -/
theorem parseDate_dateText : parseDate f.dateText
    = some (Int64.ofInt f.year, Int64.ofInt f.month, Int64.ofInt f.day) := by
  have hhyphen := not_mem_padded (c := '-') (by decide)
  -- The hyphens separate the fields, which have none themselves.
  have hparts : f.dateText.splitOn '-' = [padded 4 f.year, padded 2 f.month, padded 2 f.day] := by
    unfold dateText
    rw [List.splitOn_append_cons_self_of_not_mem (hhyphen _ _),
      List.splitOn_append_cons_self_of_not_mem (hhyphen _ _),
      List.splitOn_eq_singleton (hhyphen _ _)]
  obtain ⟨hm, hm'⟩ := f.month_range
  obtain ⟨hd, hd'⟩ := f.day_range
  -- A month and a day are small, so their signed numbers are the same.
  have hmonth : (Int64.ofInt f.month).toInt = f.month := toInt_ofInt ⟨by omega, by omega⟩
  have hday : (Int64.ofInt f.day).toInt = f.day := toInt_ofInt ⟨by omega, by omega⟩
  have hrange : 1 ≤ Int64.ofInt f.month ∧ Int64.ofInt f.month ≤ 12 ∧ 1 ≤ Int64.ofInt f.day
      ∧ Int64.ofInt f.day ≤ 31 := by
    have h1 : (1 : Int64).toInt = 1 := by decide
    have h12 : (12 : Int64).toInt = 12 := by decide
    have h31 : (31 : Int64).toInt = 31 := by decide
    rw [le_iff h1 hmonth, le_iff hmonth h12, le_iff h1 hday, le_iff hday h31]
    omega
  unfold parseDate
  rw [hparts]
  simp only [List.getElem?_cons_zero, List.getElem?_cons_succ, Option.bind_some,
    Option.bind_eq_bind]
  -- The three numbers are read back and are in their ranges.
  rw [parseI64_padded f.year_le, parseI64_padded (by omega), parseI64_padded (by omega)]
  exact if_pos hrange

/-- The seconds are read back, and the digits of the fraction are milliseconds. -/
theorem parseSeconds_text {second millis : Nat} (hsecond : second ≤ 60)
    (hmillis : millis < 1000) :
    parseSeconds (padded 2 second ++ '.' :: padded 3 millis)
      = some (Int64.ofInt second, Int64.ofInt millis) := by
  have hsplit : splitOnce ['.'] (padded 2 second ++ '.' :: padded 3 millis)
      = some (padded 2 second, padded 3 millis) :=
    splitOnce_singleton_iff.mpr ⟨rfl, not_mem_padded (by decide) _ _⟩
  have hfilter : (padded 3 millis).filter Char.isDigit = padded 3 millis :=
    List.filter_eq_self.mpr fun _ hc => isDigit_of_mem_padded hc
  have hlength : (padded 3 millis).length = 3 := length_padded (by decide) hmillis
  unfold parseSeconds
  rw [hsplit]
  dsimp only
  rw [hfilter, List.take_of_length_le hlength.le, hlength]
  simp only [Option.bind_eq_bind]
  rw [parseI64_padded (by omega), Nat.sub_self, List.replicate_zero, List.append_nil,
    parseI64_padded (by omega)]
  rfl

/-- The time of day is read back. -/
theorem parseTime_timeText : parseTime f.timeText
    = some (Int64.ofInt f.hour, Int64.ofInt f.minute, Int64.ofInt f.second,
      Int64.ofInt f.millis) := by
  have hcolon := not_mem_padded (c := ':') (by decide)
  -- The seconds and the millis are separated by a point.
  have hlast : ':' ∉ padded 2 f.second ++ '.' :: padded 3 f.millis := by
    rw [List.mem_append, List.mem_cons]
    rintro (h | h | h)
    · exact hcolon _ _ h
    · exact absurd h (by decide)
    · exact hcolon _ _ h
  have hparts : f.timeText.splitOn ':'
      = [padded 2 f.hour, padded 2 f.minute, padded 2 f.second ++ '.' :: padded 3 f.millis] := by
    unfold timeText
    rw [List.splitOn_append_cons_self_of_not_mem (hcolon _ _),
      List.splitOn_append_cons_self_of_not_mem (hcolon _ _), List.splitOn_eq_singleton hlast]
  have hhour := f.hour_lt
  have hminute := f.minute_lt
  have hsecond := f.second_lt
  -- The three numbers of the time are small as well.
  have hhours : (Int64.ofInt f.hour).toInt = f.hour := toInt_ofInt ⟨by omega, by omega⟩
  have hminutes : (Int64.ofInt f.minute).toInt = f.minute := toInt_ofInt ⟨by omega, by omega⟩
  have hseconds : (Int64.ofInt f.second).toInt = f.second := toInt_ofInt ⟨by omega, by omega⟩
  have hrange : 0 ≤ Int64.ofInt f.hour ∧ Int64.ofInt f.hour ≤ 23 ∧ 0 ≤ Int64.ofInt f.minute
      ∧ Int64.ofInt f.minute ≤ 59 ∧ 0 ≤ Int64.ofInt f.second ∧ Int64.ofInt f.second ≤ 60 := by
    have h0 : (0 : Int64).toInt = 0 := by decide
    have h23 : (23 : Int64).toInt = 23 := by decide
    have h59 : (59 : Int64).toInt = 59 := by decide
    have h60 : (60 : Int64).toInt = 60 := by decide
    rw [le_iff h0 hhours, le_iff hhours h23, le_iff h0 hminutes, le_iff hminutes h59,
      le_iff h0 hseconds, le_iff hseconds h60]
    omega
  unfold parseTime
  rw [hparts]
  simp only [List.getElem?_cons_zero, List.getElem?_cons_succ, Option.bind_some,
    Option.bind_eq_bind]
  -- The numbers are read back, and the seconds with their millis.
  rw [parseI64_padded (by omega), parseI64_padded (by omega),
    parseSeconds_text (by omega) f.millis_lt]
  exact if_pos hrange

/-- An instant ends in the zone of UTC. -/
theorem splitOffset_timeText : splitOffset (f.timeText ++ ['Z']) = some (some (f.timeText, 0)) := by
  unfold splitOffset
  rw [List.getLast?_concat, if_pos (Or.inl rfl), List.dropLast_concat]

/-- What is read of a text is the instant of its numbers. -/
theorem parseIso8601_text : parseIso8601 f.text
    = some (instantOf (Int64.ofInt f.year, Int64.ofInt f.month, Int64.ofInt f.day)
      (Int64.ofInt f.hour, Int64.ofInt f.minute, Int64.ofInt f.second,
          Int64.ofInt f.millis) 0) := by
  have hsplit : splitOnceAny ['T', 't', ' '] f.text = some (f.dateText, f.timeText ++ ['Z']) := by
    refine splitOnceAny_append ?_ List.mem_cons_self
    intro c hc hmem
    have hletters : c = 'T' ∨ c = 't' ∨ c = ' ' := by simpa using hmem
    rcases mem_dateText hc with hdigit | rfl
    · rcases hletters with rfl | rfl | rfl <;> exact absurd hdigit (by decide)
    · rcases hletters with h | h | h <;> exact absurd h (by decide)
  unfold parseIso8601
  rw [trim_text, hsplit]
  dsimp only
  rw [parseDate_dateText, splitOffset_timeText]
  show some ((parseTime f.timeText).bind fun time => instantOf _ time 0) = _
  rw [parseTime_timeText, Option.bind_some]

end Fields

/-- The days of the numbers of an instant. -/
theorem toInt_days {ms : Nat} (h : ms ≤ latestMs) :
    (daysFromCivil (Int64.ofInt (fieldsOf ms h).year) (Int64.ofInt (fieldsOf ms h).month)
      (Int64.ofInt (fieldsOf ms h).day)).toInt = dayOf ms := by
  have hsmall : ∀ k : ℤ, 0 ≤ k → k ≤ 1000000000 → (Int64.ofInt (k.toNat : ℤ)).toInt = k := by
    intro k h0 h1
    rw [Int.toNat_of_nonneg h0]
    exact toInt_ofInt ⟨by omega, by omega⟩
  obtain ⟨hy0, hy1⟩ := januaryYear_range h
  obtain ⟨hyear0, hyear1, -⟩ := year_range h
  obtain ⟨hm0, hm1, hd0, hd1⟩ : 0 ≤ (dateOf ms).month ∧ (dateOf ms).month ≤ 11 ∧
      1 ≤ (dateOf ms).day ∧ (dateOf ms).day ≤ 31 := dateOfDay_range _
  obtain ⟨hj0, hj1⟩ := januaryMonth_range ⟨hm0, hm1⟩
  have hday : dayOfDate (dateOf ms) = dayOf ms + epochDay := dayOfDate_dateOfDay _
  have hdays := toInt_daysFromCivil (hsmall _ hy0 hy1)
    (hsmall (januaryMonth (dateOf ms)) (by omega) (by omega))
    (hsmall (dateOf ms).day (by omega) (by omega)) ⟨hyear0, hyear1.le⟩ ⟨hm0, hm1⟩ ⟨hd0, hd1⟩
  rw [hday, add_sub_cancel_right] at hdays
  exact hdays

/-- The seconds of a day and a time of day, in machine arithmetic. -/
theorem toInt_seconds {days : Int64} {day hour minute second : Nat} (hdays : days.toInt = day)
    (hday : day ≤ 106751991167) (hhour : hour < 24) (hminute : minute < 60)
    (hsecond : second < 60) :
    (days * 86400 + Int64.ofInt hour * 3600 + Int64.ofInt minute * 60 + Int64.ofInt second
        - 0 * 60).toInt = day * 86400 + hour * 3600 + minute * 60 + second := by
  have hcast : ∀ n : Nat, n < 60 → (Int64.ofInt n).toInt = n := fun n hn =>
    toInt_ofInt ⟨by omega, by omega⟩
  have h1 : (days * 86400).toInt = day * 86400 :=
    toInt_mul hdays (by decide) ⟨by omega, by omega⟩
  have h2 : (Int64.ofInt hour * 3600).toInt = hour * 3600 :=
    toInt_mul (hcast hour (by omega)) (by decide) ⟨by omega, by omega⟩
  have h3 : (Int64.ofInt minute * 60).toInt = minute * 60 :=
    toInt_mul (hcast minute hminute) (by decide) ⟨by omega, by omega⟩
  have h4 := toInt_add h1 h2 ⟨by omega, by omega⟩
  have h5 := toInt_add h4 h3 ⟨by omega, by omega⟩
  have hzero : (0 * 60 : Int64) = 0 := by decide
  rw [hzero, Int64.sub_zero]
  exact toInt_add h5 (hcast second hsecond) ⟨by omega, by omega⟩

/-- The milliseconds of an instant, in machine arithmetic. -/
theorem toInt_millis {seconds : Int64} {day hour minute second millis ms : Nat}
    (hseconds : seconds.toInt = day * 86400 + hour * 3600 + minute * 60 + second)
    (hmillis : millis < 1000)
    (hsum : (day * 86400 + hour * 3600 + minute * 60 + second) * 1000 + millis = ms)
    (h : ms ≤ latestMs) : (seconds * 1000 + Int64.ofInt millis).toInt = ms := by
  unfold latestMs at h
  have hcast : (Int64.ofInt millis).toInt = millis := toInt_ofInt ⟨by omega, by omega⟩
  -- These two steps come close to the bound.
  have hproduct := toInt_mul_of_fits hseconds (show (1000 : Int64).toInt = 1000 by decide)
    ⟨by omega, by omega⟩
  rw [toInt_add_of_fits hproduct hcast ⟨by omega, by omega⟩]
  omega

/-- The instant of its numbers. -/
theorem instantOf_fieldsOf {ms : UInt64} (h : ms.toNat ≤ latestMs) :
    instantOf (Int64.ofInt (fieldsOf ms.toNat h).year, Int64.ofInt (fieldsOf ms.toNat h).month,
        Int64.ofInt (fieldsOf ms.toNat h).day)
      (Int64.ofInt (fieldsOf ms.toNat h).hour, Int64.ofInt (fieldsOf ms.toNat h).minute,
        Int64.ofInt (fieldsOf ms.toNat h).second, Int64.ofInt (fieldsOf ms.toNat h).millis) 0
      = some ms := by
  have hsum : (dayOf ms.toNat * 86400 + ms.toNat / 3600000 % 24 * 3600
      + ms.toNat / 60000 % 60 * 60 + ms.toNat / 1000 % 60) * 1000 + ms.toNat % 1000
        = ms.toNat := by
    unfold dayOf
    omega
  have hday : dayOf ms.toNat ≤ 106751991167 := by
    unfold dayOf latestMs at *
    omega
  have hseconds := toInt_seconds (toInt_days h) hday (fieldsOf ms.toNat h).hour_lt
    (fieldsOf ms.toNat h).minute_lt (fieldsOf ms.toNat h).second_lt
  have hmillis := toInt_millis hseconds (fieldsOf ms.toNat h).millis_lt hsum h
  unfold instantOf
  dsimp only
  rw [if_pos]
  · rw [toUInt64_eq hmillis (Int.natCast_nonneg _), Int.toNat_natCast, UInt64.ofNat_toNat]
  · rw [ge_iff_le, le_iff (show (0 : Int64).toInt = 0 by decide) hmillis]
    exact Int.natCast_nonneg _

/-- **An instant is read back from its text.** -/
theorem parseIso8601_formatIso8601 {ms : UInt64} (h : ms.toNat ≤ latestMs) :
    parseIso8601 (formatIso8601 ms) = some (some ms) := by
  rw [formatIso8601_eq h, Fields.parseIso8601_text, instantOf_fieldsOf]

/-- **Timestamps round-trip.** Every instant up to `i64::MAX` is read back from its text, with a
year of four digits or of more. -/
theorem timestamps_round_trip (ms : UInt64) (h : ms.toNat ≤ 2 ^ 63 - 1) :
    parseIso8601 (formatIso8601 ms) = some (some ms) :=
  parseIso8601_formatIso8601 h

/-- The last instant, in the year 292277026. -/
theorem timestamps_round_trip_latest :
    parseIso8601 (formatIso8601 9223372036854775807) = some (some 9223372036854775807) :=
  timestamps_round_trip 9223372036854775807 (by decide)

end Gabriel.Core
