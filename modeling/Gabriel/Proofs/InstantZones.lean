import Gabriel.Proofs.InstantParts

/-!
# `Gabriel.Proofs.InstantZones`: zone designators as texts

`ZoneText` is the grammar of a zone designator, with its offset in minutes: a letter for UTC, or a
sign with the hours and the minutes of a real zone, or nothing at all.

`split_offset` finds it behind the last sign of a text (`designator`). It panics when it cuts four
bytes inside a character, or when the minutes do not fit (`ZoneFits`). A designator is read as its
offset, and what is read is one when its hours and minutes are real (`ZoneReal`). The theorems:

* `exists_last`, `splitAtLast_some`: the last sign of a text, and what stands around it.
* `ZoneTime.read`, `zoneTime_of_read`: the hours and the minutes of a zone.
* `splitOffset_of_none`, `splitOffset_of_some`: a text without a sign, and one with a sign.
* `splitOffsetChecked_iff`: a designator is read with checks exactly when it fits, and then the
  checks change nothing.
* `ZoneText.read`, `zoneText_of_read`: designators behind a time, in both directions.
-/

set_option autoImplicit false

namespace Gabriel.Core

open Calendar MachineInt Text

/-! ### Splits -/

/-- A split at a number of bytes puts the text back together. -/
theorem splitBytes_spec {n : ℕ} {t a b : Text} (h : splitBytes n t = some (a, b)) :
    t = a ++ b ∧ utf8Len a = n := by
  induction t generalizing n a b with
  | nil =>
    cases n with
    | zero =>
      obtain ⟨rfl, rfl⟩ := Prod.mk.inj (Option.some.inj h)
      exact ⟨rfl, rfl⟩
    | succ n => exact absurd h.symm (Option.some_ne_none _)
  | cons c t ih =>
    cases n with
    | zero =>
      obtain ⟨rfl, rfl⟩ := Prod.mk.inj (Option.some.inj h)
      exact ⟨rfl, rfl⟩
    | succ n =>
      obtain ⟨hsize, h⟩ := Option.ite_none_right_eq_some.mp h
      obtain ⟨⟨a', b'⟩, hrest, hpair⟩ := Option.map_eq_some_iff.mp h
      obtain ⟨rfl, rfl⟩ := Prod.mk.inj hpair
      obtain ⟨rfl, hlen⟩ := ih hrest
      refine ⟨rfl, ?_⟩
      show c.utf8Size + utf8Len a' = n + 1
      omega

/-- A digit is one byte. -/
theorem utf8Size_of_isDigit {c : Char} (h : c.isDigit) : c.utf8Size = 1 := by
  simp only [Char.isDigit, Bool.and_eq_true, decide_eq_true_eq] at h
  exact Char.utf8Size_eq_one_iff.mpr (UInt32.le_trans h.2 (by decide))

/-- Digits are as many bytes as characters. -/
theorem utf8Len_of_digits {t : Text} (h : ∀ c ∈ t, c.isDigit) : utf8Len t = t.length := by
  refine utf8Len_of_ascii fun c hc => ?_
  have hsize := Char.utf8Size_eq_one_iff.mp (utf8Size_of_isDigit (h c hc))
  exact UInt32.le_iff_toNat_le.mp hsize

/-- A split behind digits. -/
theorem splitBytes_digits {a : Text} (h : ∀ c ∈ a, c.isDigit) (b : Text) :
    splitBytes a.length (a ++ b) = some (a, b) := by
  induction a with
  | nil => cases b <;> rfl
  | cons c a ih =>
    rw [List.forall_mem_cons] at h
    have hsize := utf8Size_of_isDigit h.1
    rw [List.length_cons, List.cons_append, splitBytes, if_pos (by omega), hsize,
      Nat.add_sub_cancel, ih h.2]
    rfl

/-- A split at the last character of a set. -/
theorem splitAtLast_append {chars : List Char} {a rest : Text} {c : Char} (hc : c ∈ chars)
    (hrest : ∀ x ∈ rest, x ∉ chars) :
    splitAtLast chars (a ++ c :: rest) = some (a, c :: rest) := by
  have hpos : ∀ x ∈ rest.reverse, decide (x ∉ chars) = true := fun x hx =>
    decide_eq_true (hrest x (List.mem_reverse.mp hx))
  have hneg : decide (c ∉ chars) = false := decide_eq_false fun h => h hc
  have hreverse : (a ++ c :: rest).reverse = rest.reverse ++ c :: a.reverse := by simp
  unfold splitAtLast
  rw [hreverse, List.dropWhile_append_of_pos hpos, List.takeWhile_append_of_pos hpos,
    List.dropWhile_cons, List.takeWhile_cons, hneg]
  show some (a.reverse.reverse, c :: (rest.reverse ++ []).reverse) = some (a, c :: rest)
  rw [List.append_nil, List.reverse_reverse, List.reverse_reverse]

/-- A text without the characters of a set does not split. -/
theorem splitAtLast_eq_none {chars : List Char} {t : Text} (h : ∀ x ∈ t, x ∉ chars) :
    splitAtLast chars t = none := by
  have hnil : t.reverse.dropWhile (fun c => decide (c ∉ chars)) = [] :=
    List.dropWhile_eq_nil_iff.mpr fun x hx => decide_eq_true (h x (List.mem_reverse.mp hx))
  unfold splitAtLast
  rw [hnil]

/-- A character of a set stands somewhere for the last time. -/
theorem exists_last {chars : List Char} {t : Text} (h : ∃ c ∈ t, c ∈ chars) :
    ∃ a c rest, t = a ++ c :: rest ∧ c ∈ chars ∧ ∀ x ∈ rest, x ∉ chars := by
  induction t with
  | nil =>
    obtain ⟨c, hc, -⟩ := h
    exact absurd hc List.not_mem_nil
  | cons d t ih =>
    by_cases hmore : ∃ c ∈ t, c ∈ chars
    · obtain ⟨a, c, rest, rfl, hc, hrest⟩ := ih hmore
      exact ⟨d :: a, c, rest, rfl, hc, hrest⟩
    · obtain ⟨c, hc, hchars⟩ := h
      rcases List.mem_cons.mp hc with rfl | hc
      · exact ⟨[], c, t, rfl, hchars, fun x hx hxs => hmore ⟨x, hx, hxs⟩⟩
      · exact absurd ⟨c, hc, hchars⟩ hmore

/-- The last character of a set, and what stands around it. -/
theorem splitAtLast_some {chars : List Char} {t a b : Text}
    (h : splitAtLast chars t = some (a, b)) :
    ∃ c rest, b = c :: rest ∧ c ∈ chars ∧ t = a ++ c :: rest ∧ ∀ x ∈ rest, x ∉ chars := by
  by_cases hsome : ∃ c ∈ t, c ∈ chars
  · obtain ⟨a', c, rest, rfl, hc, hrest⟩ := exists_last hsome
    rw [splitAtLast_append hc hrest] at h
    obtain ⟨rfl, rfl⟩ := Prod.mk.inj (Option.some.inj h)
    exact ⟨c, rest, rfl, hc, rfl, hrest⟩
  · have hnone : splitAtLast chars t = none :=
      splitAtLast_eq_none fun x hx hxs => hsome ⟨x, hx, hxs⟩
    exact absurd (h.symm.trans hnone) (Option.some_ne_none _)

/-! ### Zones -/

/-- The hours and the minutes of a zone in digits. -/
inductive ZoneTime : Text → ℤ → ℤ → Prop
  | colon {a b : Text} {h m : ℕ} (hours : parseDigits a = some h)
      (minutes : parseDigits b = some m) : ZoneTime (a ++ ':' :: b) h m
  | compact {a b : Text} {h m : ℕ} (hours : parseDigits a = some h)
      (minutes : parseDigits b = some m) (ha : a.length = 2) (hb : b.length = 2) :
      ZoneTime (a ++ b) h m
  | hours {a : Text} {h : ℕ} (hours : parseDigits a = some h) (ha : a.length ≠ 4) : ZoneTime a h 0

variable {t : Text} {h m : Int64}

/-- Two numbers that are read. -/
theorem parseI64_of_pair {a b : Text} (heq : (do
      let hours ← parseI64 a
      let minutes ← parseI64 b
      some (hours, minutes)) = some (h, m)) : parseI64 a = some h ∧ parseI64 b = some m := by
  obtain ⟨x, hx, heq⟩ := Option.bind_eq_some_iff.mp heq
  obtain ⟨y, hy, heq⟩ := Option.bind_eq_some_iff.mp heq
  obtain ⟨rfl, rfl⟩ := Prod.mk.inj (Option.some.inj heq)
  exact ⟨hx, hy⟩

/-- The hours and the minutes of a zone in digits are read. -/
theorem ZoneTime.read {h' m' : ℤ} (ht : ZoneTime t h' m')
    (hread : parseOffset t = some (some (h, m))) : h.toInt = h' ∧ m.toInt = m' := by
  -- The three forms of a zone, against the three arms of `parseOffset`.
  cases ht with
  | colon hours minutes =>
    rename_i a b h' m'
    have hsplit : splitOnce [':'] (a ++ ':' :: b) = some (a, b) :=
      splitOnce_singleton_iff.mpr ⟨rfl, not_mem_of_parseDigits hours (by decide)⟩
    rw [parseOffset, hsplit] at hread
    obtain ⟨hx, hy⟩ := parseI64_of_pair (Option.some.inj hread)
    exact ⟨toInt_of_parseDigits hours hx, toInt_of_parseDigits minutes hy⟩
  | compact hours minutes ha hb =>
    rename_i a b h' m'
    have hdigits : ∀ c ∈ a ++ b, c.isDigit := List.forall_mem_append.mpr
      ⟨isDigit_of_parseDigits hours, isDigit_of_parseDigits minutes⟩
    -- Digits hold no colon, and four of them are four bytes.
    have hsplit : splitOnce [':'] (a ++ b) = none :=
      splitOnce_singleton_eq_none.mpr fun hmem => absurd (hdigits _ hmem) (by decide)
    -- So the bytes are cut behind the second digit, between hours and minutes.
    have hfour : utf8Len (a ++ b) = 4 := by
      rw [utf8Len_of_digits hdigits, List.length_append, ha, hb]
    have htwo : splitBytes 2 (a ++ b) = some (a, b) := by
      rw [← ha]
      exact splitBytes_digits (isDigit_of_parseDigits hours) b
    rw [parseOffset, hsplit] at hread
    dsimp only at hread
    rw [if_pos hfour, htwo] at hread
    obtain ⟨hx, hy⟩ := parseI64_of_pair (Option.some.inj hread)
    exact ⟨toInt_of_parseDigits hours hx, toInt_of_parseDigits minutes hy⟩
  | hours hours ha =>
    have hsplit : splitOnce [':'] t = none :=
      splitOnce_singleton_eq_none.mpr (not_mem_of_parseDigits hours (by decide))
    have hfour : ¬ utf8Len t = 4 := by
      rw [utf8Len_of_digits (isDigit_of_parseDigits hours)]
      exact ha
    rw [parseOffset, hsplit] at hread
    dsimp only at hread
    rw [if_neg hfour] at hread
    obtain ⟨x, hx, heq⟩ := Option.map_eq_some_iff.mp (Option.some.inj hread)
    obtain ⟨rfl, rfl⟩ := Prod.mk.inj heq
    exact ⟨toInt_of_parseDigits hours hx, by decide⟩

/-- A zone without signs whose hours and minutes are read is in digits. -/
theorem zoneTime_of_read (hplus : '+' ∉ t) (hminus : '-' ∉ t)
    (hread : parseOffset t = some (some (h, m))) : ZoneTime t h.toInt m.toInt := by
  -- Without signs what `parse` accepts is digits.
  have hnumber : ∀ {a : Text} {x : Int64}, (∀ c ∈ a, c ∈ t) → parseI64 a = some x →
      ∃ n, parseDigits a = some n ∧ x.toInt = n := fun hsub hx =>
    parseDigits_of_parseI64 (fun hmem => hplus (hsub _ hmem)) (fun hmem => hminus (hsub _ hmem)) hx
  -- With a colon there are two numbers around it; without one, four bytes are two of them.
  cases hsplit : splitOnce [':'] t with
  | some e =>
    obtain ⟨a, b⟩ := e
    rw [parseOffset, hsplit] at hread
    obtain ⟨hx, hy⟩ := parseI64_of_pair (Option.some.inj hread)
    obtain ⟨rfl, -⟩ := splitOnce_singleton_iff.mp hsplit
    obtain ⟨nh, hnh, vh⟩ := hnumber (fun c hc => List.mem_append_left _ hc) hx
    obtain ⟨nm, hnm, vm⟩ :=
      hnumber (fun c hc => List.mem_append_right _ (List.mem_cons_of_mem _ hc)) hy
    rw [vh, vm]
    exact ZoneTime.colon hnh hnm
  | none =>
    rw [parseOffset, hsplit] at hread
    dsimp only at hread
    by_cases hfour : utf8Len t = 4
    · rw [if_pos hfour] at hread
      obtain ⟨⟨a, b⟩, hbytes, hread⟩ := Option.map_eq_some_iff.mp hread
      obtain ⟨hx, hy⟩ := parseI64_of_pair hread
      obtain ⟨rfl, ha⟩ := splitBytes_spec hbytes
      obtain ⟨nh, hnh, vh⟩ := hnumber (fun c hc => List.mem_append_left _ hc) hx
      obtain ⟨nm, hnm, vm⟩ := hnumber (fun c hc => List.mem_append_right _ hc) hy
      have hlength := utf8Len_of_digits (List.forall_mem_append.mpr
        ⟨isDigit_of_parseDigits hnh, isDigit_of_parseDigits hnm⟩)
      rw [utf8Len_of_digits (isDigit_of_parseDigits hnh)] at ha
      rw [hfour, List.length_append] at hlength
      rw [vh, vm]
      exact ZoneTime.compact hnh hnm ha (by omega)
    · rw [if_neg hfour] at hread
      obtain ⟨x, hx, heq⟩ := Option.map_eq_some_iff.mp (Option.some.inj hread)
      obtain ⟨rfl, rfl⟩ := Prod.mk.inj heq
      obtain ⟨nh, hnh, vh⟩ := hnumber (fun c hc => hc) hx
      have hzero : (0 : Int64).toInt = 0 := by decide
      rw [vh, hzero]
      -- With four bytes the cut at the second one would have been tried.
      refine ZoneTime.hours hnh fun hlength => hfour ?_
      rw [utf8Len_of_digits (isDigit_of_parseDigits hnh), hlength]

/-- A zone in digits consists of digits and colons, and it is not empty. -/
theorem ZoneTime.chars {h' m' : ℤ} (ht : ZoneTime t h' m') :
    t ≠ [] ∧ ∀ c ∈ t, c.isDigit ∨ c = ':' := by
  cases ht with
  | colon hours minutes =>
    refine ⟨List.append_ne_nil_of_right_ne_nil _ (List.cons_ne_nil _ _), fun c hc => ?_⟩
    rcases List.mem_append.mp hc with hc | hc
    · exact Or.inl (isDigit_of_parseDigits hours c hc)
    · rcases List.mem_cons.mp hc with rfl | hc
      · exact Or.inr rfl
      · exact Or.inl (isDigit_of_parseDigits minutes c hc)
  | compact hours minutes ha hb =>
    refine ⟨fun hnil => ?_, fun c hc => ?_⟩
    · rw [(List.append_eq_nil_iff.mp hnil).1] at ha
      exact absurd ha (by decide)
    · rcases List.mem_append.mp hc with hc | hc
      · exact Or.inl (isDigit_of_parseDigits hours c hc)
      · exact Or.inl (isDigit_of_parseDigits minutes c hc)
  | hours hours ha =>
    obtain ⟨⟨hne, -⟩, -⟩ := Option.ite_none_right_eq_some.mp hours
    exact ⟨hne, fun c hc => Or.inl (isDigit_of_parseDigits hours c hc)⟩

/-- The numbers of a zone in digits are not negative. -/
theorem ZoneTime.nonneg {h' m' : ℤ} (ht : ZoneTime t h' m') : 0 ≤ h' ∧ 0 ≤ m' := by
  cases ht with
  | colon hours minutes => exact ⟨Int.natCast_nonneg _, Int.natCast_nonneg _⟩
  | compact hours minutes ha hb => exact ⟨Int.natCast_nonneg _, Int.natCast_nonneg _⟩
  | hours hours ha => exact ⟨Int.natCast_nonneg _, Int.le_refl 0⟩

/-! ### Designators -/

/-- A zone designator, and its offset in minutes: a real one, or none for UTC. -/
inductive ZoneText : Text → ℤ → Prop
  | absent : ZoneText [] 0
  | utc {c : Char} (letter : c = 'Z' ∨ c = 'z') : ZoneText [c] 0
  | east {t : Text} {h m : ℤ} (time : ZoneTime t h m) (hours : h ≤ 23) (minutes : m ≤ 59) :
      ZoneText ('+' :: t) (h * 60 + m)
  | west {t : Text} {h m : ℤ} (time : ZoneTime t h m) (hours : h ≤ 23) (minutes : m ≤ 59) :
      ZoneText ('-' :: t) (-(h * 60 + m))

/-- The text behind the sign of a zone designator. -/
def designator (rest : Text) : Option Text :=
  if rest.getLast? = some 'Z' ∨ rest.getLast? = some 'z' then none
  else (splitAtLast ['+', '-'] rest).map fun e => e.2.tail

/-- A zone designator is read without a panic: it is not cut inside a character, and its minutes
fit. -/
def ZoneFits (rest : Text) : Prop :=
  ∀ t, designator rest = some t → (parseOffset t).isSome = true ∧
    ∀ h m, parseOffset t = some (some (h, m)) → h.toInt * 60 + m.toInt ≤ 9223372036854775807

/-- A zone designator is real: at most 23 hours, and at most 59 minutes. -/
def ZoneReal (rest : Text) : Prop :=
  ∀ t, designator rest = some t → ∀ h m, parseOffset t = some (some (h, m)) →
    h.toInt ≤ 23 ∧ m.toInt ≤ 59

variable {rest : Text}

/-- What stands behind the last sign: no sign. -/
theorem designator_some (h : designator rest = some t) :
    ∃ time c, ¬ (rest.getLast? = some 'Z' ∨ rest.getLast? = some 'z') ∧ (c = '+' ∨ c = '-') ∧
      splitAtLast ['+', '-'] rest = some (time, c :: t) ∧ rest = time ++ c :: t ∧
      '+' ∉ t ∧ '-' ∉ t := by
  unfold designator at h
  by_cases hutc : rest.getLast? = some 'Z' ∨ rest.getLast? = some 'z'
  · rw [if_pos hutc] at h
    exact absurd h.symm (Option.some_ne_none _)
  · rw [if_neg hutc] at h
    obtain ⟨⟨time, offset⟩, hsplit, rfl⟩ := Option.map_eq_some_iff.mp h
    obtain ⟨c, t, rfl, hc, htext, hsigns⟩ := splitAtLast_some hsplit
    refine ⟨time, c, hutc, by simpa using hc, hsplit, htext, fun hmem => ?_, fun hmem => ?_⟩
    · exact hsigns _ hmem List.mem_cons_self
    · exact hsigns _ hmem (List.mem_cons_of_mem _ List.mem_cons_self)

/-- The offset of hours and minutes that are not negative: no step overflows exactly when its
minutes fit. -/
theorem checked_offset {sign h m : Int64} (hsign : sign = 1 ∨ sign = -1) (hh : 0 ≤ h.toInt)
    (hm : 0 ≤ m.toInt) :
    (((checkedMul h 60).bind fun hours => (checkedAdd hours m).bind fun sum =>
        checkedMul sign sum).isSome = true ↔ h.toInt * 60 + m.toInt ≤ 9223372036854775807) ∧
      (h.toInt * 60 + m.toInt ≤ 9223372036854775807 →
        ((checkedMul h 60).bind fun hours => (checkedAdd hours m).bind fun sum =>
          checkedMul sign sum) = some (sign * (h * 60 + m)) ∧
        (sign * (h * 60 + m)).toInt = sign.toInt * (h.toInt * 60 + m.toInt)) := by
  have hsixty : (60 : Int64).toInt = 60 := by decide
  -- A sum that fits leaves room for both signs, so that the last multiplication is safe.
  have hfits : h.toInt * 60 + m.toInt ≤ 9223372036854775807 →
      ((checkedMul h 60).bind fun hours => (checkedAdd hours m).bind fun sum =>
          checkedMul sign sum) = some (sign * (h * 60 + m)) ∧
        (sign * (h * 60 + m)).toInt = sign.toInt * (h.toInt * 60 + m.toInt) := by
    intro hhigh
    have vmul : (h * 60).toInt = h.toInt * 60 :=
      toInt_mul_of_fits rfl hsixty ⟨by omega, by omega⟩
    have vsum : (h * 60 + m).toInt = h.toInt * 60 + m.toInt :=
      toInt_add_of_fits vmul rfl ⟨by omega, by omega⟩
    have hproduct : Fits (sign.toInt * (h.toInt * 60 + m.toInt)) := by
      rcases hsign with rfl | rfl
      · rw [show (1 : Int64).toInt = 1 by decide, Int.one_mul]
        exact ⟨by omega, by omega⟩
      · rw [show (-1 : Int64).toInt = -1 by decide]
        exact ⟨by omega, by omega⟩
    refine ⟨?_, toInt_mul_of_fits rfl vsum hproduct⟩
    rw [checkedMul_of_fits rfl hsixty ⟨by omega, by omega⟩, Option.bind_some,
      checkedAdd_of_fits vmul rfl ⟨by omega, by omega⟩, Option.bind_some,
      checkedMul_of_fits rfl vsum hproduct]
  -- And when it does not fit, the addition fails before the sign is looked at.
  refine ⟨⟨fun hsome => ?_, fun hhigh => by rw [(hfits hhigh).1]; rfl⟩, hfits⟩
  obtain ⟨offset, hoffset⟩ := Option.isSome_iff_exists.mp hsome
  obtain ⟨hours, hhours, hoffset⟩ := Option.bind_eq_some_iff.mp hoffset
  obtain ⟨sum, hsum, -⟩ := Option.bind_eq_some_iff.mp hoffset
  exact (of_checkedAdd (of_checkedMul rfl hsixty hhours).2 rfl hsum).1.2

/-- The sign of a zone. -/
def zoneSign (c : Char) : Int64 := if c = '-' then -1 else 1

/-- Without a sign the zone is UTC. -/
theorem splitOffset_of_none (h : designator rest = none) :
    splitOffsetChecked rest = splitOffset rest ∧
      ∃ time zone, rest = time ++ zone ∧ ZoneText zone 0 ∧
        splitOffset rest = some (some (time, 0)) := by
  unfold designator at h
  unfold splitOffsetChecked splitOffset
  by_cases hutc : rest.getLast? = some 'Z' ∨ rest.getLast? = some 'z'
  · rw [if_pos hutc, if_pos hutc]
    have hlast : ∃ c, (c = 'Z' ∨ c = 'z') ∧ rest.getLast? = some c := by
      rcases hutc with hutc | hutc
      · exact ⟨'Z', Or.inl rfl, hutc⟩
      · exact ⟨'z', Or.inr rfl, hutc⟩
    obtain ⟨c, hc, hlast⟩ := hlast
    exact ⟨rfl, rest.dropLast, [c], (List.dropLast_append_getLast? c hlast).symm,
      ZoneText.utc hc, rfl⟩
  · rw [if_neg hutc] at h
    have hsplit : splitAtLast ['+', '-'] rest = none := Option.map_eq_none_iff.mp h
    rw [if_neg hutc, if_neg hutc, hsplit]
    exact ⟨rfl, rest, [], (List.append_nil rest).symm, ZoneText.absent, rfl⟩

/-- With a sign the zone is what stands behind it. -/
theorem splitOffset_of_some {time : Text} {c : Char}
    (hutc : ¬ (rest.getLast? = some 'Z' ∨ rest.getLast? = some 'z'))
    (hsplit : splitAtLast ['+', '-'] rest = some (time, c :: t)) :
    splitOffset rest = ((parseOffset t).map fun parsed =>
        parsed.map fun e => (time, zoneSign c * (e.1 * 60 + e.2))) ∧
      (parseOffset t = none → splitOffsetChecked rest = none) ∧
      (parseOffset t = some none → splitOffsetChecked rest = some none) ∧
      ∀ h m, parseOffset t = some (some (h, m)) → splitOffsetChecked rest
        = ((checkedMul h 60).bind fun hours => (checkedAdd hours m).bind fun sum =>
          checkedMul (zoneSign c) sum).map fun offset => some (time, offset) := by
  -- The sign is the first character of what stands behind the cut.
  have hsign : (if (c :: t).head? = some '-' then (-1 : Int64) else 1) = zoneSign c := by
    unfold zoneSign
    simp
  unfold splitOffset splitOffsetChecked
  rw [if_neg hutc, if_neg hutc, hsplit]
  dsimp only
  rw [hsign, List.tail_cons]
  refine ⟨rfl, fun h => by rw [h], fun h => by rw [h], fun h m hread => ?_⟩
  rw [hread]
  dsimp only [Option.bind_eq_bind]
  -- The checked steps are the same on both sides.
  cases checkedMul h 60 with
  | none => rfl
  | some hours =>
    rw [Option.bind_some, Option.bind_some]
    cases checkedAdd hours m with
    | none => rfl
    | some sum =>
      rw [Option.bind_some, Option.bind_some]
      cases checkedMul (zoneSign c) sum <;> rfl

/-- A sign is a factor of one. -/
theorem zoneSign_cases (c : Char) : zoneSign c = 1 ∨ zoneSign c = -1 := by
  unfold zoneSign
  split_ifs
  · exact Or.inr rfl
  · exact Or.inl rfl

/-- A zone designator is read with checks exactly when it fits, and then the checks change
nothing. -/
theorem splitOffsetChecked_iff :
    ((splitOffsetChecked rest).isSome = true ↔ ZoneFits rest) ∧
      (ZoneFits rest → splitOffsetChecked rest = splitOffset rest) := by
  -- Without a designator no offset is computed; with one, what is behind the sign decides.
  cases hdesignator : designator rest with
  | none =>
    have hfits : ZoneFits rest := fun t ht =>
      absurd (ht.symm.trans hdesignator) (Option.some_ne_none _)
    obtain ⟨hsame, time, zone, -, -, hread⟩ := splitOffset_of_none hdesignator
    rw [hsame, hread]
    exact ⟨iff_of_true rfl hfits, fun _ => rfl⟩
  | some t =>
    obtain ⟨time, c, hutc, -, hsplit, -, hplus, hminus⟩ := designator_some hdesignator
    obtain ⟨hplain, hpanic, hnone, hsome⟩ := splitOffset_of_some hutc hsplit
    -- For this zone `ZoneFits` is about what stands behind its sign.
    have hiff : ZoneFits rest ↔ (parseOffset t).isSome = true ∧
        ∀ h m, parseOffset t = some (some (h, m)) →
          h.toInt * 60 + m.toInt ≤ 9223372036854775807 := by
      unfold ZoneFits
      rw [hdesignator]
      exact ⟨fun h => h t rfl, fun h t' ht' => Option.some.inj ht' ▸ h⟩
    rw [hiff, hplain]
    cases hread : parseOffset t with
    | none =>
      rw [hpanic hread]
      exact ⟨iff_of_false Bool.false_ne_true fun h => Bool.false_ne_true h.1,
        fun h => absurd h.1 Bool.false_ne_true⟩
    | some parsed =>
      cases parsed with
      | none =>
        rw [hnone hread]
        exact ⟨iff_of_true rfl ⟨rfl, fun h m heq => absurd (Option.some.inj heq).symm
          (Option.some_ne_none _)⟩, fun _ => rfl⟩
      | some e =>
        obtain ⟨h, m⟩ := e
        -- Without signs neither part is negative, which `checked_offset` asks for.
        obtain ⟨hh, hm⟩ := (zoneTime_of_read hplus hminus hread).nonneg
        obtain ⟨hchecked, hvalue⟩ := checked_offset (zoneSign_cases c) hh hm
        rw [hsome h m hread, Option.isSome_map, hchecked]
        refine ⟨⟨fun hfits => ⟨rfl, fun h' m' heq => ?_⟩, fun hall => hall.2 h m rfl⟩,
          fun hall => ?_⟩
        · obtain ⟨rfl, rfl⟩ := Prod.mk.inj (Option.some.inj (Option.some.inj heq))
          exact hfits
        · rw [(hvalue (hall.2 h m rfl)).1]
          rfl

/-- What is read of a zone that fits and is real: it is a zone designator behind a time. -/
theorem zoneText_of_read {time : Text} {offset : Int64} (hfits : ZoneFits rest)
    (hreal : ZoneReal rest) (hread : splitOffset rest = some (some (time, offset))) :
    ∃ zone, rest = time ++ zone ∧ ZoneText zone offset.toInt := by
  cases hdesignator : designator rest with
  | none =>
    obtain ⟨-, time', zone, htext, hzone, hread'⟩ := splitOffset_of_none hdesignator
    rw [hread', Option.some.injEq, Option.some.injEq] at hread
    obtain ⟨rfl, rfl⟩ := Prod.mk.inj hread
    have hzero : (0 : Int64).toInt = 0 := by decide
    rw [hzero]
    exact ⟨zone, htext, hzone⟩
  | some t =>
    obtain ⟨time', c, hutc, hc, hsplit, htext, hplus, hminus⟩ := designator_some hdesignator
    rw [(splitOffset_of_some hutc hsplit).1] at hread
    obtain ⟨parsed, hparsed, hread⟩ := Option.map_eq_some_iff.mp hread
    obtain ⟨⟨h, m⟩, rfl, hpair⟩ := Option.map_eq_some_iff.mp hread
    obtain ⟨rfl, rfl⟩ := Prod.mk.inj hpair
    have hzone := zoneTime_of_read hplus hminus hparsed
    obtain ⟨hh, hm⟩ := hzone.nonneg
    obtain ⟨hhours, hminutes⟩ := hreal t hdesignator h m hparsed
    rw [((checked_offset (zoneSign_cases c) hh hm).2 ((hfits t hdesignator).2 h m hparsed)).2]
    refine ⟨c :: t, htext, ?_⟩
    -- East of Greenwich the offset is added, west of it taken away.
    rcases hc with rfl | rfl
    · rw [show (zoneSign '+').toInt = 1 by decide, Int.one_mul]
      exact ZoneText.east hzone hhours hminutes
    · rw [show (zoneSign '-').toInt = -1 by decide, Int.neg_one_mul]
      exact ZoneText.west hzone hhours hminutes

/-- A text without the letters of UTC does not end in one. -/
theorem not_utc (hupper : 'Z' ∉ rest) (hlower : 'z' ∉ rest) :
    ¬ (rest.getLast? = some 'Z' ∨ rest.getLast? = some 'z') := by
  rintro (h | h)
  · exact hupper (List.mem_of_getLast? h)
  · exact hlower (List.mem_of_getLast? h)

/-- A signed zone in digits behind a time: the time is split off, and the designator is read. -/
theorem splitOffset_signed {time time' : Text} {c : Char} {h' m' : ℤ} {offset : Int64}
    (hc : c = '+' ∨ c = '-') (hupper : 'Z' ∉ time) (hlower : 'z' ∉ time) (ht : ZoneTime t h' m')
    (hhours : h' ≤ 23) (hminutes : m' ≤ 59) (hfits : ZoneFits (time ++ c :: t))
    (hread : splitOffset (time ++ c :: t) = some (some (time', offset))) :
    time' = time ∧ offset.toInt = (zoneSign c).toInt * (h' * 60 + m') ∧
      ZoneReal (time ++ c :: t) := by
  -- The zone holds digits and colons, so that the last sign of the text is the one in front of it.
  have hchars := ht.chars.2
  have hnot : ∀ d : Char, ¬ (d.isDigit ∨ d = ':') → d ∉ t := fun d hd hmem => hd (hchars d hmem)
  have hletters : ∀ d : Char, ¬ (d.isDigit ∨ d = ':') → d ≠ c → d ∉ time → d ∉ time ++ c :: t := by
    intro d hd hne htime hmem
    rcases List.mem_append.mp hmem with hmem | hmem
    · exact htime hmem
    · rcases List.mem_cons.mp hmem with hmem | hmem
      · exact hne hmem
      · exact hnot d hd hmem
  have hutc := not_utc
    (hletters 'Z' (by decide) (by rcases hc with rfl | rfl <;> decide) hupper)
    (hletters 'z' (by decide) (by rcases hc with rfl | rfl <;> decide) hlower)
  have hmem : c ∈ ['+', '-'] := by simpa using hc
  have hsigns : ∀ x ∈ t, x ∉ ['+', '-'] := by
    intro x hx hxs
    have hsign : x = '+' ∨ x = '-' := by simpa using hxs
    rcases hsign with rfl | rfl
    · exact hnot '+' (by decide) hx
    · exact hnot '-' (by decide) hx
  have hsplit := splitAtLast_append (a := time) hmem hsigns
  -- The designator is what stands behind this sign.
  have hdesignator : designator (time ++ c :: t) = some t := by
    unfold designator
    rw [if_neg hutc, hsplit]
    rfl
  rw [(splitOffset_of_some hutc hsplit).1] at hread
  obtain ⟨parsed, hparsed, hread⟩ := Option.map_eq_some_iff.mp hread
  obtain ⟨⟨h, m⟩, rfl, hpair⟩ := Option.map_eq_some_iff.mp hread
  obtain ⟨rfl, rfl⟩ := Prod.mk.inj hpair
  obtain ⟨vh, vm⟩ := ht.read hparsed
  obtain ⟨hh, hm⟩ := ht.nonneg
  refine ⟨rfl, ?_, ?_⟩
  · rw [((checked_offset (zoneSign_cases c) (by omega) (by omega)).2
      ((hfits t hdesignator).2 h m hparsed)).2, vh, vm]
  -- The hours and the minutes that are read are those of the zone, which are in range.
  · intro t' ht' x y hxy
    rw [hdesignator, Option.some.injEq] at ht'
    rw [← ht', hparsed, Option.some.injEq, Option.some.injEq] at hxy
    obtain ⟨rfl, rfl⟩ := Prod.mk.inj hxy
    exact ⟨by omega, by omega⟩

/-- A zone designator behind a time is read as its offset. -/
theorem ZoneText.read {time time' zone : Text} {offset : Int64} {offset' : ℤ}
    (hz : ZoneText zone offset') (htime : ∀ c ∈ time, c.isDigit ∨ c = ':' ∨ c = '.')
    (hfits : ZoneFits (time ++ zone))
    (hread : splitOffset (time ++ zone) = some (some (time', offset))) :
    time' = time ∧ offset.toInt = offset' ∧ ZoneReal (time ++ zone) := by
  -- A time has digits, colons and points: no letter and no sign.
  have hnot : ∀ {d : Char}, ¬ (d.isDigit ∨ d = ':' ∨ d = '.') → d ∉ time := fun hd hmem =>
    hd (htime _ hmem)
  have hzero : (0 : Int64).toInt = 0 := by decide
  -- By the form of the zone: none, the letter, or a signed one on either side.
  cases hz with
  | absent =>
    rw [List.append_nil] at hread ⊢
    have hutc := not_utc (hnot (d := 'Z') (by decide)) (hnot (d := 'z') (by decide))
    have hsplit : splitAtLast ['+', '-'] time = none := splitAtLast_eq_none fun x hx hxs => by
      have hsign : x = '+' ∨ x = '-' := by simpa using hxs
      rcases hsign with rfl | rfl
      · exact hnot (d := '+') (by decide) hx
      · exact hnot (d := '-') (by decide) hx
    unfold splitOffset at hread
    rw [if_neg hutc, hsplit] at hread
    obtain ⟨rfl, rfl⟩ := Prod.mk.inj (Option.some.inj (Option.some.inj hread))
    refine ⟨rfl, hzero, fun t ht => ?_⟩
    unfold designator at ht
    rw [if_neg hutc, hsplit] at ht
    exact absurd ht.symm (Option.some_ne_none _)
  | utc letter =>
    rename_i c
    have hutc : (time ++ [c]).getLast? = some 'Z' ∨ (time ++ [c]).getLast? = some 'z' := by
      rw [List.getLast?_concat, Option.some.injEq, Option.some.injEq]
      exact letter
    unfold splitOffset at hread
    rw [if_pos hutc, List.dropLast_concat] at hread
    obtain ⟨rfl, rfl⟩ := Prod.mk.inj (Option.some.inj (Option.some.inj hread))
    refine ⟨rfl, hzero, fun t ht => ?_⟩
    unfold designator at ht
    rw [if_pos hutc] at ht
    exact absurd ht.symm (Option.some_ne_none _)
  | east ht hours minutes =>
    obtain ⟨htime', hoffset, hreal⟩ := splitOffset_signed (Or.inl rfl) (hnot (d := 'Z') (by decide))
      (hnot (d := 'z') (by decide)) ht hours minutes hfits hread
    rw [show (zoneSign '+').toInt = 1 by decide, Int.one_mul] at hoffset
    exact ⟨htime', hoffset, hreal⟩
  | west ht hours minutes =>
    obtain ⟨htime', hoffset, hreal⟩ := splitOffset_signed (Or.inr rfl) (hnot (d := 'Z') (by decide))
      (hnot (d := 'z') (by decide)) ht hours minutes hfits hread
    rw [show (zoneSign '-').toInt = -1 by decide, Int.neg_one_mul] at hoffset
    exact ⟨htime', hoffset, hreal⟩

end Gabriel.Core
