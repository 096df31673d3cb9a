import Gabriel.Engine.Lifetimes
import Gabriel.Proofs.IsoText

/-!
# `Gabriel.Proofs.Lifetimes`: lifetimes that a server names

A server chooses the numbers of `Max-Age`, `Expires` and `expires_in`, and the engine multiplies
and adds them unchecked. For `Max-Age` and `expires_in`, the numbers for which no step overflows and
the expiry is the named instant are ranges. For `Expires` they are the real dates from 1970 on whose
milliseconds fit in 64 bits: `parse_http_date` does not look at the range of its numbers.

The attributes of a header are read one after the other, so those behind a refused `Domain` are not
read at all. What several accepted attributes do together is decided by the last of each key. The
theorems:

* `maxAge_iff`, `tokenExpiry_iff`: the two ranges.
* `expires_iff`: an `Expires` text is handled exactly when its numbers are a real date that fits.
* `parseAttrs_lifetime`: what the accepted attributes do together, by induction over them.
* `parseAttrsChecked_of_sound`: the same attributes with overflow checks.
* `lifetimeHandled_header_iff`: a whole header.
* `lifetimesHandled_iff`: headers and tokens, with the ranges of both.
-/

set_option autoImplicit false

namespace Gabriel.Engine

open Gabriel.Core Text MachineInt Calendar

/-! ### `Expires` -/

namespace HttpFields

variable {f : HttpFields}

/-- The numbers are a real date and a real time. -/
def Real (f : HttpFields) : Prop :=
  IsDate f.year.toInt f.month.toInt f.day.toInt ∧ IsTime f.hour.toInt f.minute.toInt f.second.toInt

instance (f : HttpFields) : Decidable f.Real := inferInstanceAs (Decidable (_ ∧ _))

/-- The seconds from the epoch to the instant of the numbers. -/
def seconds (f : HttpFields) : ℤ :=
  civilDay f.year.toInt f.month.toInt f.day.toInt * 86400 + f.hour.toInt * 3600
    + f.minute.toInt * 60 + f.second.toInt

end HttpFields

/-- The years of the dates from 1970 on whose milliseconds fit in 64 bits. -/
theorem year_of_civilDay {y m d : ℤ} (h : IsDate y m d) (hlow : 0 ≤ civilDay y m d)
    (hhigh : civilDay y m d ≤ 213503982335) : 1 ≤ y ∧ y ≤ 1000000000 := by
  obtain ⟨hmonth, hday, -, -⟩ := marchDate_spec h
  unfold civilDay dayOfDate epochDay yearStart monthStart at hlow hhigh
  unfold marchDate at hlow hhigh hmonth hday
  split_ifs at hlow hhigh hmonth hday
  · dsimp only at hlow hhigh hmonth hday
    omega
  · dsimp only at hlow hhigh hmonth hday
    omega

namespace HttpFields

variable {f : HttpFields}

/-- The steps of the expiry, one after the other. -/
theorem expiryChecked_of_steps {days c1 c2 c3 c4 c5 c6 : Int64} {ms : UInt64}
    (hdays : daysFromCivilChecked f.year f.month f.day = some days)
    (hday : checkedMul days 86400 = some c1) (hhours : checkedMul f.hour 3600 = some c2)
    (hsum : checkedAdd c1 c2 = some c3) (hminutes : checkedMul f.minute 60 = some c4)
    (hsum' : checkedAdd c3 c4 = some c5) (hsecs : checkedAdd c5 f.second = some c6)
    (hms : checkedMulU64 (max c6 0).toUInt64 1000 = some ms) : f.expiryChecked = some ms := by
  simp only [expiryChecked, hdays, hday, hhours, hsum, hminutes, hsum', hsecs, hms,
    Option.bind_eq_bind, Option.bind_some]

/-- Seconds that are not negative, in milliseconds: the product fits. -/
theorem checked_millis {secs : Int64} {n : ℤ} (h : secs.toInt = n) (hlow : 0 ≤ n)
    (hhigh : n * 1000 < 2 ^ 64) :
    checkedMulU64 (max secs 0).toUInt64 1000 = some ((max secs 0).toUInt64 * 1000) ∧
      (((max secs 0).toUInt64 * 1000).toNat : ℤ) = n * 1000 := by
  have hmax : (max secs 0).toInt = n := by
    rw [toInt_max h (show (0 : Int64).toInt = 0 by decide), max_eq_left hlow]
  have hnat : (max secs 0).toUInt64.toNat = n.toNat := by
    rw [toUInt64_eq hmax hlow, UInt64.toNat_ofNat']
    omega
  have hthousand : (1000 : UInt64).toNat = 1000 := rfl
  obtain ⟨hchecked, hvalue⟩ := checkedMulU64_of_lt (m := (max secs 0).toUInt64) (n := 1000)
    (by rw [hnat, hthousand]; omega)
  rw [hnat, hthousand] at hvalue
  exact ⟨hchecked, by omega⟩

/-- The expiry of a real date from 1970 on is its instant, and no step overflows. -/
theorem expiryChecked_real (hreal : f.Real) (hlow : 0 ≤ f.seconds)
    (hhigh : f.seconds * 1000 < 2 ^ 64) :
    f.expiryChecked = some f.expiry ∧ (f.expiry.toNat : ℤ) = f.seconds * 1000 := by
  obtain ⟨hdate, hhour, hminute, hsecond⟩ := hreal
  unfold seconds at hlow hhigh
  have hday0 : 0 ≤ civilDay f.year.toInt f.month.toInt f.day.toInt := by omega
  have hday1 : civilDay f.year.toInt f.month.toInt f.day.toInt ≤ 213503982335 := by omega
  obtain ⟨hyear, hyear'⟩ := year_of_civilDay hdate hday0 hday1
  obtain ⟨hchecked, hdays⟩ :=
    daysFromCivilChecked_civil (y := f.year) ⟨by omega, by omega⟩ hdate.month hdate.day_le
  have htime : (0 ≤ f.hour.toInt ∧ f.hour.toInt ≤ 23) ∧
      (0 ≤ f.minute.toInt ∧ f.minute.toInt ≤ 59) ∧ 0 ≤ f.second.toInt ∧ f.second.toInt ≤ 60 :=
    ⟨hhour, hminute, by omega, by omega⟩
  obtain ⟨h1, h2, h3, h4, h5, h6, hsecs⟩ := checked_seconds hdays (by omega) htime (by omega)
  obtain ⟨hmillis, hvalue⟩ := checked_millis hsecs hlow hhigh
  exact ⟨expiryChecked_of_steps hchecked h1 h2 h3 h4 h5 h6 hmillis, hvalue⟩

end HttpFields

/-- The arithmetic of `parse_http_date` is that of its numbers. -/
theorem parseHttpDate_eq (value : Text) :
    parseHttpDate value = (httpFields value).map HttpFields.expiry := by
  unfold parseHttpDate httpFields
  simp only [Option.bind_eq_bind, Option.map_bind, Function.comp_def, Option.map_some]
  rfl

/-- An `Expires` text is handled: no step overflows, and it gives an expiry only when it is a real
date and time, namely that instant. -/
structure ExpiresHandled (text : Text) : Prop where
  inRange : (parseHttpDateChecked text).isSome = true
  instant : ∀ ms, parseHttpDate text = some ms →
    ∃ f, httpFields text = some f ∧ f.Real ∧ (ms.toNat : ℤ) = f.seconds * 1000

/-- The numbers of an `Expires` text, if it has them, are a real date and time from 1970 on, and
its milliseconds fit in 64 bits. -/
def ExpiresSound (text : Text) : Prop :=
  ∀ f, httpFields text = some f → f.Real ∧ 0 ≤ f.seconds ∧ f.seconds * 1000 < 2 ^ 64

/-- An `Expires` text is handled exactly when its numbers are a real date that fits. -/
theorem expires_iff (text : Text) : ExpiresHandled text ↔ ExpiresSound text := by
  constructor
  · intro h f hf
    have hms : parseHttpDate text = some f.expiry := by
      rw [parseHttpDate_eq, hf]
      rfl
    obtain ⟨f', hf', hreal, hvalue⟩ := h.instant _ hms
    obtain rfl : f = f' := Option.some.inj (hf.symm.trans hf')
    have hlt := f.expiry.toNat_lt
    exact ⟨hreal, by omega, by omega⟩
  · intro h
    cases hf : httpFields text with
    | none =>
      have hnone : parseHttpDate text = none := by rw [parseHttpDate_eq, hf]; rfl
      refine ⟨by rw [parseHttpDateChecked, hf]; rfl, fun ms hms => ?_⟩
      exact absurd (hms.symm.trans hnone) (Option.some_ne_none _)
    | some f =>
      obtain ⟨hreal, hlow, hhigh⟩ := h f hf
      obtain ⟨hchecked, hvalue⟩ := HttpFields.expiryChecked_real hreal hlow hhigh
      refine ⟨by rw [parseHttpDateChecked, hf]; dsimp only; rw [hchecked]; rfl, fun ms hms => ?_⟩
      rw [parseHttpDate_eq, hf, Option.map_some, Option.some.injEq] at hms
      exact ⟨f, hf, hreal, by rw [← hms]; exact hvalue⟩

/-! ### `Max-Age` and `expires_in` -/

section Clock

variable {now : UInt64}

/-- A `Max-Age` whose expiry is a number of milliseconds that `i64` holds. -/
def MaxAgeSound (now : UInt64) (seconds : Int64) : Prop :=
  -9223372036854775 ≤ seconds.toInt ∧
    (now.toNat : ℤ) + seconds.toInt * 1000 ≤ 9223372036854775807

/-- No step of `Max-Age` overflows exactly in this range, and there the expiry is the exact one. -/
theorem maxAge_iff (hnow : now.toNat < yearTenThousand) (seconds : Int64) :
    ((Cookie.maxAgeExpiryChecked now seconds).isSome = true ↔ MaxAgeSound now seconds) ∧
      (MaxAgeSound now seconds →
        Cookie.maxAgeExpiryChecked now seconds = some (Cookie.maxAgeExpiry now seconds) ∧
        ((Cookie.maxAgeExpiry now seconds).toNat : ℤ)
          = max ((now.toNat : ℤ) + seconds.toInt * 1000) 0) := by
  -- In this range the clock fits into the signed type.
  unfold yearTenThousand at hnow
  have hthousand : (1000 : Int64).toInt = 1000 := by decide
  have hclock : now.toInt64.toInt = now.toNat := toInt_toInt64 (by omega)
  -- Neither the product nor the sum leaves the signed range.
  have hsound : MaxAgeSound now seconds →
      Cookie.maxAgeExpiryChecked now seconds = some (Cookie.maxAgeExpiry now seconds) ∧
      ((Cookie.maxAgeExpiry now seconds).toNat : ℤ)
        = max ((now.toNat : ℤ) + seconds.toInt * 1000) 0 := by
    rintro ⟨hlow, hhigh⟩
    have hage : (seconds * 1000).toInt = seconds.toInt * 1000 :=
      toInt_mul_of_fits rfl hthousand ⟨by omega, by omega⟩
    have hsum : (now.toInt64 + seconds * 1000).toInt = now.toNat + seconds.toInt * 1000 :=
      toInt_add_of_fits hclock hage ⟨by omega, by omega⟩
    have hmax := toInt_max hsum (show (0 : Int64).toInt = 0 by decide)
    constructor
    · rw [Cookie.maxAgeExpiryChecked, checkedMul_of_fits rfl hthousand ⟨by omega, by omega⟩,
        Option.bind_eq_bind, Option.bind_some,
        checkedAdd_of_fits hclock hage ⟨by omega, by omega⟩]
      rfl
    · rw [Cookie.maxAgeExpiry, toUInt64_eq hmax (le_max_right _ _), UInt64.toNat_ofNat']
      omega
  -- The other way: both checked operations succeed, so both results fit.
  refine ⟨⟨fun hsome => ?_, fun h => by rw [(hsound h).1]; rfl⟩, hsound⟩
  obtain ⟨expiry, hexpiry⟩ := Option.isSome_iff_exists.mp hsome
  obtain ⟨age, hage, hexpiry⟩ := Option.bind_eq_some_iff.mp hexpiry
  obtain ⟨sum, hsum, -⟩ := Option.bind_eq_some_iff.mp hexpiry
  obtain ⟨hfits, hproduct⟩ := Option.ite_none_right_eq_some.mp hage
  obtain rfl := Option.some.inj hproduct
  obtain ⟨hfits', -⟩ := Option.ite_none_right_eq_some.mp hsum
  rw [hthousand] at hfits
  rw [hclock, toInt_mul_of_fits rfl hthousand hfits] at hfits'
  obtain ⟨hlow, hhigh⟩ := hfits
  exact ⟨by omega, hfits'.2⟩

/-- A cookie is expired when it is stored exactly when its `Max-Age` is not positive. -/
theorem maxAgeExpiry_le_iff (hnow : now.toNat < yearTenThousand) {seconds : Int64}
    (h : MaxAgeSound now seconds) : Cookie.maxAgeExpiry now seconds ≤ now ↔ seconds ≤ 0 := by
  have hvalue := ((maxAge_iff hnow seconds).2 h).2
  have hzero : seconds ≤ 0 ↔ seconds.toInt ≤ 0 := Int64.le_iff_toInt_le
  rw [UInt64.le_iff_toNat_le, hzero]
  omega

/-- No step of the expiry of a token overflows exactly when the sum is below `2 ^ 64`. -/
theorem tokenExpiry_iff (expiresIn : UInt64) :
    (tokenExpiryChecked now expiresIn = some (now + expiresIn * 1000) ∧
      (now + expiresIn * 1000).toNat = now.toNat + expiresIn.toNat * 1000) ↔
      now.toNat + expiresIn.toNat * 1000 < 2 ^ 64 := by
  have hthousand : (1000 : UInt64).toNat = 1000 := rfl
  constructor
  · rintro ⟨-, hvalue⟩
    have hlt := (now + expiresIn * 1000).toNat_lt
    omega
  · intro h
    obtain ⟨hmul, hproduct⟩ := checkedMulU64_of_lt (m := expiresIn) (n := 1000)
      (by rw [hthousand]; omega)
    rw [hthousand] at hproduct
    obtain ⟨hadd, hsum⟩ := checkedAddU64_of_lt (m := now) (n := expiresIn * 1000)
      (by rw [hproduct]; exact h)
    refine ⟨?_, by rw [hsum, hproduct]⟩
    rw [tokenExpiryChecked, hmul, Option.bind_eq_bind, Option.bind_some]
    exact hadd

end Clock

/-! ### The attributes of a header -/

namespace Cookie

/-- An attribute that claims a domain which the origin may not set. -/
def Refused (requestHost attr : Text) : Prop :=
  (attrKeyValue attr).1 = "domain".toList ∧
    (asciiLower ((attrKeyValue attr).2.dropWhile (· == '.')) = [] ∨
      '.' ∉ asciiLower ((attrKeyValue attr).2.dropWhile (· == '.')) ∨
      ¬ domainMatches requestHost (asciiLower ((attrKeyValue attr).2.dropWhile (· == '.'))))

instance (requestHost attr : Text) : Decidable (Refused requestHost attr) :=
  inferInstanceAs (Decidable (_ ∧ _))

/-- The value of the last attribute of a key. -/
def lastValue (key : Text) (attrs : List Text) : Option Text :=
  ((attrs.map attrKeyValue).filter (·.1 = key)).getLast?.map (·.2)

/-- The values of the `Expires` attributes that are read: those in front of a refused domain. -/
def expiresTexts (requestHost : Text) (attrs : List Text) : List Text :=
  (((attrs.takeWhile fun attr => ¬ Refused requestHost attr).map attrKeyValue).filter
    (·.1 = "expires".toList)).map (·.2)

section Attributes

variable {requestHost : Text}

/-- An attribute is not accepted exactly when it claims a domain that is refused. -/
theorem parseAttr_eq_none_iff (state : Cookie × Option Int64) (attr : Text) :
    parseAttr requestHost state attr = none ↔ Refused requestHost attr := by
  unfold parseAttr Refused
  dsimp only
  by_cases hdomain : (attrKeyValue attr).1 = "domain".toList
  · rw [if_pos hdomain, and_iff_right hdomain]
    split
    · rename_i hclaim
      exact iff_of_true rfl hclaim
    · rename_i hclaim
      exact iff_of_false (Option.some_ne_none _) hclaim
  · rw [if_neg hdomain]
    refine iff_of_false ?_ fun h => hdomain h.1
    split_ifs <;> exact not_false

/-- What one accepted attribute does to the expiry and to the pending `Max-Age`. -/
theorem parseAttr_lifetime {cookie cookie' : Cookie} {maxAge maxAge' : Option Int64} {attr : Text}
    (h : parseAttr requestHost (cookie, maxAge) attr = some (cookie', maxAge')) :
    cookie'.expiresMs = (if (attrKeyValue attr).1 = "expires".toList then
        parseHttpDate (attrKeyValue attr).2 else cookie.expiresMs) ∧
      maxAge' = if (attrKeyValue attr).1 = "max-age".toList then
        parseI64 (attrKeyValue attr).2 else maxAge := by
  unfold parseAttr at h
  dsimp only at h
  -- Every key but the two of interest leaves the lifetime as it is.
  have hother : ∀ {d : Cookie}, some (d, maxAge) = some (cookie', maxAge') →
      d.expiresMs = cookie.expiresMs → (attrKeyValue attr).1 ≠ "expires".toList →
      (attrKeyValue attr).1 ≠ "max-age".toList →
      cookie'.expiresMs = (if (attrKeyValue attr).1 = "expires".toList then
        parseHttpDate (attrKeyValue attr).2 else cookie.expiresMs) ∧
      maxAge' = if (attrKeyValue attr).1 = "max-age".toList then
        parseI64 (attrKeyValue attr).2 else maxAge := by
    intro d heq hexpires hne hne'
    rw [Option.some.injEq, Prod.mk.injEq] at heq
    rw [if_neg hne, if_neg hne', ← heq.1, ← heq.2]
    exact ⟨hexpires, rfl⟩
  split at h
  · rename_i hkey
    split at h
    · exact absurd h (Option.some_ne_none _).symm
    · exact hother h rfl (by rw [hkey]; decide) (by rw [hkey]; decide)
  · split at h
    · rename_i hkey
      exact hother h rfl (by rw [hkey.1]; decide) (by rw [hkey.1]; decide)
    · split at h
      · rename_i hkey
        exact hother h rfl (by rw [hkey]; decide) (by rw [hkey]; decide)
      · split at h
        · rename_i hkey
          exact hother h rfl (by rw [hkey]; decide) (by rw [hkey]; decide)
        -- `Max-Age` sets the pending age, and `Expires` the expiry.
        · split at h
          · rename_i hkey
            rw [Option.some.injEq, Prod.mk.injEq] at h
            have hne : (attrKeyValue attr).1 ≠ "expires".toList := by
              rw [hkey]
              decide
            rw [if_neg hne, if_pos hkey, ← h.1, ← h.2]
            exact ⟨rfl, rfl⟩
          · rename_i hne
            split at h
            · rename_i hkey
              rw [Option.some.injEq, Prod.mk.injEq] at h
              rw [if_pos hkey, if_neg hne, ← h.1, ← h.2]
              exact ⟨rfl, rfl⟩
            · rename_i hkey
              exact hother h rfl hkey hne

/-- The first attribute decides only when no later one has its key. -/
theorem lastValue_cons (key attr : Text) (attrs : List Text) :
    lastValue key (attr :: attrs) = (lastValue key attrs).or
      (if (attrKeyValue attr).1 = key then some (attrKeyValue attr).2 else none) := by
  unfold lastValue
  rw [List.map_cons, List.filter_cons]
  by_cases hkey : (attrKeyValue attr).1 = key
  · rw [if_pos (decide_eq_true hkey), if_pos hkey, List.getLast?_cons]
    cases (List.filter (fun x => decide (x.1 = key)) (attrs.map attrKeyValue)).getLast? with
    | none => rfl
    | some last => rfl
  · rw [if_neg fun hdecide => hkey (of_decide_eq_true hdecide), if_neg hkey, Option.or_none]

/-- What the accepted attributes do together: the last of a key decides. -/
theorem parseAttrs_lifetime {attrs : List Text} {cookie cookie' : Cookie}
    {maxAge maxAge' : Option Int64}
    (h : attrs.foldlM (parseAttr requestHost) (cookie, maxAge) = some (cookie', maxAge')) :
    cookie'.expiresMs = (lastValue "expires".toList attrs).elim cookie.expiresMs parseHttpDate ∧
      maxAge' = (lastValue "max-age".toList attrs).elim maxAge parseI64 := by
  -- Induction on the attributes; a later attribute of the same key wins.
  induction attrs generalizing cookie maxAge with
  | nil =>
    rw [List.foldlM_nil] at h
    obtain ⟨rfl, rfl⟩ := Prod.mk.inj (Option.some.inj h)
    exact ⟨rfl, rfl⟩
  | cons attr attrs ih =>
    rw [List.foldlM_cons] at h
    obtain ⟨⟨mid, midAge⟩, hattr, hrest⟩ := Option.bind_eq_some_iff.mp h
    obtain ⟨hexpires, hage⟩ := parseAttr_lifetime hattr
    obtain ⟨hexpires', hage'⟩ := ih hrest
    rw [lastValue_cons, lastValue_cons, hexpires', hage']
    -- When the rest has the key it decides, and otherwise this attribute does.
    constructor
    · cases lastValue "expires".toList attrs with
      | none =>
        rw [Option.none_or, Option.elim_none, hexpires]
        split_ifs <;> rfl
      | some value => rfl
    · cases lastValue "max-age".toList attrs with
      | none =>
        rw [Option.none_or, Option.elim_none, hage]
        split_ifs <;> rfl
      | some value => rfl

/-! ### The attributes with overflow checks -/

/-- An `Expires` text that is handled is parsed the same way with checks. -/
theorem parseHttpDateChecked_of_sound {text : Text} (h : ExpiresSound text) :
    parseHttpDateChecked text = some (parseHttpDate text) := by
  rw [parseHttpDate_eq, parseHttpDateChecked]
  cases hf : httpFields text with
  | none => rfl
  | some f =>
    obtain ⟨hreal, hlow, hhigh⟩ := h f hf
    dsimp only
    rw [(HttpFields.expiryChecked_real hreal hlow hhigh).1]
    rfl

/-- An accepted attribute is read, and the ones behind it. -/
theorem expiresTexts_cons {attr : Text} {attrs : List Text} (h : ¬ Refused requestHost attr) :
    expiresTexts requestHost (attr :: attrs)
      = (if (attrKeyValue attr).1 = "expires".toList then [(attrKeyValue attr).2] else [])
        ++ expiresTexts requestHost attrs := by
  have hread : decide (¬ Refused requestHost attr) = true := decide_eq_true h
  unfold expiresTexts
  rw [List.takeWhile_cons, if_pos hread, List.map_cons, List.filter_cons]
  by_cases hkey : (attrKeyValue attr).1 = "expires".toList
  · rw [if_pos (decide_eq_true hkey), if_pos hkey]
    rfl
  · rw [if_neg fun hdecide => hkey (of_decide_eq_true hdecide), if_neg hkey, List.nil_append]

/-- One attribute with checks, when an `Expires` it holds is handled. -/
theorem parseAttrChecked_of_sound (state : Cookie × Option Int64) {attr : Text}
    (h : (attrKeyValue attr).1 = "expires".toList → ExpiresSound (attrKeyValue attr).2) :
    parseAttrChecked requestHost state attr = some (parseAttr requestHost state attr) := by
  unfold parseAttrChecked
  dsimp only
  by_cases hkey : (attrKeyValue attr).1 = "expires".toList
  · rw [if_pos hkey, parseHttpDateChecked_of_sound (h hkey), Option.map_some]
    unfold parseAttr
    dsimp only
    have hother : ∀ key : Text, key ≠ "expires".toList → (attrKeyValue attr).1 ≠ key := by
      intro key hne heq
      exact hne (heq.symm.trans hkey)
    rw [if_neg (hother _ (by decide)), if_neg fun h => hother _ (by decide) h.1,
      if_neg (hother _ (by decide)), if_neg (hother _ (by decide)),
      if_neg (hother _ (by decide)), if_pos hkey]
  · rw [if_neg hkey]

/-- All attributes with checks, when every `Expires` that is read is handled. -/
theorem parseAttrsChecked_of_sound (state : Cookie × Option Int64) {attrs : List Text}
    (h : ∀ text ∈ expiresTexts requestHost attrs, ExpiresSound text) :
    parseAttrsChecked requestHost state attrs
      = some (attrs.foldlM (parseAttr requestHost) state) := by
  induction attrs generalizing state with
  | nil => rfl
  | cons attr attrs ih =>
    rw [parseAttrsChecked, List.foldlM_cons]
    cases hattr : parseAttr requestHost state attr with
    | none =>
      -- A refused attribute is a `Domain`, and nothing behind it is read.
      have hrefused := (parseAttr_eq_none_iff state attr).mp hattr
      rw [parseAttrChecked_of_sound state fun hkey =>
        absurd (hrefused.1.symm.trans hkey) (by decide), hattr]
      rfl
    | some state' =>
      have hread : ¬ Refused requestHost attr := by
        rw [← parseAttr_eq_none_iff state attr, hattr]
        exact Option.some_ne_none _
      rw [expiresTexts_cons hread, List.forall_mem_append] at h
      rw [parseAttrChecked_of_sound state fun hkey => h.1 _ (by rw [if_pos hkey]; simp), hattr]
      exact ih state' h.2

end Attributes

/-! ### The header -/

/-- The `Expires` texts that the parser reads of a header. -/
def readExpires (header requestHost requestPath : Text) : List Text :=
  if (started header requestHost requestPath).isSome then
    expiresTexts (asciiLower (trim requestHost)) (header.splitOn ';').tail
  else []

/-- The `Max-Age` that decides for a header: its last one, when it is a number. -/
def maxAgeOf (header : Text) : Option Int64 :=
  (lastValue "max-age".toList (header.splitOn ';').tail).bind parseI64

/-- The expiry that the last `Expires` of a header names. -/
def expiresOf (header : Text) : Option UInt64 :=
  (lastValue "expires".toList (header.splitOn ';').tail).bind parseHttpDate

/-- The cookie when its attributes have been read: a pending `Max-Age` decides its expiry. -/
def settled (nowMs : UInt64) (state : Cookie × Option Int64) : Cookie :=
  match state.2 with
  | some seconds => { state.1 with expiresMs := some (maxAgeExpiry nowMs seconds) }
  | none => state.1

/-- The parser is the start, the attributes, and then the pending `Max-Age`. -/
theorem parse_eq (nowMs : UInt64) (header requestHost requestPath : Text) :
    parse nowMs header requestHost requestPath
      = (started header requestHost requestPath).bind fun cookie =>
        ((header.splitOn ';').tail.foldlM (parseAttr (asciiLower (trim requestHost)))
          (cookie, none)).map (settled nowMs) := by
  unfold parse started
  simp only [Option.bind_eq_bind]
  cases (header.splitOn ';').head?.bind (splitOnce ['=']) with
  | none => rfl
  | some e =>
    simp only [Option.bind_some]
    by_cases hname : trim e.1 = []
    · rw [if_pos hname, if_pos hname]
      rfl
    · rw [if_neg hname, if_neg hname, Option.bind_some]
      cases (header.splitOn ';').tail.foldlM (parseAttr (asciiLower (trim requestHost))) _ with
      | none => rfl
      | some state =>
        obtain ⟨cookie, maxAge⟩ := state
        cases maxAge <;> rfl

/-- The expiry of an accepted cookie: its `Max-Age`, and without one its `Expires`. -/
theorem parse_expiresMs {nowMs : UInt64} {header requestHost requestPath : Text} {cookie : Cookie}
    (h : parse nowMs header requestHost requestPath = some cookie) :
    cookie.expiresMs
      = ((maxAgeOf header).map (maxAgeExpiry nowMs)).or (expiresOf header) := by
  rw [parse_eq] at h
  obtain ⟨first, hstarted, h⟩ := Option.bind_eq_some_iff.mp h
  obtain ⟨⟨last, maxAge⟩, hfold, rfl⟩ := Option.map_eq_some_iff.mp h
  obtain ⟨hexpires, hage⟩ := parseAttrs_lifetime hfold
  have hfirst : first.expiresMs = none := by
    obtain ⟨e, -, he⟩ := Option.bind_eq_some_iff.mp hstarted
    by_cases hname : trim e.1 = []
    · rw [if_pos hname] at he
      exact absurd he.symm (Option.some_ne_none _)
    · rw [if_neg hname, Option.some.injEq] at he
      rw [← he]
  have hmaxAge : maxAge = maxAgeOf header := by
    rw [hage, maxAgeOf]
    cases lastValue "max-age".toList (header.splitOn ';').tail <;> rfl
  have hlast : last.expiresMs = expiresOf header := by
    rw [hexpires, expiresOf, hfirst]
    cases lastValue "expires".toList (header.splitOn ';').tail <;> rfl
  rw [← hmaxAge, ← hlast, settled]
  cases maxAge <;> rfl

/-- With every `Expires` that is read handled, only the `Max-Age` of an accepted cookie can
overflow. -/
theorem parseChecked_isSome_iff {nowMs : UInt64} (hnow : nowMs.toNat < yearTenThousand)
    {header requestHost requestPath : Text}
    (h : ∀ text ∈ readExpires header requestHost requestPath, ExpiresSound text) :
    (parseChecked nowMs header requestHost requestPath).isSome = true ↔
      ((parse nowMs header requestHost requestPath).isSome = true →
        ∀ seconds, maxAgeOf header = some seconds → MaxAgeSound nowMs seconds) := by
  rw [parse_eq, parseChecked]
  -- A cookie that does not start is refused in both versions.
  cases hstarted : started header requestHost requestPath with
  | none => exact iff_of_true rfl fun hsome => absurd hsome Bool.false_ne_true
  | some first =>
    rw [readExpires, hstarted, if_pos (show (some first).isSome = true from rfl)] at h
    dsimp only
    rw [parseAttrsChecked_of_sound (first, none) h, Option.bind_some]
    -- An attribute that is refused ends both versions as well.
    cases hfold : (header.splitOn ';').tail.foldlM (parseAttr (asciiLower (trim requestHost)))
      (first, none) with
    | none => exact iff_of_true rfl fun hsome => absurd hsome Bool.false_ne_true
    | some state =>
      obtain ⟨last, maxAge⟩ := state
      -- The pending `Max-Age` at the end is that of the last attribute.
      have hage : maxAge = maxAgeOf header := by
        rw [(parseAttrs_lifetime hfold).2, maxAgeOf]
        cases lastValue "max-age".toList (header.splitOn ';').tail <;> rfl
      rw [Option.map_some, Option.isSome_some, ← hage]
      refine Iff.trans ?_ (forall_prop_of_true (rfl : true = true)).symm
      cases maxAge with
      | none => exact iff_of_true rfl fun seconds hnone => absurd hnone.symm (Option.some_ne_none _)
      | some seconds =>
        dsimp only
        rw [Option.isSome_map, (maxAge_iff hnow seconds).1]
        exact ⟨fun hsound _ heq => Option.some.inj heq ▸ hsound, fun hall => hall seconds rfl⟩

section Header

variable {now : UInt64} {header requestHost requestPath : Text}

/-- The lifetime of a header is handled. -/
structure LifetimeHandled (now : UInt64) (header requestHost requestPath : Text) : Prop where
  /-- No step of the parser overflows. -/
  inRange : (parseChecked now header requestHost requestPath).isSome = true
  /-- Every `Expires` that is read gives an expiry only when it is a real date and time. -/
  expires : ∀ text ∈ readExpires header requestHost requestPath, ExpiresHandled text
  /-- `Max-Age` wins over `Expires`. -/
  wins : ∀ cookie, parse now header requestHost requestPath = some cookie →
    cookie.expiresMs = ((maxAgeOf header).map (maxAgeExpiry now)).or (expiresOf header)
  /-- The expiry of a `Max-Age` is the exact one, and a cookie is expired when it is stored
  exactly when its `Max-Age` is not positive. -/
  maxAge : ∀ cookie, parse now header requestHost requestPath = some cookie →
    ∀ seconds, maxAgeOf header = some seconds →
      ((maxAgeExpiry now seconds).toNat : ℤ) = max ((now.toNat : ℤ) + seconds.toInt * 1000) 0 ∧
      (cookie.isExpired now = true ↔ seconds ≤ 0)

/-- The numbers of a header are in range: every `Expires` that is read is sound, and so is the
`Max-Age` of an accepted cookie. -/
def LifetimeSound (now : UInt64) (header requestHost requestPath : Text) : Prop :=
  (∀ text ∈ readExpires header requestHost requestPath, ExpiresSound text) ∧
    ((parse now header requestHost requestPath).isSome = true →
      ∀ seconds, maxAgeOf header = some seconds → MaxAgeSound now seconds)

/-- The lifetime of a header is handled exactly when its numbers are in range. -/
theorem lifetimeHandled_header_iff (hnow : now.toNat < yearTenThousand) :
    LifetimeHandled now header requestHost requestPath ↔
      LifetimeSound now header requestHost requestPath := by
  constructor
  · intro h
    have hexpires : ∀ text ∈ readExpires header requestHost requestPath, ExpiresSound text := by
      intro text htext
      exact (expires_iff text).mp (h.expires text htext)
    exact ⟨hexpires, (parseChecked_isSome_iff hnow hexpires).mp h.inRange⟩
  · rintro ⟨hexpires, hage⟩
    refine ⟨(parseChecked_isSome_iff hnow hexpires).mpr hage, fun text htext => ?_,
      fun cookie hcookie => parse_expiresMs hcookie, fun cookie hcookie seconds hseconds => ?_⟩
    · exact (expires_iff text).mpr (hexpires text htext)
    · have hsound := hage (by rw [hcookie]; rfl) seconds hseconds
      have hexpiry : cookie.expiresMs = some (maxAgeExpiry now seconds) := by
        rw [parse_expiresMs hcookie, hseconds]
        rfl
      refine ⟨((maxAge_iff hnow seconds).2 hsound).2, ?_⟩
      rw [← maxAgeExpiry_le_iff hnow hsound, isExpired, hexpiry]
      exact decide_eq_true_iff

end Header

end Cookie

/-- **The lifetimes that a server names are handled exactly when their numbers are in range.**
With the clock before the year 10000, for every `Set-Cookie` text (and by itself for every
`Expires` text) and for every `expires_in`. -/
theorem lifetimesHandled_iff (now : UInt64) (hnow : now.toNat < yearTenThousand) :
    (∀ text, ExpiresHandled text ↔ ExpiresSound text) ∧
    (∀ header requestHost requestPath,
      Cookie.LifetimeHandled now header requestHost requestPath ↔
        Cookie.LifetimeSound now header requestHost requestPath) ∧
    ∀ expiresIn, (tokenExpiryChecked now expiresIn = some (now + expiresIn * 1000) ∧
        (now + expiresIn * 1000).toNat = now.toNat + expiresIn.toNat * 1000) ↔
      now.toNat + expiresIn.toNat * 1000 < 2 ^ 64 :=
  ⟨expires_iff, fun _ _ _ => Cookie.lifetimeHandled_header_iff hnow, tokenExpiry_iff⟩

/-- In 2027 the condition is decided by the header alone. -/
theorem lifetimesHandled_iff_2027 :
    (∀ text, ExpiresHandled text ↔ ExpiresSound text) ∧
    (∀ header requestHost requestPath,
      Cookie.LifetimeHandled 1800000000000 header requestHost requestPath ↔
        Cookie.LifetimeSound 1800000000000 header requestHost requestPath) ∧
    ∀ expiresIn, (tokenExpiryChecked 1800000000000 expiresIn
          = some (1800000000000 + expiresIn * 1000) ∧
        ((1800000000000 : UInt64) + expiresIn * 1000).toNat
          = (1800000000000 : UInt64).toNat + expiresIn.toNat * 1000) ↔
      (1800000000000 : UInt64).toNat + expiresIn.toNat * 1000 < 2 ^ 64 :=
  lifetimesHandled_iff 1800000000000 (by decide)

/-- A header whose `Max-Age` is the largest number overflows. -/
theorem not_lifetimeHandled_maxAge :
    ¬ Cookie.LifetimeHandled 1800000000000 "a=b; Max-Age=9223372036854775807".toList
      "bank.test".toList "/".toList := by
  intro h
  exact absurd h.inRange (by decide)

end Gabriel.Engine
