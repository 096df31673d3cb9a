import Gabriel.Core.Jwt
import Gabriel.Lib.Fallible
import Gabriel.Lib.MachineInt
import Gabriel.Lib.Utf8
import Gabriel.Proofs.IsoText

/-!
# `Gabriel.Proofs.JwtExpiry`: has a token expired?

The warning of `decode_at` and the remaining time of `expires_in_ms` take two ways from the `exp`
claim to milliseconds. Both round to `f64` twice. Rounding keeps the order of two integers, and up
to a little beyond the year 10000 the milliseconds are exact, so the comparison with a time before
that year is that of the exact numbers.

But the remaining time is there only for a positive claim, and it is a signed number, which wraps
around for a claim in the far future. The theorems:

* `millisF64_mono`, `millisF64_exact`: the two roundings.
* `castU64_le_iff`: the claim in milliseconds is at most a time exactly when the exact number is.
* `toInt_remaining`: the remaining time is the exact difference, or negative for a claim in the far
  future.
* `expired_mem_iff`, `expiresInMs_eq`: what the two functions say of a claim.
* `verdictsAgree_iff`: for every integer claim, the verdicts agree exactly when it is positive and
  its milliseconds are a signed number; and when no step overflows.
-/

set_option autoImplicit false

namespace Gabriel.Core

open Text Double MachineInt

/-! ### The milliseconds of a claim -/

/-- Rounding a number of seconds and its milliseconds keeps the order. -/
theorem millisF64_mono {a b : ℤ} (h : a ≤ b) : millisF64 a ≤ millisF64 b := by
  have hseconds := ofInt_mono h
  exact ofInt_mono (by omega)

/-- Up to a little beyond the year 10000 the milliseconds are exact. -/
theorem millisF64_exact {a : ℤ} (hlow : 0 ≤ a) (hhigh : a ≤ 253402300801) :
    millisF64 a = a * 1000 := by
  have hseconds : ofInt a = a := ofInt_of_lt (by omega)
  rw [millisF64, hseconds, ofInt_of_lt (by omega)]

/-- The sign of a number survives the rounding. -/
theorem ofInt_pos_iff {a : ℤ} : 0 < ofInt a ↔ 0 < a := by
  have hzero : ofInt 0 = 0 := ofInt_of_lt (by decide)
  have hone : ofInt 1 = 1 := ofInt_of_lt (by decide)
  constructor
  · intro h
    by_contra hneg
    have hle : ofInt a ≤ ofInt 0 := ofInt_mono (by omega)
    omega
  · intro h
    have hle : ofInt 1 ≤ ofInt a := ofInt_mono (by omega)
    omega

/-- The value of a cast. -/
theorem toNat_castU64 (a : ℤ) : (castU64 a).toNat = min a.toNat (2 ^ 64 - 1) := by
  rw [castU64, UInt64.toNat_ofNat']
  omega

/-- The claim in milliseconds is at most a time exactly when the exact number is. -/
theorem castU64_le_iff {a : ℤ} {now : ℕ} (hnow : now < yearTenThousand) :
    (castU64 (millisF64 a)).toNat ≤ now ↔ a * 1000 ≤ now := by
  rw [toNat_castU64]
  unfold yearTenThousand at hnow
  constructor
  · intro h
    by_contra hlater
    -- The first second after the time is exact, and the claim is not before it.
    have hfirst : millisF64 (now / 1000 + 1) ≤ millisF64 a := millisF64_mono (by omega)
    rw [millisF64_exact (by omega) (by omega)] at hfirst
    omega
  · intro h
    by_cases hpos : 0 ≤ a
    · rw [millisF64_exact hpos (by omega)]
      omega
    · have hneg : millisF64 a ≤ millisF64 0 := millisF64_mono (by omega)
      rw [millisF64_exact (Int.le_refl 0) (by omega)] at hneg
      omega

/-! ### The remaining time -/

/-- An unsigned number as a signed one wraps around. -/
theorem toInt_toInt64_wraps (n : UInt64) : n.toInt64.toInt = (n.toNat : ℤ).bmod (2 ^ 64) := by
  show n.toBitVec.toInt = _
  rw [BitVec.toInt_eq_toNat_bmod]
  rfl

/-- The difference of two unsigned numbers as signed ones wraps around. -/
theorem toInt_sub_wraps (m n : UInt64) :
    (m.toInt64 - n.toInt64).toInt = ((m.toNat : ℤ) - n.toNat).bmod (2 ^ 64) := by
  rw [Int64.toInt_sub, toInt_toInt64_wraps, toInt_toInt64_wraps, ← Int.sub_bmod]

/-- The signed difference of two numbers, the second one before the year 10000: it is the exact
one unless the first number is too great, and then it is negative. -/
theorem toInt_remaining (ms : UInt64) {now : UInt64} (hnow : now.toNat < yearTenThousand) :
    (ms.toInt64 - now.toInt64).toInt = (ms.toNat : ℤ) - now.toNat ∧
        ms.toNat < 2 ^ 63 + now.toNat ∨
      (ms.toInt64 - now.toInt64).toInt < 0 ∧ 2 ^ 63 + now.toNat ≤ ms.toNat := by
  have hms := ms.toNat_lt
  rw [toInt_sub_wraps]
  unfold yearTenThousand at hnow
  by_cases hsmall : ms.toNat < 2 ^ 63 + now.toNat
  · exact Or.inl ⟨Int.bmod_eq_of_le (by omega) (by omega), hsmall⟩
  · refine Or.inr ⟨?_, by omega⟩
    have hwrap : ((ms.toNat : ℤ) - now.toNat).bmod (2 ^ 64)
        = (ms.toNat : ℤ) - now.toNat - 2 ^ 64 :=
      (Int.bmod_eq_iff (by decide)).mpr ⟨by omega, by omega, -1, by omega⟩
    rw [hwrap]
    omega

/-! ### The verdicts -/

/-- The three verdicts on a token are that of the exact numbers. -/
structure VerdictsAgree (tools : JwtTools) (jwt : Jwt) (exp : ℤ) (now : UInt64) : Prop where
  warning : JwtWarning.expired ∈ jwt.warnings ↔ exp * 1000 ≤ now.toNat
  expired : jwt.isExpired tools now = true ↔ exp * 1000 ≤ now.toNat
  remaining : ∃ remaining, jwt.expiresInMs tools now = some remaining ∧
    (remaining ≤ 0 ↔ exp * 1000 ≤ now.toNat)

/-- The subtraction of `expires_in_ms` does not overflow. -/
def SubtractionFits (tools : JwtTools) (jwt : Jwt) (now : UInt64) : Prop :=
  ∀ ms, jwt.timeClaimMs tools "exp".toList = some ms →
    Fits (ms.toInt64.toInt - now.toInt64.toInt)

section Token

variable {tools : JwtTools} {token : Text} {now : UInt64} {jwt : Jwt} {n : JsonNumber} {exp : ℤ}

/-- The warnings of a decoded token. -/
theorem warnings_decodeAt (h : Jwt.decodeAt tools token now = .ok jwt) :
    jwt.warnings = Jwt.signatureWarnings jwt.header jwt.signature
      ++ Jwt.timeWarnings tools now jwt.payload := by
  unfold Jwt.decodeAt at h
  split at h
  · obtain ⟨header, -, h⟩ := Fallible.bind_eq_ok h
    obtain ⟨payload, -, h⟩ := Fallible.bind_eq_ok h
    obtain rfl := Except.ok.inj h
    rfl
  · exact absurd h (by simp)

/-- The warning compares the milliseconds of the claim with the time. -/
theorem expired_mem_iff (h : Jwt.decodeAt tools token now = .ok jwt)
    (hexp : jwt.payload.get? "exp".toList = some (.number n)) :
    JwtWarning.expired ∈ jwt.warnings ↔ tools.secondsToMs n ≤ now := by
  have hsignature : JwtWarning.expired ∉ Jwt.signatureWarnings jwt.header jwt.signature := by
    unfold Jwt.signatureWarnings
    dsimp only
    split_ifs <;> simp
  rw [warnings_decodeAt h, List.mem_append, or_iff_right hsignature, Jwt.timeWarnings, hexp,
    List.mem_append]
  dsimp only
  rw [or_iff_left]
  · split_ifs with hle
    · exact iff_of_true (List.mem_singleton_self _) hle
    · exact iff_of_false List.not_mem_nil hle
  · split
    · split_ifs <;> simp
    · simp
    · simp

/-- The remaining time of a token whose claim is a number. -/
theorem expiresInMs_eq (tools : JwtTools) (now : UInt64)
    (hexp : jwt.payload.get? "exp".toList = some (.number n)) :
    jwt.timeClaimMs tools "exp".toList
        = (if tools.positive n then some (tools.secondsToMs n) else none) ∧
      jwt.expiresInMs tools now
        = if tools.positive n then some ((tools.secondsToMs n).toInt64 - now.toInt64)
          else none := by
  have hclaim : jwt.timeClaimMs tools "exp".toList
      = if tools.positive n then some (tools.secondsToMs n) else none := by
    rw [Jwt.timeClaimMs, hexp]
  refine ⟨hclaim, ?_⟩
  rw [Jwt.expiresInMs, hclaim]
  split_ifs
  · rfl
  · rfl

/-- The arithmetic of an integral claim. -/
theorem withF64_integer (tools : JwtTools) (hinteger : n.integer = some exp) :
    tools.withF64.secondsToMs n = castU64 (millisF64 exp) ∧
      (tools.withF64.positive n = true ↔ 0 < exp) := by
  constructor
  · show ((n.integer.map fun z => castU64 (millisF64 z)).getD (tools.secondsToMs n)) = _
    rw [hinteger]
    rfl
  · show ((n.integer.map fun z => decide (0 < ofInt z)).getD (tools.positive n)) = true ↔ _
    rw [hinteger, Option.map_some, Option.getD_some, decide_eq_true_eq, ofInt_pos_iff]

/-- The verdicts agree exactly when the claim is positive and its milliseconds are not far beyond
the signed numbers. -/
theorem verdictsAgree_iff_millis (h : Jwt.decodeAt tools.withF64 token now = .ok jwt)
    (hexp : jwt.payload.get? "exp".toList = some (.number n)) (hinteger : n.integer = some exp)
    (hnow : now.toNat < yearTenThousand) :
    VerdictsAgree tools.withF64 jwt exp now ↔
      0 < exp ∧ (castU64 (millisF64 exp)).toNat < 2 ^ 63 + now.toNat := by
  -- The three verdicts compare the same milliseconds with the same clock.
  obtain ⟨hms, hpos⟩ := withF64_integer tools hinteger
  obtain ⟨-, hremaining⟩ := expiresInMs_eq tools.withF64 now hexp
  have hwarning := expired_mem_iff h hexp
  rw [hms, UInt64.le_iff_toNat_le, castU64_le_iff hnow] at hwarning
  have hexact := castU64_le_iff (a := exp) hnow
  rw [hms] at hremaining
  generalize castU64 (millisF64 exp) = ms at hremaining hexact
  by_cases hpositive : 0 < exp
  -- A positive claim is an expiry, and what remains is a subtraction of signed numbers.
  · rw [if_pos (hpos.mpr hpositive)] at hremaining
    have hexpired : jwt.isExpired tools.withF64 now = true ↔ ms.toInt64 - now.toInt64 ≤ 0 := by
      rw [Jwt.isExpired, hremaining, Option.any_some, decide_eq_true_eq]
    have hsign : ms.toInt64 - now.toInt64 ≤ 0 ↔ (ms.toInt64 - now.toInt64).toInt ≤ 0 :=
      Int64.le_iff_toInt_le
    rw [and_iff_right hpositive]
    -- The difference is exact, or it has wrapped round.
    rcases toInt_remaining ms hnow with ⟨hvalue, hsmall⟩ | ⟨hneg, hgreat⟩
    · have hverdict : ms.toInt64 - now.toInt64 ≤ 0 ↔ exp * 1000 ≤ now.toNat := by
        rw [hsign, hvalue, ← hexact]
        omega
      exact iff_of_true ⟨hwarning, hexpired.trans hverdict, _, hremaining, hverdict⟩ hsmall
    · -- The remaining time is negative, and the claim is far in the future.
      refine iff_of_false (fun hagree => ?_) (by omega)
      have hpast := hagree.expired.mp (hexpired.mpr (hsign.mpr hneg.le))
      have hle := hexact.mpr hpast
      omega
  -- A claim that is not positive has no remaining time to agree with.
  · refine iff_of_false (fun hagree => ?_) fun hboth => hpositive hboth.1
    obtain ⟨remaining, hsome, -⟩ := hagree.remaining
    rw [hremaining, if_neg fun hyes => hpositive (hpos.mp hyes)] at hsome
    exact absurd hsome.symm (Option.some_ne_none _)

/-- The subtraction does not overflow as long as the milliseconds are a signed number. -/
theorem subtractionFits_iff (hexp : jwt.payload.get? "exp".toList = some (.number n))
    (hinteger : n.integer = some exp) (hnow : now.toNat < yearTenThousand) (hpositive : 0 < exp)
    (hsmall : (castU64 (millisF64 exp)).toNat < 2 ^ 63 + now.toNat) :
    SubtractionFits tools.withF64 jwt now ↔ (castU64 (millisF64 exp)).toNat < 2 ^ 63 := by
  obtain ⟨hms, hpos⟩ := withF64_integer tools hinteger
  obtain ⟨hclaim, -⟩ := expiresInMs_eq tools.withF64 now hexp
  rw [if_pos (hpos.mpr hpositive), hms] at hclaim
  generalize castU64 (millisF64 exp) = ms at hclaim hsmall
  -- There is one claim, so the subtraction is the one of its milliseconds.
  have hone : SubtractionFits tools.withF64 jwt now ↔
      Fits (ms.toInt64.toInt - now.toInt64.toInt) := by
    unfold SubtractionFits
    rw [hclaim]
    exact ⟨fun hall => hall ms rfl, fun hfits other hother => Option.some.inj hother ▸ hfits⟩
  unfold yearTenThousand at hnow
  rw [hone, toInt_toInt64 (n := now) (by omega)]
  constructor
  · intro hfits
    by_contra hgreat
    -- Beyond the signed numbers the milliseconds are negative, and the clock makes it worse.
    have hwrap : ms.toInt64.toInt = (ms.toNat : ℤ) - 2 ^ 64 := by
      have hms := ms.toNat_lt
      rw [toInt_toInt64_wraps]
      exact (Int.bmod_eq_iff (by decide)).mpr ⟨by omega, by omega, -1, by omega⟩
    have hlow := hfits.1
    omega
  · intro hless
    rw [toInt_toInt64 (n := ms) (by omega)]
    exact ⟨by omega, by omega⟩

/-- A cast stays below a bound exactly when the number does. -/
theorem toNat_castU64_lt_iff {a : ℤ} {bound : ℕ} (hpos : 0 < bound) (hbound : bound < 2 ^ 64) :
    (castU64 a).toNat < bound ↔ a < bound := by
  rw [toNat_castU64]
  omega

/-- The last claim whose milliseconds are a signed number. -/
theorem millisF64_lt_iff {a : ℤ} : millisF64 a < 2 ^ 63 ↔ a ≤ 9223372036854774 := by
  have hlast : millisF64 9223372036854774 < 2 ^ 63 := by decide +kernel
  have hnext : 2 ^ 63 ≤ millisF64 9223372036854775 := by decide +kernel
  constructor
  · intro h
    by_contra hlater
    have hmono : millisF64 9223372036854775 ≤ millisF64 a := millisF64_mono (by omega)
    omega
  · intro h
    exact (millisF64_mono h).trans_lt hlast

/-- **The verdicts on a token agree exactly when its claim is positive and its milliseconds are
not far beyond the signed numbers.** No step overflows exactly when they are not beyond them. -/
theorem verdictsAgree_iff (h : Jwt.decodeAt tools.withF64 token now = .ok jwt)
    (hexp : jwt.payload.get? "exp".toList = some (.number n)) (hinteger : n.integer = some exp)
    (hnow : now.toNat < yearTenThousand) :
    (VerdictsAgree tools.withF64 jwt exp now ↔
      0 < exp ∧ millisF64 exp < 2 ^ 63 + now.toNat) ∧
    (VerdictsAgree tools.withF64 jwt exp now ∧ SubtractionFits tools.withF64 jwt now ↔
      0 < exp ∧ exp ≤ 9223372036854774) := by
  have hagree := verdictsAgree_iff_millis h hexp hinteger hnow
  constructor
  · rw [hagree, toNat_castU64_lt_iff (by omega) (by unfold yearTenThousand at hnow; omega)]
    push_cast
    rfl
  · have hbound : (castU64 (millisF64 exp)).toNat < 2 ^ 63 ↔ exp ≤ 9223372036854774 := by
      rw [toNat_castU64_lt_iff (by decide) (by decide), ← millisF64_lt_iff]
      rfl
    rw [hagree, ← hbound]
    constructor
    · rintro ⟨⟨hpositive, hsmall⟩, hfits⟩
      exact ⟨hpositive, (subtractionFits_iff hexp hinteger hnow hpositive hsmall).mp hfits⟩
    · rintro ⟨hpositive, hless⟩
      have hsmall : (castU64 (millisF64 exp)).toNat < 2 ^ 63 + now.toNat := by omega
      exact ⟨⟨hpositive, hsmall⟩,
        (subtractionFits_iff hexp hinteger hnow hpositive hsmall).mpr hless⟩

end Token

/-- The segments of the token below: their bytes, and what these hold. -/
def expirySegments : List (Text × List UInt8 × Json) :=
  [("eyJhbGciOiJIUzI1NiJ9".toList, Utf8.encode "\x7b\"alg\":\"HS256\"\x7d".toList,
      .object [("alg".toList, .string "HS256".toList)]),
    ("eyJleHAiOjB9".toList, Utf8.encode "\x7b\"exp\":0\x7d".toList,
      .object [("exp".toList, .number (.posInt 0))]),
    ("eyJleHAiOjE3MDAwMDAwMDB9".toList, Utf8.encode "\x7b\"exp\":1700000000\x7d".toList,
      .object [("exp".toList, .number (.posInt 1700000000))])]

/-- Decoders of these segments. -/
def expiryTools : JwtTools where
  decodeUrl t := ((expirySegments.find? (·.1 = t)).map fun s => .ok s.2.1).getD
    (.error "Invalid symbol".toList)
  parseJson bytes := ((expirySegments.find? (·.2.1 = bytes)).map fun s => .ok s.2.2).getD
    (.error "expected value".toList)
  jsonText _ := []
  secondsToMs _ := 0
  positive _ := false

/-- A token with an `exp` claim. -/
def expiryToken (payload : String) : Text := ("eyJhbGciOiJIUzI1NiJ9." ++ payload ++ ".c2ln").toList

/-- A token of 2023 has expired in 2027. -/
theorem verdictsAgree_iff_2023 : ∃ jwt,
    Jwt.decodeAt expiryTools.withF64 (expiryToken "eyJleHAiOjE3MDAwMDAwMDB9") 1800000000000
        = .ok jwt ∧
      VerdictsAgree expiryTools.withF64 jwt 1700000000 1800000000000 := by
  obtain ⟨jwt, hjwt, hexp⟩ : ∃ jwt,
      Jwt.decodeAt expiryTools.withF64 (expiryToken "eyJleHAiOjE3MDAwMDAwMDB9") 1800000000000
          = .ok jwt ∧
        jwt.payload.get? "exp".toList = some (.number (.posInt 1700000000)) := ⟨_, rfl, rfl⟩
  have hmillis : millisF64 1700000000 < 2 ^ 63 + 1800000000000 := by decide +kernel
  exact ⟨jwt, hjwt, (verdictsAgree_iff hjwt hexp rfl (by decide)).1.mpr ⟨by decide, hmillis⟩⟩

/-- A token whose claim is zero has the warning, and is not taken for expired. -/
theorem not_verdictsAgree_zero : ∃ jwt,
    Jwt.decodeAt expiryTools.withF64 (expiryToken "eyJleHAiOjB9") 1800000000000 = .ok jwt ∧
      jwt.payload.get? "exp".toList = some (.number (.posInt 0)) ∧
      ¬ VerdictsAgree expiryTools.withF64 jwt 0 1800000000000 := by
  refine ⟨_, rfl, rfl, fun hagree => ?_⟩
  have hexpired := hagree.expired.mpr (by decide)
  exact absurd hexpired (by decide +kernel)

end Gabriel.Core
