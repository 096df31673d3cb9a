import Gabriel.Core.Capture

/-!
# `Gabriel.Proofs.PercentDecode`: promotion's decoder against the standard one

`percent_decode` differs from the form decoder of the URL standard in two ways. It slices the
text after each `%` that has two bytes behind it, which panics when the slice ends inside a
character; and it reads `%+H` as a byte, because the integer parser takes a sign.

`everyEscape` says that a test holds behind every `%`. With one signed escape the decoded text is
shorter than the standard's, whatever bytes stand in front of it, and it has the same braces and
slashes (`DecodedMeasures`): that is how a difference is found without comparing the texts. The
theorems:

* `fromHexPair_eq_some`: the pairs that are read as a byte: two digits, or a sign and a digit.
* `isSome_percentDecodeBytes`: the decoder panics exactly at a `%` that is cut inside a character.
* `percentDecodeBytes_eq`: without a signed escape, promotion's decoder is the standard one.
* `decodedMeasures_cons`, `decodedMeasures_signed`: the two kinds of steps.
* `decodedMeasures`: the measures of a decoded text, by induction over its bytes.
-/

set_option autoImplicit false

namespace Gabriel.Core

open Text FormUrlencoded Utf8

/-- Whether a test holds of the bytes behind every `%`. -/
def everyEscape (p : List UInt8 → Bool) : List UInt8 → Bool
  | [] => true
  | byte :: rest => (byte != 0x25 || p rest) && everyEscape p rest

/-- Whether the two bytes behind a `%` are cut out at character boundaries. -/
def onBoundary : List UInt8 → Bool
  | a :: b :: rest => isCharBoundary (a :: b :: rest) && isCharBoundary rest
  | _ => true

/-- Whether the bytes behind a `%` are not a sign and a digit. -/
def unsigned : List UInt8 → Bool
  | 0x2B :: h :: _ => (hexDigit h).isNone
  | _ => true

/-- A hexadecimal digit is neither `%` nor `+`. -/
theorem hexDigit_isSome {b : UInt8} {n : Nat} (h : hexDigit b = some n) :
    b ≠ 0x25 ∧ b ≠ 0x2B ∧ b.toNat ≤ 0x66 ∧ n < 16 := by
  unfold hexDigit at h
  dsimp only at h
  have hne : ∀ c : UInt8, b.toNat ≠ c.toNat → b ≠ c := fun c hc hb => hc (by rw [hb])
  have h25 : (0x25 : UInt8).toNat = 0x25 := rfl
  have h2B : (0x2B : UInt8).toNat = 0x2B := rfl
  split_ifs at h
  all_goals
    have hn := Option.some.inj h
    exact ⟨hne _ (by omega), hne _ (by omega), by omega, by omega⟩

/-- A hexadecimal digit is no less than the digit zero. -/
theorem hexDigit_ge {b : UInt8} {n : Nat} (h : hexDigit b = some n) : 0x30 ≤ b.toNat := by
  unfold hexDigit at h
  dsimp only at h
  split_ifs at h <;> omega

/-- The pairs that promotion's decoder reads as a byte: two digits, or a sign and a digit. -/
theorem fromHexPair_eq_some {a b byte : UInt8} (h : fromHexPair a b = some byte) :
    (∃ hi lo, hexDigit a = some hi ∧ hexDigit b = some lo ∧ byte = UInt8.ofNat (hi * 16 + lo)) ∨
    (a = 0x2B ∧ ∃ lo, hexDigit b = some lo ∧ byte = UInt8.ofNat lo) := by
  unfold fromHexPair at h
  split at h
  · rename_i ha
    obtain ⟨lo, hlo, rfl⟩ := Option.map_eq_some_iff.mp h
    exact Or.inr ⟨ha, lo, hlo, rfl⟩
  · simp only [Option.bind_eq_bind, Option.bind_eq_some_iff, Option.some.injEq] at h
    obtain ⟨hi, hhi, lo, hlo, rfl⟩ := h
    exact Or.inl ⟨hi, lo, hhi, hlo, rfl⟩

/-- A pair that is not read as a byte is no escape for the standard decoder either. -/
theorem decodeBytes_of_fromHexPair {a b : UInt8} (h : fromHexPair a b = none)
    (rest : List UInt8) :
    decodeBytes (0x25 :: a :: b :: rest) = 0x25 :: decodeBytes (a :: b :: rest) := by
  rw [decodeBytes]
  cases ha : hexDigit a with
  | none => rfl
  | some hi =>
    cases hb : hexDigit b with
    | none => rfl
    | some lo =>
      have hplus : a ≠ 0x2B := (hexDigit_isSome ha).2.1
      simp [fromHexPair, hplus, ha, hb] at h

/-- A signed escape is three bytes for the standard decoder. -/
theorem decodeBytes_signed {b : UInt8} {lo : Nat} (hb : hexDigit b = some lo)
    (rest : List UInt8) :
    decodeBytes (0x25 :: 0x2B :: b :: rest) = 0x25 :: 0x20 :: b :: decodeBytes rest := by
  obtain ⟨hpercent, hplus, -, -⟩ := hexDigit_isSome hb
  have hsign : hexDigit 0x2B = none := by decide
  rw [decodeBytes, hsign, decodeBytes_cons_of_ne (by decide), decodeBytes_cons_of_ne hpercent,
    if_pos rfl, if_neg hplus]

/-- A decoder step that does not start an escape. -/
theorem decodeBytes_plain {byte : UInt8} {rest : List UInt8}
    (h : ∀ a b rest', byte = 0x25 → rest = a :: b :: rest' → False) :
    decodeBytes (byte :: rest) = (if byte = 0x2B then 0x20 else byte) :: decodeBytes rest := by
  by_cases hb : byte = 0x25
  · match rest with
    | [] => simp [decodeBytes]
    | [_] => simp [decodeBytes]
    | a :: b :: rest' => exact absurd rfl (h a b rest' hb)
  · exact decodeBytes_cons_of_ne hb rest

/-- Whether a test holds behind every `%` of an escape and of what follows it. -/
theorem everyEscape_escape (p : List UInt8 → Bool) {a b : UInt8} (ha : a ≠ 0x25) (hb : b ≠ 0x25)
    (rest : List UInt8) :
    everyEscape p (0x25 :: a :: b :: rest) = (p (a :: b :: rest) && everyEscape p rest) := by
  have hane : (a != 0x25) = true := by simpa using ha
  have hbne : (b != 0x25) = true := by simpa using hb
  rw [everyEscape, everyEscape, everyEscape, hane, hbne]
  rfl

/-- The two characters of a pair that is read as a byte start no escape. -/
theorem ne_percent_of_fromHexPair {a b byte : UInt8} (h : fromHexPair a b = some byte) :
    a ≠ 0x25 ∧ b ≠ 0x25 := by
  rcases fromHexPair_eq_some h with ⟨hi, lo, ha, hb, -⟩ | ⟨rfl, lo, hb, -⟩
  · exact ⟨(hexDigit_isSome ha).1, (hexDigit_isSome hb).1⟩
  · exact ⟨by decide, (hexDigit_isSome hb).1⟩

/-- A test that only looks at two bytes holds behind a `%` that has fewer. -/
theorem onBoundary_of_short {rest : List UInt8}
    (h : ∀ a b rest', rest = a :: b :: rest' → False) : onBoundary rest = true := by
  match rest with
  | [] => rfl
  | [_] => rfl
  | a :: b :: rest' => exact absurd rfl (h a b rest')

/-- The decoder panics exactly at a `%` whose two bytes are not cut out at character
boundaries. -/
theorem isSome_percentDecodeBytes (bytes : List UInt8) :
    (percentDecodeBytes bytes).isSome = everyEscape onBoundary bytes := by
  -- Along the cases of the decoder: an escape that is cut, one that is not, and a plain byte.
  induction bytes using percentDecodeBytes.induct with
  | case1 => rfl
  | case2 a b rest hbound byte hpair ih =>
    obtain ⟨ha, hb⟩ := ne_percent_of_fromHexPair hpair
    have hon : onBoundary (a :: b :: rest) = true := by simpa [onBoundary] using hbound
    rw [percentDecodeBytes, if_pos hbound, hpair, everyEscape_escape _ ha hb, hon, Bool.true_and,
      ← ih]
    exact Option.isSome_map
  | case3 a b rest hbound hpair ih =>
    have hon : onBoundary (a :: b :: rest) = true := by simpa [onBoundary] using hbound
    rw [percentDecodeBytes, if_pos hbound, hpair]
    show (Option.map _ (percentDecodeBytes (a :: b :: rest))).isSome
      = ((0x25 != 0x25 || onBoundary (a :: b :: rest)) && everyEscape onBoundary (a :: b :: rest))
    rw [hon, ← ih, Bool.or_true, Bool.true_and]
    exact Option.isSome_map
  | case4 a b rest hbound =>
    have hoff : onBoundary (a :: b :: rest) = false := by
      simpa [onBoundary] using hbound
    rw [percentDecodeBytes, if_neg hbound]
    show false
      = ((0x25 != 0x25 || onBoundary (a :: b :: rest)) && everyEscape onBoundary (a :: b :: rest))
    rw [hoff]
    rfl
  | case5 byte rest hplain ih =>
    -- A `%` without two bytes after it is no escape, so it is never cut.
    have hhead : (byte != 0x25 || onBoundary rest) = true := by
      by_cases hb : byte = 0x25
      · rw [onBoundary_of_short fun a b rest' => hplain a b rest' hb, Bool.or_true]
      · simp [hb]
    rw [percentDecodeBytes, everyEscape, hhead, Bool.true_and, ← ih]
    · exact Option.isSome_map
    · exact hplain

/-- Decoding a component panics exactly at a badly cut escape. -/
theorem isSome_percentDecode (t : Text) :
    (percentDecode t).isSome = everyEscape onBoundary (Utf8.encode t) := by
  rw [percentDecode, Option.isSome_map, isSome_percentDecodeBytes]

/-- Without a signed escape, promotion's decoder is the standard one. -/
theorem percentDecodeBytes_eq {bytes out : List UInt8} (h : percentDecodeBytes bytes = some out)
    (hsign : everyEscape unsigned bytes = true) : out = decodeBytes bytes := by
  -- Along the cases of the decoder, with the bytes of the standard one beside it.
  induction bytes using percentDecodeBytes.induct generalizing out with
  | case1 => simpa [percentDecodeBytes, decodeBytes] using h.symm
  | case2 a b rest hbound byte hpair ih =>
    obtain ⟨ha, hb⟩ := ne_percent_of_fromHexPair hpair
    rw [everyEscape_escape _ ha hb, Bool.and_eq_true] at hsign
    rw [percentDecodeBytes, if_pos hbound, hpair] at h
    obtain ⟨out', hout, rfl⟩ := Option.map_eq_some_iff.mp h
    rw [ih hout hsign.2]
    -- A signed escape is the only one on which the two decoders differ.
    rcases fromHexPair_eq_some hpair with ⟨hi, lo, hhi, hlo, rfl⟩ | ⟨rfl, lo, hlo, -⟩
    · exact (decodeBytes_escape hhi hlo rest).symm
    · simp [unsigned, hlo] at hsign
  | case3 a b rest hbound hpair ih =>
    rw [percentDecodeBytes, if_pos hbound, hpair] at h
    obtain ⟨out', hout, rfl⟩ := Option.map_eq_some_iff.mp h
    rw [everyEscape, Bool.and_eq_true] at hsign
    rw [ih hout hsign.2, decodeBytes_of_fromHexPair hpair]
  | case4 a b rest hbound =>
    rw [percentDecodeBytes, if_neg hbound] at h
    exact absurd h (by simp)
  | case5 byte rest hplain ih =>
    rw [percentDecodeBytes] at h
    · obtain ⟨out', hout, rfl⟩ := Option.map_eq_some_iff.mp h
      rw [everyEscape, Bool.and_eq_true] at hsign
      rw [ih hout hsign.2, decodeBytes_plain hplain]
    · exact hplain

/-- The characters a signed escape never makes: the brace and the slash. -/
def markChars : List Char := ['{', '/']

/-- What promotion's decoder makes of a text is no longer than the standard decoder's, is as
long only without a signed escape, and has the same braces and slashes. The bytes `x` in front
stand for the part of the text already decoded. -/
structure DecodedMeasures (bytes x out : List UInt8) : Prop where
  length_le : (decodeLossy (x ++ out)).length ≤ (decodeLossy (x ++ decodeBytes bytes)).length
  unsigned : (decodeLossy (x ++ out)).length = (decodeLossy (x ++ decodeBytes bytes)).length →
    everyEscape unsigned bytes = true
  count : ∀ c ∈ markChars,
    (decodeLossy (x ++ out)).count c = (decodeLossy (x ++ decodeBytes bytes)).count c

/-- One byte that both decoders write, and then the rest. -/
theorem decodedMeasures_cons {bytes bytes' x out : List UInt8} {byte : UInt8}
    (hdecode : decodeBytes bytes = byte :: decodeBytes bytes')
    (hsign : everyEscape unsigned bytes' = true → everyEscape unsigned bytes = true)
    (h : DecodedMeasures bytes' (x ++ [byte]) out) : DecodedMeasures bytes x (byte :: out) := by
  obtain ⟨hle, heq, hcount⟩ := h
  rw [List.append_assoc, List.append_assoc, List.singleton_append, List.singleton_append]
    at hle heq hcount
  rw [← hdecode] at hle heq hcount
  exact ⟨hle, fun hlen => hsign (heq hlen), hcount⟩

/-- A signed escape: one control character here, three characters for the standard decoder. -/
theorem decodedMeasures_signed {b : UInt8} {lo : Nat} {rest x out : List UInt8}
    (hb : hexDigit b = some lo) (h : DecodedMeasures rest [] out) :
    DecodedMeasures (0x25 :: 0x2B :: b :: rest) x (UInt8.ofNat lo :: out) := by
  obtain ⟨-, -, hascii, hlo⟩ := hexDigit_isSome hb
  obtain ⟨hle, -, hcount⟩ := h
  rw [List.nil_append, List.nil_append] at hle hcount
  have hbyte : (UInt8.ofNat lo).toNat = lo := by
    simp [Nat.mod_eq_of_lt (show lo < 256 by omega)]
  -- This decoder leaves one control character, the standard one keeps all three bytes.
  have hleft : decodeLossy (x ++ UInt8.ofNat lo :: out)
      = decodeLossy x ++ Char.ofNat lo :: decodeLossy out := by
    rw [decodeLossy_append_ascii (by omega), hbyte]
  have hright : decodeLossy (x ++ decodeBytes (0x25 :: 0x2B :: b :: rest))
      = decodeLossy x ++ '%' :: ' ' :: Char.ofNat b.toNat :: decodeLossy (decodeBytes rest) := by
    have hspace : decodeLossy (0x20 :: b :: decodeBytes rest)
        = ' ' :: decodeLossy (b :: decodeBytes rest) :=
      decodeLossy_append_ascii (a := 0x20) (by decide) [] _
    have hdigit : decodeLossy (b :: decodeBytes rest)
        = Char.ofNat b.toNat :: decodeLossy (decodeBytes rest) :=
      decodeLossy_append_ascii (by omega) [] _
    rw [decodeBytes_signed hb, decodeLossy_append_ascii (by decide), hspace, hdigit]
    rfl
  -- None of the marks is one of these characters, so the counts agree.
  have hchars : ∀ c ∈ markChars, c ≠ '%' ∧ c ≠ ' ' ∧ c ≠ Char.ofNat lo
      ∧ c ≠ Char.ofNat b.toNat := by
    have hall : ∀ c ∈ markChars, c ≠ '%' ∧ c ≠ ' ' ∧ (∀ n, n < 16 → c ≠ Char.ofNat n) ∧
        ∀ n, n < 0x67 → 0x30 ≤ n → c ≠ Char.ofNat n := forall_mem_of_all (by decide)
    intro c hc
    obtain ⟨h1, h2, h3, h4⟩ := hall c hc
    exact ⟨h1, h2, h3 lo hlo, h4 b.toNat (by omega) (hexDigit_ge hb)⟩
  -- The length grows, so it is never the same, and the counts of the marks do not change.
  refine ⟨?_, ?_, ?_⟩
  · rw [hleft, hright]
    simp only [List.length_append, List.length_cons]
    omega
  · intro hlen
    rw [hleft, hright] at hlen
    simp only [List.length_append, List.length_cons] at hlen
    omega
  · intro c hc
    obtain ⟨h1, h2, h3, h4⟩ := hchars c hc
    rw [hleft, hright]
    simp only [List.count_append, List.count_cons_of_ne h1.symm, List.count_cons_of_ne h2.symm,
      List.count_cons_of_ne h3.symm, List.count_cons_of_ne h4.symm, hcount c hc]

/-- The measures of a decoded text. -/
theorem decodedMeasures {bytes out : List UInt8} (h : percentDecodeBytes bytes = some out)
    (x : List UInt8) : DecodedMeasures bytes x out := by
  -- Along the cases of the decoder; only the signed escape changes the measures.
  induction bytes using percentDecodeBytes.induct generalizing out x with
  | case1 =>
    obtain rfl : [] = out := by simpa [percentDecodeBytes] using h
    exact ⟨Nat.le_refl _, fun _ => rfl, fun _ _ => rfl⟩
  | case2 a b rest hbound byte hpair ih =>
    obtain ⟨ha, hb⟩ := ne_percent_of_fromHexPair hpair
    rw [percentDecodeBytes, if_pos hbound, hpair] at h
    obtain ⟨out', hout, rfl⟩ := Option.map_eq_some_iff.mp h
    -- A proper escape is decoded alike, and a signed one is the lemma above.
    rcases fromHexPair_eq_some hpair with ⟨hi, lo, hhi, hlo, rfl⟩ | ⟨rfl, lo, hlo, rfl⟩
    · refine decodedMeasures_cons (decodeBytes_escape hhi hlo rest) ?_ (ih hout _)
      intro hrest
      have hplus : a ≠ 0x2B := (hexDigit_isSome hhi).2.1
      have huns : unsigned (a :: b :: rest) = true := by
        unfold unsigned
        split
        · rename_i heq
          exact absurd (List.cons.inj heq).1 hplus
        · rfl
      rw [everyEscape_escape _ ha hb, huns, hrest]
      rfl
    · exact decodedMeasures_signed hlo (ih hout [])
  | case3 a b rest hbound hpair ih =>
    rw [percentDecodeBytes, if_pos hbound, hpair] at h
    obtain ⟨out', hout, rfl⟩ := Option.map_eq_some_iff.mp h
    refine decodedMeasures_cons (decodeBytes_of_fromHexPair hpair rest) ?_ (ih hout _)
    intro hrest
    have huns : unsigned (a :: b :: rest) = true := by
      unfold unsigned
      split
      · rename_i heq
        obtain ⟨rfl, htail⟩ := List.cons.inj heq
        obtain ⟨rfl, -⟩ := List.cons.inj htail
        simpa [fromHexPair] using hpair
      · rfl
    rw [everyEscape, huns, hrest, Bool.or_true]
    rfl
  | case4 a b rest hbound =>
    rw [percentDecodeBytes, if_neg hbound] at h
    exact absurd h (by simp)
  | case5 byte rest hplain ih =>
    rw [percentDecodeBytes] at h
    · obtain ⟨out', hout, rfl⟩ := Option.map_eq_some_iff.mp h
      refine decodedMeasures_cons (decodeBytes_plain hplain) ?_ (ih hout _)
      intro hrest
      -- A `%` at the end of the bytes is not a signed escape.
      have hhead : (byte != 0x25 || unsigned rest) = true := by
        by_cases hb : byte = 0x25
        · have huns : unsigned rest = true := by
            match rest with
            | [] => rfl
            | [_] => unfold unsigned; split <;> simp_all
            | a :: b :: rest' => exact absurd rfl (hplain a b rest' hb)
          rw [huns, Bool.or_true]
        · simp [hb]
      rw [everyEscape, hhead, hrest]
      rfl
    · exact hplain

end Gabriel.Core
