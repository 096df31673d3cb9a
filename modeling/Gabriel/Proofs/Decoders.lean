import Gabriel.Engine.Oauth
import Gabriel.Proofs.PromoteBody

/-!
# `Gabriel.Proofs.Decoders`: the decoders of components

`percent_decode` and `urldecode` are one function. It is the form decoder of the URL standard on
the texts in which no `%` has a slice behind it that ends inside a character, and none has a sign
and a digit behind it. The first panics, and the second is taken for a number, since that is how
Rust reads a sign.

An encoder that writes each byte as itself or as an escape of two digits (`Escapes`) makes neither,
so both encoders of the engine are read back by both decoders. The theorems:

* `decoders_standard_iff`: for every text, the decoders are the standard one exactly when its
  escapes are cut at character boundaries and have no sign.
* `everyEscape_flatMap`: what holds in front of two digits holds behind every `%` that an encoder
  writes.
* `percentDecode_encoder`: what an encoder writes is read back, when the standard decoder does it.
* `percentDecode_urlencode`, `urldecode_urlencode`: the two encoders of the engine.
-/

set_option autoImplicit false

namespace Gabriel.Engine

open Gabriel.Core Text FormUrlencoded

/-! ### Against the standard -/

/-- **The decoders are standard exactly on the texts whose escapes are cut at character boundaries
and have no sign.** -/
theorem decoders_standard_iff (t : Text) :
    (urldecode t = percentDecode t ∧ percentDecode t = some (decodeComponent t)) ↔
      everyEscape onBoundary (Utf8.encode t) = true ∧
        everyEscape unsigned (Utf8.encode t) = true := by
  rw [and_iff_right (show urldecode t = percentDecode t from rfl), ← isSome_percentDecode]
  constructor
  · intro h
    have hsome : (percentDecode t).isSome = true := by
      rw [h]
      rfl
    exact ⟨hsome, (percentDecode_measures h).2.1 rfl⟩
  · rintro ⟨hsome, hsign⟩
    obtain ⟨out, hout⟩ := Option.isSome_iff_exists.mp hsome
    obtain ⟨bytes, hbytes, rfl⟩ := Option.map_eq_some_iff.mp hout
    rw [hout, percentDecodeBytes_eq hbytes hsign]
    rfl

/-- A sign in front of the digit of an escape is taken for a part of the number. -/
theorem not_decoders_standard_sign :
    ¬ (urldecode "%+1".toList = percentDecode "%+1".toList ∧
      percentDecode "%+1".toList = some (decodeComponent "%+1".toList)) := by
  decide +kernel

example : percentDecode "%aé".toList = none := by decide +kernel

/-! ### Against the encoders -/

/-- An encoder of bytes that writes a byte as one byte or as an escape of two digits. -/
def Escapes (enc : UInt8 → Text) : Prop :=
  ∀ byte, (∃ b, b ≠ 0x25 ∧ b.toNat < 0x80 ∧ Utf8.encode (enc byte) = [b]) ∨
    ∃ a b, (hexDigit a).isSome = true ∧ (hexDigit b).isSome = true ∧
      Utf8.encode (enc byte) = [0x25, a, b]

/-- A test that holds in front of two digits holds behind every `%` that such an encoder writes. -/
theorem everyEscape_flatMap {enc : UInt8 → Text} (henc : Escapes enc) {p : List UInt8 → Bool}
    (hp : ∀ a b rest, (hexDigit a).isSome = true → (hexDigit b).isSome = true →
      p (a :: b :: rest) = true) (bytes : List UInt8) :
    everyEscape p (Utf8.encode (bytes.flatMap enc)) = true := by
  induction bytes with
  | nil => rfl
  | cons byte bytes ih =>
    rw [List.flatMap_cons, Utf8.encode_append]
    rcases henc byte with ⟨b, hpercent, -, hb⟩ | ⟨a, b, ha, hb, hab⟩
    · have hne : (b != 0x25) = true := by simpa using hpercent
      rw [hb, List.singleton_append, everyEscape, hne, ih]
      rfl
    · obtain ⟨hi, hhi⟩ := Option.isSome_iff_exists.mp ha
      obtain ⟨lo, hlo⟩ := Option.isSome_iff_exists.mp hb
      rw [hab]
      show everyEscape p (0x25 :: a :: b :: Utf8.encode (bytes.flatMap enc)) = true
      rw [everyEscape_escape p (hexDigit_isSome hhi).1 (hexDigit_isSome hlo).1, hp _ _ _ ha hb, ih]
      rfl

/-- What such an encoder writes is ASCII. -/
theorem ascii_flatMap {enc : UInt8 → Text} (henc : Escapes enc) (bytes : List UInt8) :
    ∀ b ∈ Utf8.encode (bytes.flatMap enc), b.toNat < 0x80 := by
  induction bytes with
  | nil => exact fun b hb => absurd hb List.not_mem_nil
  | cons byte bytes ih =>
    rw [List.flatMap_cons, Utf8.encode_append]
    intro x hx
    rcases List.mem_append.mp hx with hx | hx
    · rcases henc byte with ⟨b, -, hascii, hb⟩ | ⟨a, b, ha, hb, hab⟩
      · rw [hb] at hx
        rw [List.mem_singleton.mp hx]
        exact hascii
      · obtain ⟨hi, hhi⟩ := Option.isSome_iff_exists.mp ha
        obtain ⟨lo, hlo⟩ := Option.isSome_iff_exists.mp hb
        have ha' := (hexDigit_isSome hhi).2.2.1
        have hb' := (hexDigit_isSome hlo).2.2.1
        rw [hab] at hx
        simp only [List.mem_cons, List.not_mem_nil, or_false] at hx
        rcases hx with rfl | rfl | rfl
        · decide
        · omega
        · omega
    · exact ih x hx

/-- In ASCII bytes every slice ends at a character boundary. -/
theorem everyEscape_onBoundary_of_ascii {bytes : List UInt8} (h : ∀ b ∈ bytes, b.toNat < 0x80) :
    everyEscape onBoundary bytes = true := by
  -- An ASCII byte is no continuation byte, so every place between two of them is a boundary.
  have hcut : ∀ rest : List UInt8, (∀ b ∈ rest, b.toNat < 0x80) → isCharBoundary rest = true := by
    intro rest hrest
    unfold isCharBoundary
    cases rest with
    | nil => rfl
    | cons b rest =>
      show (!Utf8.isContinuation b) = true
      rw [Utf8.not_isContinuation_of_lt (hrest b List.mem_cons_self)]
      rfl
  -- Induction on the bytes; both slices behind a `%` end at boundaries.
  induction bytes with
  | nil => rfl
  | cons byte bytes ih =>
    have htail : ∀ b ∈ bytes, b.toNat < 0x80 := fun b hb => h b (List.mem_cons_of_mem _ hb)
    have hon : onBoundary bytes = true := by
      unfold onBoundary
      split
      · rename_i a b rest
        have hrest : ∀ c ∈ rest, c.toNat < 0x80 := fun c hc =>
          htail c (List.mem_cons_of_mem _ (List.mem_cons_of_mem _ hc))
        rw [hcut _ htail, hcut _ hrest]
        rfl
      · rfl
    rw [everyEscape, hon, ih htail, Bool.or_true]
    rfl

/-- **What such an encoder writes is read back**, when the standard decoder reads it back. -/
theorem percentDecode_encoder {enc : UInt8 → Text} (henc : Escapes enc) {t : Text}
    (hback : decodeComponent ((Utf8.encode t).flatMap enc) = t) :
    percentDecode ((Utf8.encode t).flatMap enc) = some t := by
  have hsign : everyEscape unsigned (Utf8.encode ((Utf8.encode t).flatMap enc)) = true := by
    refine everyEscape_flatMap henc ?_ _
    intro a b rest ha _
    obtain ⟨hi, hhi⟩ := Option.isSome_iff_exists.mp ha
    have hplus : a ≠ 0x2B := (hexDigit_isSome hhi).2.1
    unfold unsigned
    split
    · rename_i heq
      exact absurd (List.cons.inj heq).1 hplus
    · rfl
  have hcut := everyEscape_onBoundary_of_ascii (ascii_flatMap henc (Utf8.encode t))
  obtain ⟨out, hout⟩ := Option.isSome_iff_exists.mp ((isSome_percentDecode _).trans hcut)
  obtain ⟨bytes, hbytes, rfl⟩ := Option.map_eq_some_iff.mp hout
  rw [hout, percentDecodeBytes_eq hbytes hsign]
  exact congrArg some hback

/-- Bytes that are written as the form decoder reads them. -/
theorem escapes_of_writesByte {enc : UInt8 → Text} (h : ∀ b, WritesByte b (enc b)) :
    Escapes enc := by
  intro byte
  cases h byte with
  | plain hascii hpercent hplus h => exact Or.inl ⟨byte, hpercent, hascii, h⟩
  | space hb h => exact Or.inl ⟨0x2B, by decide, by decide, h⟩
  | @escape x y hx hy h => exact Or.inr ⟨x, y, by rw [hx]; rfl, by rw [hy]; rfl, h⟩

/-- A text that the form encoder wrote is read back. -/
theorem percentDecode_urlencode (t : Text) : percentDecode (urlencode t) = some t :=
  percentDecode_encoder (escapes_of_writesByte writesByte_urlencodeByte)
      (urlencode_encoder.decode t)

namespace Oauth

/-- The encoder of the authorization URL never writes a `+`. -/
theorem writesByte_urlencodeByte (b : UInt8) : WritesByte b (urlencodeByte b) := by
  unfold urlencodeByte
  split
  · rename_i hfree
    obtain ⟨hpercent, hplus, hascii, hbytes⟩ := encode_unreserved hfree
    exact .plain hascii hpercent hplus hbytes
  · obtain ⟨x, y, hx, hy, hbytes⟩ := encode_escape b
    exact .escape hx hy hbytes

/-- A text that the encoder wrote is read back. -/
theorem urldecode_urlencode (t : Text) : urldecode (urlencode t) = some t :=
  percentDecode_encoder (escapes_of_writesByte writesByte_urlencodeByte)
    (decodeComponent_flatMap writesByte_urlencodeByte t)

end Oauth

end Gabriel.Engine
