import Gabriel.Lib.Text

/-!
# `Gabriel.Lib.Base64`: base64

The encoding of bytes in the alphabet with `+` and `/`: three bytes are four characters, and what
is left at the end is padded with `=`. The decoder is the strict one, which takes what the encoder
writes and nothing else.

`encodeUrl` is the encoding without padding, in the alphabet with `-` and `_`. `UrlSafe` is what is
documented of such an encoding, for those who use a library for it. The theorems:

* `decode_encode`: what is encoded is decoded.
* `length_encode`, `utf8Len_encode`: the length of an encoding, in characters and in bytes.
* `encodeUrl_injective`: different bytes are different texts.
* `UrlSafe.injective`, `UrlSafe.length_eq`: the same of any encoding that is documented so.
* `urlSafe_encodeUrl`: the encoding above is one.
-/

set_option autoImplicit false

namespace Base64

/-- The digits, in the order of their values. -/
def alphabet : Text := "ABCDEFGHIJKLMNOPQRSTUVWXYZabcdefghijklmnopqrstuvwxyz0123456789+/".toList

/-- The digit of a value below 64. -/
def digit (n : ℕ) : Char := alphabet.getD n '='

/-- The value of a digit. -/
def value (c : Char) : Option ℕ := alphabet.idxOf? c

/-- Encode bytes. -/
def encode : List UInt8 → Text
  | [] => []
  | [a] => [digit (a.toNat / 4), digit (a.toNat % 4 * 16), '=', '=']
  | [a, b] =>
    [digit (a.toNat / 4), digit (a.toNat % 4 * 16 + b.toNat / 16), digit (b.toNat % 16 * 4), '=']
  | a :: b :: c :: rest =>
    digit (a.toNat / 4) :: digit (a.toNat % 4 * 16 + b.toNat / 16)
      :: digit (b.toNat % 16 * 4 + c.toNat / 64) :: digit (c.toNat % 64) :: encode rest

/-- The bytes of two digits, the second of which ends in four zeros. -/
def lastOne (w x : Char) : Option (List UInt8) := do
  let w ← value w
  let x ← value x
  if x % 16 = 0 then some [UInt8.ofNat (w * 4 + x / 16)] else none

/-- The bytes of three digits, the third of which ends in two zeros. -/
def lastTwo (w x y : Char) : Option (List UInt8) := do
  let w ← value w
  let x ← value x
  let y ← value y
  if y % 4 = 0 then
    some [UInt8.ofNat (w * 4 + x / 16), UInt8.ofNat (x % 16 * 16 + y / 4)]
  else none

/-- The bytes of four digits. -/
def three (w x y z : Char) : Option (List UInt8) := do
  let w ← value w
  let x ← value x
  let y ← value y
  let z ← value z
  some [UInt8.ofNat (w * 4 + x / 16), UInt8.ofNat (x % 16 * 16 + y / 4),
    UInt8.ofNat (y % 4 * 64 + z)]

/-- Decode a text, or `none` when no bytes have it. -/
def decode : Text → Option (List UInt8)
  | [] => some []
  | w :: x :: y :: z :: rest =>
    if z = '=' ∧ rest = [] then
      if y = '=' then lastOne w x else lastTwo w x y
    else do
      let bytes ← three w x y z
      let others ← decode rest
      some (bytes ++ others)
  | _ => none

/-- The digits, one by one. What follows is evaluated on this list. -/
theorem alphabet_eq : alphabet =
    ['A', 'B', 'C', 'D', 'E', 'F', 'G', 'H', 'I', 'J', 'K', 'L', 'M', 'N', 'O', 'P', 'Q', 'R', 'S',
      'T', 'U', 'V', 'W', 'X', 'Y', 'Z', 'a', 'b', 'c', 'd', 'e', 'f', 'g', 'h', 'i', 'j', 'k', 'l',
      'm', 'n', 'o', 'p', 'q', 'r', 's', 't', 'u', 'v', 'w', 'x', 'y', 'z', '0', '1', '2', '3', '4',
      '5', '6', '7', '8', '9', '+', '/'] :=
  String.toList_ofList

/-- A digit is read. -/
theorem value_digit {n : ℕ} (h : n < 64) : value (digit n) = some n := by
  have hall : ∀ m < 64, value (digit m) = some m := by
    unfold value digit
    rw [alphabet_eq]
    decide +kernel
  exact hall n h

/-- A digit is no padding. -/
theorem digit_ne_pad {n : ℕ} (h : n < 64) : digit n ≠ '=' := by
  have hall : ∀ m < 64, digit m ≠ '=' := by
    unfold digit
    rw [alphabet_eq]
    decide +kernel
  exact hall n h

/-- **What is encoded is decoded.** -/
theorem decode_encode (bytes : List UInt8) : decode (encode bytes) = some bytes := by
  -- By the groups of three bytes, and the two shorter ones at the end.
  induction bytes using encode.induct with
  | case1 => rfl
  | case2 a =>
    have ha := a.toNat_lt
    -- The two parts of a byte, six and two bits, make it up again.
    have hbyte : a.toNat / 4 * 4 + a.toNat % 4 * 16 / 16 = a.toNat := by omega
    have hzeros : a.toNat % 4 * 16 % 16 = 0 := by omega
    rw [encode, decode, if_pos ⟨rfl, rfl⟩, if_pos rfl, lastOne, value_digit (by omega),
      value_digit (by omega)]
    simp only [Option.bind_eq_bind, Option.bind_some, hbyte, hzeros, if_true, UInt8.ofNat_toNat]
  | case3 a b =>
    have ha := a.toNat_lt
    have hb := b.toNat_lt
    have hfirst : a.toNat / 4 * 4 + (a.toNat % 4 * 16 + b.toNat / 16) / 16 = a.toNat := by omega
    have hsecond : (a.toNat % 4 * 16 + b.toNat / 16) % 16 * 16 + b.toNat % 16 * 4 / 4
        = b.toNat := by omega
    have hzeros : b.toNat % 16 * 4 % 4 = 0 := by omega
    rw [encode, decode, if_pos ⟨rfl, rfl⟩, if_neg (digit_ne_pad (by omega)), lastTwo,
      value_digit (by omega), value_digit (by omega), value_digit (by omega)]
    simp only [Option.bind_eq_bind, Option.bind_some, hfirst, hsecond, hzeros, if_true,
      UInt8.ofNat_toNat]
  | case4 a b c rest ih =>
    have ha := a.toNat_lt
    have hb := b.toNat_lt
    have hc := c.toNat_lt
    have hfirst : a.toNat / 4 * 4 + (a.toNat % 4 * 16 + b.toNat / 16) / 16 = a.toNat := by omega
    have hsecond : (a.toNat % 4 * 16 + b.toNat / 16) % 16 * 16
        + (b.toNat % 16 * 4 + c.toNat / 64) / 4 = b.toNat := by omega
    have hthird : (b.toNat % 16 * 4 + c.toNat / 64) % 4 * 64 + c.toNat % 64 = c.toNat := by omega
    -- A digit is no padding, so that three digits more are read.
    have hpad : ¬ (digit (c.toNat % 64) = '=' ∧ encode rest = []) :=
      fun h => digit_ne_pad (by omega) h.1
    rw [encode, decode, if_neg hpad, three, value_digit (by omega), value_digit (by omega),
      value_digit (by omega), value_digit (by omega), ih]
    simp only [Option.bind_eq_bind, Option.bind_some, hfirst, hsecond, hthird,
      UInt8.ofNat_toNat]
    rfl

/-- Three bytes, or what is left of them, are four characters. -/
theorem length_encode (bytes : List UInt8) :
    (encode bytes).length = (bytes.length + 2) / 3 * 4 := by
  induction bytes using encode.induct with
  | case1 => rfl
  | case2 a => simp [encode]
  | case3 a b => simp [encode]
  | case4 a b c rest ih =>
    rw [encode]
    simp only [List.length_cons, ih]
    omega

/-- The characters are digits and padding, which are ASCII. -/
theorem ascii_of_mem_encode {bytes : List UInt8} {c : Char} (hc : c ∈ encode bytes) :
    c.toNat ≤ 127 := by
  -- Each digit stands in the alphabet, where all are ASCII.
  have hdigit : ∀ n, (digit n).toNat ≤ 127 := by
    intro n
    by_cases h : n < 64
    · have hall : ∀ m < 64, (digit m).toNat ≤ 127 := by
        unfold digit
        rw [alphabet_eq]
        decide +kernel
      exact hall n h
    · have hlength : alphabet.length ≤ n := not_lt.mp h
      rw [digit, List.getD_eq_default _ _ hlength]
      decide
  induction bytes using encode.induct with
  | case1 => exact absurd hc List.not_mem_nil
  | case2 a =>
    simp only [encode, List.mem_cons, List.not_mem_nil, or_false] at hc
    rcases hc with rfl | rfl | rfl | rfl
    · exact hdigit _
    · exact hdigit _
    all_goals decide
  | case3 a b =>
    simp only [encode, List.mem_cons, List.not_mem_nil, or_false] at hc
    rcases hc with rfl | rfl | rfl | rfl
    · exact hdigit _
    · exact hdigit _
    · exact hdigit _
    · decide
  | case4 a b c rest ih =>
    rw [encode] at hc
    simp only [List.mem_cons] at hc
    rcases hc with rfl | rfl | rfl | rfl | hc
    · exact hdigit _
    · exact hdigit _
    · exact hdigit _
    · exact hdigit _
    · exact ih hc

/-- The size of an encoding. -/
theorem utf8Len_encode (bytes : List UInt8) :
    Text.utf8Len (encode bytes) = (bytes.length + 2) / 3 * 4 := by
  rw [Text.utf8Len_of_ascii fun _ => ascii_of_mem_encode, length_encode]

example : encode [0xFF] = "/w==".toList := rfl

/-! ### The alphabet of URLs -/

/-- A digit in the alphabet with `-` and `_`. -/
def toUrl (c : Char) : Char := if c = '+' then '-' else if c = '/' then '_' else c

/-- Encode bytes in this alphabet, without padding. -/
def encodeUrl (bytes : List UInt8) : Text := ((encode bytes).filter (· ≠ '=')).map toUrl

/-- The digit of a value in this alphabet. -/
def urlDigit (n : ℕ) : Char := toUrl (digit n)

/-- Characters other than the two new ones stay different. -/
theorem toUrl_inj {c d : Char} (hc : c ≠ '-' ∧ c ≠ '_') (hd : d ≠ '-' ∧ d ≠ '_')
    (h : toUrl c = toUrl d) : c = d := by
  have hself : ∀ {c : Char}, c ≠ '-' ∧ c ≠ '_' →
      (if toUrl c = '-' then '+' else if toUrl c = '_' then '/' else toUrl c) = c := by
    intro c hc
    unfold toUrl
    by_cases hplus : c = '+'
    · rw [if_pos hplus, if_pos rfl, hplus]
    by_cases hslash : c = '/'
    · rw [if_neg hplus, if_pos hslash, if_neg (by decide), if_pos rfl, hslash]
    rw [if_neg hplus, if_neg hslash, if_neg hc.1, if_neg hc.2]
  rw [← hself hc, h, hself hd]

/-- Values below 64 have different digits. -/
theorem urlDigit_inj {m n : ℕ} (hm : m < 64) (hn : n < 64) (h : urlDigit m = urlDigit n) :
    m = n := by
  have hall : ∀ m < 64, digit m ≠ '-' ∧ digit m ≠ '_' := by
    unfold digit
    rw [alphabet_eq]
    decide +kernel
  have hdigit : digit m = digit n := toUrl_inj (hall m hm) (hall n hn) h
  have hvalue := value_digit hm
  rw [hdigit, value_digit hn] at hvalue
  exact (Option.some.inj hvalue).symm

/-- No bytes are no digits. -/
@[simp] theorem encodeUrl_nil : encodeUrl [] = [] := rfl

/-- One byte is two digits. -/
theorem encodeUrl_one (a : UInt8) :
    encodeUrl [a] = [urlDigit (a.toNat / 4), urlDigit (a.toNat % 4 * 16)] := by
  have ha := a.toNat_lt
  unfold encodeUrl encode
  simp [digit_ne_pad (show a.toNat / 4 < 64 by omega),
    digit_ne_pad (show a.toNat % 4 * 16 < 64 by omega), urlDigit]

/-- Two bytes are three digits. -/
theorem encodeUrl_two (a b : UInt8) :
    encodeUrl [a, b] = [urlDigit (a.toNat / 4), urlDigit (a.toNat % 4 * 16 + b.toNat / 16),
      urlDigit (b.toNat % 16 * 4)] := by
  have ha := a.toNat_lt
  have hb := b.toNat_lt
  unfold encodeUrl encode
  simp [digit_ne_pad (show a.toNat / 4 < 64 by omega),
    digit_ne_pad (show a.toNat % 4 * 16 + b.toNat / 16 < 64 by omega),
    digit_ne_pad (show b.toNat % 16 * 4 < 64 by omega), urlDigit]

/-- Three bytes are four digits, in front of the rest. -/
theorem encodeUrl_cons (a b c : UInt8) (rest : List UInt8) :
    encodeUrl (a :: b :: c :: rest)
      = urlDigit (a.toNat / 4) :: urlDigit (a.toNat % 4 * 16 + b.toNat / 16)
        :: urlDigit (b.toNat % 16 * 4 + c.toNat / 64) :: urlDigit (c.toNat % 64)
        :: encodeUrl rest := by
  have ha := a.toNat_lt
  have hb := b.toNat_lt
  have hc := c.toNat_lt
  unfold encodeUrl
  rw [encode]
  simp [digit_ne_pad (show a.toNat / 4 < 64 by omega),
    digit_ne_pad (show a.toNat % 4 * 16 + b.toNat / 16 < 64 by omega),
    digit_ne_pad (show b.toNat % 16 * 4 + c.toNat / 64 < 64 by omega),
    digit_ne_pad (show c.toNat % 64 < 64 by omega), urlDigit]

/-- **Different bytes are different texts.** -/
theorem encodeUrl_injective : Function.Injective encodeUrl := by
  -- By groups: texts of two groups of different kinds differ in length.
  intro x
  induction x using encode.induct with
  | case1 =>
    intro y h
    match y with
    | [] => rfl
    | [a] => simp [encodeUrl_one] at h
    | [a, b] => simp [encodeUrl_two] at h
    | a :: b :: c :: rest => simp [encodeUrl_cons] at h
  | case2 a =>
    intro y h
    match y with
    | [] => simp [encodeUrl_one] at h
    | [a'] =>
      have ha := a.toNat_lt
      have ha' := a'.toNat_lt
      simp only [encodeUrl_one, List.cons.injEq] at h
      -- The digits are equal, and with them the bits of the bytes.
      have h1 := urlDigit_inj (by omega) (by omega) h.1
      have h2 := urlDigit_inj (by omega) (by omega) h.2.1
      rw [UInt8.toNat_inj.mp (show a.toNat = a'.toNat by omega)]
    | [a', b'] => simp [encodeUrl_one, encodeUrl_two] at h
    | a' :: b' :: c' :: rest' => simp [encodeUrl_one, encodeUrl_cons] at h
  | case3 a b =>
    intro y h
    match y with
    | [] => simp [encodeUrl_two] at h
    | [a'] => simp [encodeUrl_one, encodeUrl_two] at h
    | [a', b'] =>
      have ha := a.toNat_lt
      have ha' := a'.toNat_lt
      have hb := b.toNat_lt
      have hb' := b'.toNat_lt
      simp only [encodeUrl_two, List.cons.injEq] at h
      have h1 := urlDigit_inj (by omega) (by omega) h.1
      have h2 := urlDigit_inj (by omega) (by omega) h.2.1
      have h3 := urlDigit_inj (by omega) (by omega) h.2.2.1
      rw [UInt8.toNat_inj.mp (show a.toNat = a'.toNat by omega),
        UInt8.toNat_inj.mp (show b.toNat = b'.toNat by omega)]
    | a' :: b' :: c' :: rest' => simp [encodeUrl_two, encodeUrl_cons] at h
  | case4 a b c rest ih =>
    intro y h
    match y with
    | [] => simp [encodeUrl_cons] at h
    | [a'] => simp [encodeUrl_one, encodeUrl_cons] at h
    | [a', b'] => simp [encodeUrl_two, encodeUrl_cons] at h
    | a' :: b' :: c' :: rest' =>
      have ha := a.toNat_lt
      have ha' := a'.toNat_lt
      have hb := b.toNat_lt
      have hb' := b'.toNat_lt
      have hc := c.toNat_lt
      have hc' := c'.toNat_lt
      simp only [encodeUrl_cons, List.cons.injEq] at h
      have h1 := urlDigit_inj (by omega) (by omega) h.1
      have h2 := urlDigit_inj (by omega) (by omega) h.2.1
      have h3 := urlDigit_inj (by omega) (by omega) h.2.2.1
      have h4 := urlDigit_inj (by omega) (by omega) h.2.2.2.1
      rw [UInt8.toNat_inj.mp (show a.toNat = a'.toNat by omega),
        UInt8.toNat_inj.mp (show b.toNat = b'.toNat by omega),
        UInt8.toNat_inj.mp (show c.toNat = c'.toNat by omega), ih h.2.2.2.2]

/-- The characters are digits of this alphabet. -/
theorem exists_of_mem_encodeUrl {bytes : List UInt8} {c : Char} (hc : c ∈ encodeUrl bytes) :
    ∃ n < 64, c = urlDigit n := by
  -- By groups; each character is the digit of six bits.
  induction bytes using encode.induct with
  | case1 => exact absurd hc List.not_mem_nil
  | case2 a =>
    have ha := a.toNat_lt
    rw [encodeUrl_one] at hc
    simp only [List.mem_cons, List.not_mem_nil, or_false] at hc
    rcases hc with rfl | rfl
    · exact ⟨_, by omega, rfl⟩
    · exact ⟨_, by omega, rfl⟩
  | case3 a b =>
    have ha := a.toNat_lt
    have hb := b.toNat_lt
    rw [encodeUrl_two] at hc
    simp only [List.mem_cons, List.not_mem_nil, or_false] at hc
    rcases hc with rfl | rfl | rfl
    · exact ⟨_, by omega, rfl⟩
    · exact ⟨_, by omega, rfl⟩
    · exact ⟨_, by omega, rfl⟩
  | case4 a b d rest ih =>
    have ha := a.toNat_lt
    have hb := b.toNat_lt
    have hd := d.toNat_lt
    rw [encodeUrl_cons] at hc
    simp only [List.mem_cons] at hc
    rcases hc with rfl | rfl | rfl | rfl | hc
    · exact ⟨_, by omega, rfl⟩
    · exact ⟨_, by omega, rfl⟩
    · exact ⟨_, by omega, rfl⟩
    · exact ⟨_, by omega, rfl⟩
    · exact ih hc

/-! ### Libraries -/

/-- The characters of the alphabet of URLs. -/
def urlAlphabet : Text :=
  "ABCDEFGHIJKLMNOPQRSTUVWXYZabcdefghijklmnopqrstuvwxyz0123456789-_".toList

/-- What is documented of an encoding in the alphabet of URLs without padding: three bytes are four
characters, every character is one of the alphabet, and the bytes can be decoded. -/
structure UrlSafe (encode : List UInt8 → Text) : Prop where
  nil : encode [] = []
  group : ∀ a b c rest, ∃ w x y z, encode (a :: b :: c :: rest) = w :: x :: y :: z :: encode rest
  alphabet : ∀ bytes, ∀ c ∈ encode bytes, c ∈ urlAlphabet
  decodes : ∃ decode : Text → Option (List UInt8), ∀ bytes, decode (encode bytes) = some bytes

namespace UrlSafe

variable {encode : List UInt8 → Text}

/-- Different bytes are different texts. -/
theorem injective (h : UrlSafe encode) : Function.Injective encode := by
  obtain ⟨decode, hdecode⟩ := h.decodes
  intro x y hxy
  have hx := hdecode x
  rw [hxy, hdecode y] at hx
  exact (Option.some.inj hx).symm

/-- Three bytes each are four characters each. -/
theorem length_eq (h : UrlSafe encode) {n : ℕ} {bytes : List UInt8}
    (hbytes : bytes.length = 3 * n) :
    (encode bytes).length = 4 * n := by
  induction n generalizing bytes with
  | zero =>
    rw [List.eq_nil_of_length_eq_zero hbytes, h.nil]
    rfl
  | succ n ih =>
    match bytes, hbytes with
    | a :: b :: c :: rest, hbytes =>
      obtain ⟨w, x, y, z, hgroup⟩ := h.group a b c rest
      have hrest : rest.length = 3 * n := by
        simp only [List.length_cons] at hbytes
        omega
      rw [hgroup]
      simp only [List.length_cons, ih hrest]
      omega

end UrlSafe

/-- The encoding above is one. -/
theorem urlSafe_encodeUrl : UrlSafe encodeUrl where
  nil := encodeUrl_nil
  group a b c rest := ⟨_, _, _, _, encodeUrl_cons a b c rest⟩
  alphabet bytes c hc := by
    have hall : ∀ n < 64, urlDigit n ∈ urlAlphabet := by
      unfold urlDigit digit
      rw [alphabet_eq]
      decide +kernel
    obtain ⟨n, hn, rfl⟩ := exists_of_mem_encodeUrl hc
    exact hall n hn
  decodes := ⟨Function.partialInv encodeUrl, Function.partialInv_left encodeUrl_injective⟩

end Base64
