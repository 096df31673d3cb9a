import Gabriel.Lib.Text

/-!
# `Gabriel.Lib.Utf8`: UTF-8 bytes and the lossy decoder

`encode` is the UTF-8 form of a text. `decodeLossy` reads any byte list: a maximal ill-formed
piece becomes one U+FFFD, as in the substitution rule of the Unicode standard. The decoder keeps a
count of bytes still to skip, so it recurses on the list itself.

An ASCII byte is a place where the input of the decoder can be cut, and a split at an ASCII byte is
one at its character, so texts can be taken apart before or after decoding. The theorems:

* `decodeLossy_append_ascii`: the decoder reads the two sides of an ASCII byte apart.
* `decodeLossy_encode_append`: the decoder reads an encoded text back, whatever follows.
* `splitOn_encode`: an encoded text is split at an ASCII byte as the text is at the character.
* `encode_injective`, `decode?_eq_some_iff`: a text is told by its bytes.
* `length_decodeLossy_cons_le`: one more byte in front is at most one more character.
* `byteValues_lt_iff`: the bytes of texts are in the order of the texts.
-/

set_option autoImplicit false

namespace Utf8

/-- The UTF-8 form of a text. -/
def encode (t : Text) : List UInt8 := t.flatMap String.utf8EncodeChar

/-- A byte of the form `10xxxxxx`. -/
def isContinuation (b : UInt8) : Bool := 0x80 ≤ b.toNat && b.toNat < 0xC0

/-- The length of the sequence a first byte announces, or 0 for a byte that starts none. -/
def charWidth (b : Nat) : Nat :=
  if b < 0x80 then 1
  else if b < 0xC2 then 0
  else if b < 0xE0 then 2
  else if b < 0xF0 then 3
  else if b < 0xF5 then 4
  else 0

/-- Whether `b1` may follow the first byte `b0` of a sequence of three or four bytes. -/
def secondByteOk (b0 b1 : Nat) : Bool :=
  if b0 = 0xE0 then 0xA0 ≤ b1 && b1 ≤ 0xBF
  else if b0 = 0xED then 0x80 ≤ b1 && b1 ≤ 0x9F
  else if b0 = 0xF0 then 0x90 ≤ b1 && b1 ≤ 0xBF
  else if b0 = 0xF4 then 0x80 ≤ b1 && b1 ≤ 0x8F
  else 0x80 ≤ b1 && b1 ≤ 0xBF

/-- The replacement character. -/
def replacement : Char := Char.ofNat 0xFFFD

/-- The payload of a continuation byte. -/
def payload (b : UInt8) : Nat := b.toNat % 64

/-- The first character of `b :: rest`, and how many bytes of `rest` belong to it. -/
def firstChar (b : UInt8) (rest : List UInt8) : Char × Nat :=
  match charWidth b.toNat with
  | 1 => (Char.ofNat b.toNat, 0)
  | 2 =>
    match rest with
    | b1 :: _ =>
      if isContinuation b1 then (Char.ofNat (b.toNat % 32 * 64 + payload b1), 1)
      else (replacement, 0)
    | [] => (replacement, 0)
  | 3 =>
    match rest with
    | b1 :: b2 :: _ =>
      if secondByteOk b.toNat b1.toNat then
        if isContinuation b2 then
          (Char.ofNat (b.toNat % 16 * 4096 + payload b1 * 64 + payload b2), 2)
        else (replacement, 1)
      else (replacement, 0)
    | [b1] => (replacement, if secondByteOk b.toNat b1.toNat then 1 else 0)
    | [] => (replacement, 0)
  | 4 =>
    match rest with
    | b1 :: b2 :: b3 :: _ =>
      if secondByteOk b.toNat b1.toNat then
        if isContinuation b2 then
          if isContinuation b3 then
            (Char.ofNat (b.toNat % 8 * 262144 + payload b1 * 4096 + payload b2 * 64 + payload b3),
              3)
          else (replacement, 2)
        else (replacement, 1)
      else (replacement, 0)
    | [b1, b2] =>
      (replacement,
        if secondByteOk b.toNat b1.toNat then if isContinuation b2 then 2 else 1 else 0)
    | [b1] => (replacement, if secondByteOk b.toNat b1.toNat then 1 else 0)
    | [] => (replacement, 0)
  | _ => (replacement, 0)

/-- The decoder, with the number of bytes that belong to the character before. -/
def decodeFrom : Nat → List UInt8 → Text
  | _, [] => []
  | skip + 1, _ :: rest => decodeFrom skip rest
  | 0, b :: rest => (firstChar b rest).1 :: decodeFrom (firstChar b rest).2 rest

/-- Decode, with U+FFFD in place of every maximal ill-formed piece. -/
def decodeLossy (bytes : List UInt8) : Text := decodeFrom 0 bytes

/-- Decode bytes that are UTF-8, and only these. -/
def decode? (bytes : List UInt8) : Option Text :=
  if encode (decodeLossy bytes) = bytes then some (decodeLossy bytes) else none

/-- No characters are no bytes. -/
@[simp] theorem encode_nil : encode [] = [] := rfl

/-- The bytes of a first character, and of the rest. -/
@[simp] theorem encode_cons (c : Char) (t : Text) :
    encode (c :: t) = String.utf8EncodeChar c ++ encode t := rfl

/-- The bytes of two texts, one after the other. -/
@[simp] theorem encode_append (s t : Text) : encode (s ++ t) = encode s ++ encode t :=
  List.flatMap_append

/-- No bytes are no characters. -/
@[simp] theorem decodeLossy_nil : decodeLossy [] = [] := rfl

/-- Skipping is dropping. -/
theorem decodeFrom_eq_drop (skip : Nat) (bytes : List UInt8) :
    decodeFrom skip bytes = decodeLossy (bytes.drop skip) := by
  induction bytes generalizing skip with
  | nil => simp [decodeFrom]
  | cons b rest ih =>
    cases skip with
    | zero => rfl
    | succ skip => exact ih skip

/-- One step of the decoder. -/
theorem decodeLossy_cons (b : UInt8) (rest : List UInt8) :
    decodeLossy (b :: rest)
      = (firstChar b rest).1 :: decodeLossy (rest.drop (firstChar b rest).2) := by
  rw [← decodeFrom_eq_drop]
  rfl

/-! ### ASCII bytes cut the input -/

/-- An ASCII byte continues no sequence. -/
theorem not_isContinuation_of_lt {a : UInt8} (h : a.toNat < 0x80) : isContinuation a = false := by
  simp only [isContinuation, Bool.and_eq_false_iff, decide_eq_false_iff_not]
  omega

/-- An ASCII byte is no second byte of a sequence. -/
theorem secondByteOk_of_lt {b a : Nat} (h : a < 0x80) : secondByteOk b a = false := by
  unfold secondByteOk
  split_ifs <;> simp only [Bool.and_eq_false_iff, decide_eq_false_iff_not] <;> omega

/-- The first character takes bytes of the list only. -/
theorem firstChar_snd_le (b : UInt8) (rest : List UInt8) :
    (firstChar b rest).2 ≤ rest.length := by
  unfold firstChar
  split <;> (try split) <;> (try split_ifs) <;> simp

/-- An ASCII byte further on does not change the first character. -/
theorem firstChar_append_ascii {a : UInt8} (h : a.toNat < 0x80) (b : UInt8) (x y : List UInt8) :
    firstChar b (x ++ a :: y) = firstChar b x := by
  have hcont := not_isContinuation_of_lt h
  have hsecond : ∀ n, secondByteOk n a.toNat = false := fun n => secondByteOk_of_lt h
  unfold firstChar
  -- At most three bytes after the first one are looked at.
  match x with
  | [] => cases y with
    | nil =>
      split
      all_goals simp [hcont, hsecond]
    | cons y1 ys =>
      cases ys
      all_goals
        split
        all_goals simp [hcont, hsecond]
  | [x1] =>
    cases y
    all_goals split
    all_goals simp only [List.cons_append, List.nil_append, hcont, Bool.false_eq_true, if_false]
    all_goals split_ifs
    all_goals rfl
  | [x1, x2] =>
    split
    all_goals simp only [List.cons_append, List.nil_append, hcont, Bool.false_eq_true, if_false]
    all_goals split_ifs
    all_goals rfl
  | x1 :: x2 :: x3 :: xs => rfl

/-- The decoder reads the two sides of an ASCII byte apart. -/
theorem decodeLossy_append_ascii {a : UInt8} (h : a.toNat < 0x80) (x y : List UInt8) :
    decodeLossy (x ++ a :: y) = decodeLossy x ++ Char.ofNat a.toNat :: decodeLossy y := by
  induction hn : x.length using Nat.strong_induction_on generalizing x with
  | _ n ih =>
    cases x with
    | nil =>
      rw [List.nil_append, decodeLossy_cons]
      have hfirst : firstChar a y = (Char.ofNat a.toNat, 0) := by
        simp only [firstChar, charWidth, if_pos h]
      rw [hfirst]
      rfl
    | cons b x =>
      have hle := firstChar_snd_le b x
      rw [List.cons_append, decodeLossy_cons, firstChar_append_ascii h,
        List.drop_append_of_le_length hle, ih _ _ (x.drop (firstChar b x).2) rfl, decodeLossy_cons]
      · rfl
      · rw [← hn, List.length_drop, List.length_cons]
        omega

/-! ### Decoding what was encoded -/

/-- The scalar values leave out the surrogates. -/
theorem toNat_valid (c : Char) :
    c.toNat < 0xD800 ∨ (0xDFFF < c.toNat ∧ c.toNat < 0x110000) := c.valid

/-- The bytes of a character, by its size. -/
theorem utf8EncodeChar_cases (c : Char) :
    (c.toNat < 0x80 ∧ String.utf8EncodeChar c = [UInt8.ofNat c.toNat]) ∨
    (0x80 ≤ c.toNat ∧ c.toNat < 0x800 ∧ String.utf8EncodeChar c =
      [UInt8.ofNat (c.toNat / 64 % 32 + 192), UInt8.ofNat (c.toNat % 64 + 128)]) ∨
    (0x800 ≤ c.toNat ∧ c.toNat < 0x10000 ∧ String.utf8EncodeChar c =
      [UInt8.ofNat (c.toNat / 4096 % 16 + 224), UInt8.ofNat (c.toNat / 64 % 64 + 128),
        UInt8.ofNat (c.toNat % 64 + 128)]) ∨
    (0x10000 ≤ c.toNat ∧ String.utf8EncodeChar c =
      [UInt8.ofNat (c.toNat / 262144 % 8 + 240), UInt8.ofNat (c.toNat / 4096 % 64 + 128),
        UInt8.ofNat (c.toNat / 64 % 64 + 128), UInt8.ofNat (c.toNat % 64 + 128)]) := by
  unfold String.utf8EncodeChar
  have hval : c.val.toNat = c.toNat := rfl
  simp only [hval]
  by_cases h1 : c.toNat ≤ 0x7F
  · exact Or.inl ⟨by omega, by rw [if_pos h1]⟩
  · by_cases h2 : c.toNat ≤ 0x7FF
    · exact Or.inr (Or.inl ⟨by omega, by omega, by rw [if_neg h1, if_pos h2]⟩)
    · by_cases h3 : c.toNat ≤ 0xFFFF
      · exact Or.inr (Or.inr (Or.inl ⟨by omega, by omega, by rw [if_neg h1, if_neg h2, if_pos h3]⟩))
      · exact Or.inr (Or.inr (Or.inr ⟨by omega, by rw [if_neg h1, if_neg h2, if_neg h3]⟩))

/-- An ASCII character is one byte. -/
theorem utf8EncodeChar_of_lt {c : Char} (h : c.toNat < 0x80) :
    String.utf8EncodeChar c = [UInt8.ofNat c.toNat] := by
  rcases utf8EncodeChar_cases c with ⟨_, hc⟩ | ⟨hlt, _⟩ | ⟨hlt, _⟩ | ⟨hlt, _⟩
  · exact hc
  all_goals omega

/-- An ASCII text has one byte for each character. -/
theorem encode_of_lt {t : Text} (h : ∀ c ∈ t, c.toNat < 0x80) :
    encode t = t.map fun c => UInt8.ofNat c.toNat := by
  induction t with
  | nil => rfl
  | cons c t ih =>
    rw [encode_cons, utf8EncodeChar_of_lt (h c List.mem_cons_self),
      ih fun d hd => h d (List.mem_cons_of_mem _ hd)]
    rfl

/-- The code of an ASCII character. -/
theorem toNat_ofNat_of_lt {n : Nat} (h : n < 0x80) : (Char.ofNat n).toNat = n := by
  have hall : ∀ m, m < 0x80 → (Char.ofNat m).toNat = m := by decide
  exact hall n h

/-- The byte of an ASCII character. -/
theorem encode_ofNat_of_lt {n : Nat} (h : n < 0x80) :
    encode [Char.ofNat n] = [UInt8.ofNat n] := by
  have hnat := toNat_ofNat_of_lt h
  rw [encode_cons, encode_nil, List.append_nil, utf8EncodeChar_of_lt (by omega), hnat]

/-- An ASCII byte of an encoded text is that of an ASCII character of the text. -/
theorem mem_encode_ascii_iff {c : Char} (hc : c.toNat < 0x80) (t : Text) :
    UInt8.ofNat c.toNat ∈ encode t ↔ c ∈ t := by
  have hof : ∀ n, n < 256 → (UInt8.ofNat n).toNat = n := fun n h => UInt8.toNat_ofNat_of_lt' h
  have hchar : ∀ d : Char, UInt8.ofNat c.toNat ∈ String.utf8EncodeChar d ↔ c = d := by
    intro d
    -- A byte of a longer sequence is no ASCII byte.
    have hbyte : ∀ n, n < 256 → 0x80 ≤ n → UInt8.ofNat c.toNat ≠ UInt8.ofNat n := by
      intro n hlt hge hsame
      have hnat := congrArg UInt8.toNat hsame
      rw [hof _ (by omega), hof _ hlt] at hnat
      omega
    by_cases hlow : d.toNat < 0x80
    · rw [utf8EncodeChar_of_lt hlow, List.mem_singleton]
      constructor
      · intro hsame
        have hnat := congrArg UInt8.toNat hsame
        rw [hof _ (by omega), hof _ (by omega)] at hnat
        exact Char.toNat_inj.mp hnat
      · intro hsame
        rw [hsame]
    · refine iff_of_false ?_ fun hsame => hlow (hsame ▸ hc)
      rcases utf8EncodeChar_cases d with ⟨hlt, -⟩ | ⟨-, -, h⟩ | ⟨-, -, h⟩ | ⟨-, h⟩
      · exact absurd hlt hlow
      all_goals
        rw [h]
        simp only [List.mem_cons, List.not_mem_nil, or_false, not_or]
      · exact ⟨hbyte _ (by omega) (by omega), hbyte _ (by omega) (by omega)⟩
      · exact ⟨hbyte _ (by omega) (by omega), hbyte _ (by omega) (by omega),
          hbyte _ (by omega) (by omega)⟩
      · exact ⟨hbyte _ (by omega) (by omega), hbyte _ (by omega) (by omega),
          hbyte _ (by omega) (by omega), hbyte _ (by omega) (by omega)⟩
  unfold encode
  rw [List.mem_flatMap]
  constructor
  · rintro ⟨d, hd, hmem⟩
    rwa [(hchar d).mp hmem]
  · exact fun h => ⟨c, h, (hchar c).mpr rfl⟩

/-- An encoded text is split at an ASCII byte as the text is at the character. -/
theorem splitOn_encode {c : Char} (hc : c.toNat < 0x80) (t : Text) :
    (encode t).splitOn (UInt8.ofNat c.toNat) = (t.splitOn c).map encode := by
  induction hn : t.length using Nat.strong_induction_on generalizing t with
  | _ n ih =>
    by_cases hmem : c ∈ t
    · obtain ⟨a, b, rfl, ha⟩ := List.eq_append_cons_of_mem hmem
      have hbytes : encode (a ++ c :: b) = encode a ++ UInt8.ofNat c.toNat :: encode b := by
        rw [encode_append, encode_cons, utf8EncodeChar_of_lt hc]
        rfl
      have hlt : b.length < n := by
        rw [← hn, List.length_append, List.length_cons]
        omega
      rw [hbytes, List.splitOn_append_cons_self_of_not_mem
        (fun h => ha ((mem_encode_ascii_iff hc a).mp h)), ih b.length hlt b rfl,
        List.splitOn_append_cons_self_of_not_mem ha, List.map_cons]
    · rw [List.splitOn_eq_singleton hmem,
        List.splitOn_eq_singleton fun h => hmem ((mem_encode_ascii_iff hc t).mp h)]
      rfl

/-- The decoder reads one encoded character back. -/
theorem decodeLossy_utf8EncodeChar_append (c : Char) (rest : List UInt8) :
    decodeLossy (String.utf8EncodeChar c ++ rest) = c :: decodeLossy rest := by
  have hvalid := toNat_valid c
  have hof : ∀ n, n < 256 → (UInt8.ofNat n).toNat = n := by
    intro n hn
    simp [Nat.mod_eq_of_lt hn]
  have hchar : ∀ n, n = c.toNat → Char.ofNat n = c := by
    intro n hn
    rw [hn, Char.ofNat_toNat]
  rcases utf8EncodeChar_cases c with ⟨h, hc⟩ | ⟨hlo, hhi, hc⟩ | ⟨hlo, hhi, hc⟩ | ⟨hlo, hc⟩
  all_goals rw [hc]
  all_goals simp only [List.cons_append, List.nil_append]
  all_goals rw [decodeLossy_cons]
  -- The first byte announces the width; the other bytes are continuations in range.
  · have hwidth : charWidth (UInt8.ofNat c.toNat).toNat = 1 := by
      rw [hof _ (by omega), charWidth, if_pos h]
    simp only [firstChar, hwidth, List.drop_zero]
    rw [hchar _ (hof _ (by omega))]
  · have hwidth : charWidth (UInt8.ofNat (c.toNat / 64 % 32 + 192)).toNat = 2 := by
      rw [hof _ (by omega)]
      unfold charWidth
      split_ifs <;> omega
    have hcont : isContinuation (UInt8.ofNat (c.toNat % 64 + 128)) = true := by
      simp only [isContinuation, hof _ (show c.toNat % 64 + 128 < 256 by omega),
        Bool.and_eq_true, decide_eq_true_eq]
      omega
    simp only [firstChar, hwidth, hcont, if_true, List.drop_succ_cons, List.drop_zero]
    rw [hchar]
    simp only [payload, hof _ (show c.toNat % 64 + 128 < 256 by omega),
      hof _ (show c.toNat / 64 % 32 + 192 < 256 by omega)]
    omega
  · have hwidth : charWidth (UInt8.ofNat (c.toNat / 4096 % 16 + 224)).toNat = 3 := by
      rw [hof _ (by omega)]
      unfold charWidth
      split_ifs <;> omega
    have hsecond : secondByteOk (UInt8.ofNat (c.toNat / 4096 % 16 + 224)).toNat
        (UInt8.ofNat (c.toNat / 64 % 64 + 128)).toNat = true := by
      rw [hof _ (by omega), hof _ (by omega)]
      unfold secondByteOk
      split_ifs <;> simp only [Bool.and_eq_true, decide_eq_true_eq] <;> omega
    have hcont : isContinuation (UInt8.ofNat (c.toNat % 64 + 128)) = true := by
      simp only [isContinuation, hof _ (show c.toNat % 64 + 128 < 256 by omega),
        Bool.and_eq_true, decide_eq_true_eq]
      omega
    simp only [firstChar, hwidth, hsecond, hcont, if_true, List.drop_succ_cons, List.drop_zero]
    rw [hchar]
    simp only [payload, hof _ (show c.toNat % 64 + 128 < 256 by omega),
      hof _ (show c.toNat / 64 % 64 + 128 < 256 by omega),
      hof _ (show c.toNat / 4096 % 16 + 224 < 256 by omega)]
    omega
  · have hwidth : charWidth (UInt8.ofNat (c.toNat / 262144 % 8 + 240)).toNat = 4 := by
      rw [hof _ (by omega)]
      unfold charWidth
      split_ifs <;> omega
    have hsecond : secondByteOk (UInt8.ofNat (c.toNat / 262144 % 8 + 240)).toNat
        (UInt8.ofNat (c.toNat / 4096 % 64 + 128)).toNat = true := by
      rw [hof _ (by omega), hof _ (by omega)]
      unfold secondByteOk
      split_ifs <;> simp only [Bool.and_eq_true, decide_eq_true_eq] <;> omega
    have hcont : ∀ n, isContinuation (UInt8.ofNat (n % 64 + 128)) = true := by
      intro n
      simp only [isContinuation, hof _ (show n % 64 + 128 < 256 by omega),
        Bool.and_eq_true, decide_eq_true_eq]
      omega
    simp only [firstChar, hwidth, hsecond, hcont, if_true, List.drop_succ_cons, List.drop_zero]
    rw [hchar]
    simp only [payload, hof _ (show c.toNat % 64 + 128 < 256 by omega),
      hof _ (show c.toNat / 64 % 64 + 128 < 256 by omega),
      hof _ (show c.toNat / 4096 % 64 + 128 < 256 by omega),
      hof _ (show c.toNat / 262144 % 8 + 240 < 256 by omega)]
    omega

/-- The decoder reads an encoded text back, whatever follows. -/
theorem decodeLossy_encode_append (t : Text) (rest : List UInt8) :
    decodeLossy (encode t ++ rest) = t ++ decodeLossy rest := by
  induction t with
  | nil => rfl
  | cons c t ih =>
    rw [encode_cons, List.append_assoc, decodeLossy_utf8EncodeChar_append, ih]
    rfl

/-- Decoding is a left inverse of encoding. -/
@[simp] theorem decodeLossy_encode (t : Text) : decodeLossy (encode t) = t := by
  simpa using decodeLossy_encode_append t []

/-- Two texts with the same bytes are the same text. -/
theorem encode_injective : Function.Injective encode :=
  Function.LeftInverse.injective decodeLossy_encode

/-- The strict decoder reads exactly the encoding of a text. -/
theorem decode?_eq_some_iff (bytes : List UInt8) (t : Text) :
    decode? bytes = some t ↔ encode t = bytes := by
  unfold decode?
  by_cases h : encode (decodeLossy bytes) = bytes
  · rw [if_pos h, Option.some.injEq]
    constructor
    · intro ht
      rw [← ht, h]
    · intro ht
      rw [← ht, decodeLossy_encode]
  · rw [if_neg h]
    refine iff_of_false (fun hnone => nomatch hnone) fun ht => h ?_
    rw [← ht, decodeLossy_encode]

/-! ### The length of a decoded text -/

/-- A second byte of a sequence is a continuation byte. -/
theorem isContinuation_of_secondByteOk {b0 : Nat} {b1 : UInt8}
    (h : secondByteOk b0 b1.toNat = true) : isContinuation b1 = true := by
  unfold secondByteOk at h
  split_ifs at h
  all_goals
    simp only [isContinuation, Bool.and_eq_true, decide_eq_true_eq] at h ⊢
    omega

/-- A continuation byte that belongs to no character is one character of its own. -/
theorem decodeLossy_continuation {b : UInt8} (h : isContinuation b = true) (rest : List UInt8) :
    decodeLossy (b :: rest) = replacement :: decodeLossy rest := by
  simp only [isContinuation, Bool.and_eq_true, decide_eq_true_eq] at h
  have hwidth : charWidth b.toNat = 0 := by
    unfold charWidth
    rw [if_neg (by omega), if_pos (by omega)]
  rw [decodeLossy_cons]
  unfold firstChar
  rw [hwidth]
  rfl

/-- The bytes that belong to the first character are continuation bytes. -/
theorem isContinuation_of_firstChar (b : UInt8) (rest : List UInt8) :
    ∀ x ∈ rest.take (firstChar b rest).2, isContinuation x = true := by
  have hsecond := @isContinuation_of_secondByteOk b.toNat
  -- Along the tests of the decoder; each byte that it takes has been tested.
  unfold firstChar
  split
  -- One byte alone takes no other one.
  · simp
  -- Of two bytes the second is tested, and of three and four the others are as well.
  · split
    · split_ifs with h1
      · simpa using h1
      · simp
    · simp
  · split
    · split_ifs with h1 h2
      · simpa using ⟨hsecond h1, h2⟩
      · simpa using hsecond h1
      · simp
    · split_ifs with h1
      · simpa using hsecond h1
      · simp
    · simp
  · split
    · split_ifs with h1 h2 h3
      · simpa using ⟨hsecond h1, h2, h3⟩
      · simpa using ⟨hsecond h1, h2⟩
      · simpa using hsecond h1
      · simp
    · split_ifs with h1 h2
      · simpa using ⟨hsecond h1, h2⟩
      · simpa using hsecond h1
      · simp
    · split_ifs with h1
      · simpa using hsecond h1
      · simp
    · simp
  · simp

/-- Continuation bytes in front are as many characters. -/
theorem length_decodeLossy_drop {n : Nat} {bytes : List UInt8}
    (h : ∀ x ∈ bytes.take n, isContinuation x = true) :
    (decodeLossy (bytes.drop n)).length ≤ (decodeLossy bytes).length := by
  induction n generalizing bytes with
  | zero => exact Nat.le_refl _
  | succ n ih =>
    cases bytes with
    | nil => exact Nat.le_refl _
    | cons b bytes =>
      rw [List.take_succ_cons] at h
      have hrest := ih fun x hx => h x (List.mem_cons_of_mem _ hx)
      rw [List.drop_succ_cons, decodeLossy_continuation (h b List.mem_cons_self), List.length_cons]
      omega

/-- One more byte in front is at most one more character. -/
theorem length_decodeLossy_cons_le (b : UInt8) (rest : List UInt8) :
    (decodeLossy (b :: rest)).length ≤ (decodeLossy rest).length + 1 := by
  have hdrop := length_decodeLossy_drop (isContinuation_of_firstChar b rest)
  rw [decodeLossy_cons, List.length_cons]
  omega

/-- A text whose first byte is ASCII begins with that character. -/
theorem eq_cons_of_encode {a : UInt8} (ha : a.toNat < 0x80) {t : Text} {rest : List UInt8}
    (h : encode t = a :: rest) : ∃ t', t = Char.ofNat a.toNat :: t' ∧ encode t' = rest := by
  have hbyte : encode [Char.ofNat a.toNat] = [a] := by
    rw [encode_ofNat_of_lt ha, UInt8.ofNat_toNat]
  have htext : t = Char.ofNat a.toNat :: decodeLossy rest := by
    rw [← decodeLossy_encode t, h, ← List.singleton_append, ← hbyte, decodeLossy_encode_append]
    rfl
  refine ⟨decodeLossy rest, htext, ?_⟩
  rw [encode_cons, encode_nil, List.append_nil] at hbyte
  rw [htext, encode_cons, hbyte] at h
  exact List.append_cancel_left h

/-! ### The order of texts -/

/-- The bytes of a text, as numbers. -/
def byteValues (t : Text) : List ℕ := (encode t).map UInt8.toNat

/-- The byte values of a first character, and of the rest. -/
theorem byteValues_cons (c : Char) (t : Text) :
    byteValues (c :: t) = (String.utf8EncodeChar c).map UInt8.toNat ++ byteValues t := by
  unfold byteValues
  rw [encode_cons, List.map_append]

/-- Of two texts with different first characters, the bytes are in the order of these. -/
theorem byteValues_cons_lt {c d : Char} (h : c < d) (s t : Text) :
    byteValues (c :: s) < byteValues (d :: t) := by
  have hcd : c.toNat < d.toNat := h
  have hd := toNat_valid d
  rw [byteValues_cons, byteValues_cons]
  rcases utf8EncodeChar_cases c with ⟨hc1, ec⟩ | ⟨hc1, hc2, ec⟩ | ⟨hc1, hc2, ec⟩ | ⟨hc1, ec⟩ <;>
  rcases utf8EncodeChar_cases d with ⟨hd1, ed⟩ | ⟨hd1, hd2, ed⟩ | ⟨hd1, hd2, ed⟩ | ⟨hd1, ed⟩ <;>
  · rw [ec, ed]
    simp only [List.map_cons, List.map_nil, List.cons_append, List.nil_append,
      List.cons_lt_cons_iff, UInt8.toNat_ofNat']
    simp (disch := omega) only [Nat.mod_eq_of_lt, Nat.add_lt_add_iff_right,
      Nat.add_right_cancel_iff]
    omega

/-- A common front does not change an order. -/
theorem append_lt_append_left_iff (front s t : List ℕ) : front ++ s < front ++ t ↔ s < t := by
  induction front with
  | nil => rfl
  | cons n front ih => rw [List.cons_append, List.cons_append, List.cons_lt_cons_self, ih]

/-- The bytes of texts are in the order of the texts. -/
theorem byteValues_lt_iff {s t : Text} : byteValues s < byteValues t ↔ s < t := by
  induction s generalizing t with
  | nil =>
    cases t with
    | nil => exact iff_of_false (lt_irrefl _) (lt_irrefl _)
    | cons d t =>
      refine iff_of_true ?_ (List.nil_lt_cons d t)
      rw [byteValues_cons]
      rcases utf8EncodeChar_cases d with ⟨-, ed⟩ | ⟨-, -, ed⟩ | ⟨-, -, ed⟩ | ⟨-, ed⟩ <;>
      · rw [ed]
        exact List.nil_lt_cons _ _
  | cons c s ih =>
    cases t with
    | nil => exact iff_of_false (List.not_lt_nil _) (List.not_lt_nil _)
    | cons d t =>
      rcases lt_trichotomy c d with hlt | rfl | hgt
      · exact iff_of_true (byteValues_cons_lt hlt s t) (List.cons_lt_cons_iff.mpr (Or.inl hlt))
      · rw [byteValues_cons, byteValues_cons, append_lt_append_left_iff, ih,
          List.cons_lt_cons_self]
      · refine iff_of_false (byteValues_cons_lt hgt t s).asymm fun h => ?_
        rcases List.cons_lt_cons_iff.mp h with h | ⟨rfl, -⟩
        · exact h.asymm hgt
        · exact lt_irrefl _ hgt

/-- Two texts with the same bytes are the same text. -/
theorem byteValues_inj {s t : Text} : byteValues s = byteValues t ↔ s = t := by
  refine ⟨fun h => ?_, congrArg byteValues⟩
  rcases lt_trichotomy s t with hlt | heq | hgt
  · exact absurd h (byteValues_lt_iff.mpr hlt).ne
  · exact heq
  · exact absurd h (byteValues_lt_iff.mpr hgt).ne'

end Utf8

/-- The size of a text is the number of its bytes. -/
theorem Text.utf8Len_eq_length_encode (text : Text) : utf8Len text = (Utf8.encode text).length := by
  induction text with
  | nil => rfl
  | cons c text ih =>
    rw [Utf8.encode_cons, List.length_append, String.length_utf8EncodeChar, ← ih]
    rfl
