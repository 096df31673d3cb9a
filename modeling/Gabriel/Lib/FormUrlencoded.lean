import Gabriel.Lib.Utf8

/-!
# `Gabriel.Lib.FormUrlencoded`: form-encoded name and value pairs

The `application/x-www-form-urlencoded` parser of the URL standard, on a text: the nonempty
pieces between `&`, each cut at its first `=`, with `+` read as a space and `%XX` as a byte, and
the bytes decoded as UTF-8 with replacement.

An encoder is correct when it is a left inverse of the component decoder and writes no separator
(`Encoder`). Most encoders write byte by byte, so the first condition is reduced to single bytes:
`WritesByte` are the ways in which a byte can be written. The theorems:

* `decodeBytes_flatMap`: decoding an encoding that is made byte by byte.
* `WritesByte.decodeBytes`: a written byte is read back, whatever follows.
* `decodeComponent_flatMap`: a text whose bytes are written in these ways is read back.
* `splitPair_writePair`: a written pair is cut at the `=` that was written.
* `Encoder.parse_serialize`: a correct encoder's output parses back to the pairs.
-/

set_option autoImplicit false

namespace FormUrlencoded

open Text

/-- The value of a hexadecimal digit. -/
def hexDigit (b : UInt8) : Option Nat :=
  let n := b.toNat
  if 0x30 ≤ n ∧ n ≤ 0x39 then some (n - 0x30)
  else if 0x41 ≤ n ∧ n ≤ 0x46 then some (n - 0x41 + 10)
  else if 0x61 ≤ n ∧ n ≤ 0x66 then some (n - 0x61 + 10)
  else none

/-- The bytes of a component: `+` is a space, and `%` with two digits after it is a byte. -/
def decodeBytes : List UInt8 → List UInt8
  | [] => []
  | 0x25 :: a :: b :: rest =>
    match hexDigit a, hexDigit b with
    | some hi, some lo => UInt8.ofNat (hi * 16 + lo) :: decodeBytes rest
    | _, _ => 0x25 :: decodeBytes (a :: b :: rest)
  | byte :: rest => (if byte = 0x2B then 0x20 else byte) :: decodeBytes rest

/-- Decode a name or a value. -/
def decodeComponent (t : Text) : Text := Utf8.decodeLossy (decodeBytes (Utf8.encode t))

/-- Cut a piece at its first `=`; without one the value is empty. -/
def splitPair (piece : Text) : Text × Text := (splitOnce ['='] piece).getD (piece, [])

/-- The nonempty pieces between the `&`. -/
def pieces (t : Text) : List Text := (t.splitOn '&').filter (· ≠ [])

/-- Decode a piece. -/
def decodePiece (piece : Text) : Text × Text :=
  (decodeComponent (splitPair piece).1, decodeComponent (splitPair piece).2)

/-- The pairs of a form-encoded text. -/
def parse (t : Text) : List (Text × Text) := (pieces t).map decodePiece

/-- Write one pair. -/
def writePair (encode : Text → Text) (pair : Text × Text) : Text :=
  encode pair.1 ++ '=' :: encode pair.2

/-- Write the pairs, with `&` between them. -/
def serialize (encode : Text → Text) (pairs : List (Text × Text)) : Text :=
  List.intercalate ['&'] (pairs.map (writePair encode))

/-- A component encoder: the decoder reads its output back, and it writes no separator. -/
structure Encoder (encode : Text → Text) : Prop where
  decode : ∀ t, decodeComponent (encode t) = t
  separators : ∀ t c, c ∈ encode t → c ≠ '&' ∧ c ≠ '='

/-- A byte that starts no escape is read alone. -/
theorem decodeBytes_cons_of_ne {byte : UInt8} (h : byte ≠ 0x25) (rest : List UInt8) :
    decodeBytes (byte :: rest) = (if byte = 0x2B then 0x20 else byte) :: decodeBytes rest := by
  match rest with
  | [] => simp [decodeBytes]
  | [_] => simp [decodeBytes]
  | _ :: _ :: _ =>
    rw [decodeBytes]
    intro a b rest' hb
    exact absurd hb h

/-- A valid escape is one byte. -/
theorem decodeBytes_escape {a b : UInt8} {hi lo : Nat} (ha : hexDigit a = some hi)
    (hb : hexDigit b = some lo) (rest : List UInt8) :
    decodeBytes (0x25 :: a :: b :: rest) = UInt8.ofNat (hi * 16 + lo) :: decodeBytes rest := by
  rw [decodeBytes, ha, hb]

/-- Decoding an encoding made byte by byte, when each byte is read back in front of any rest. -/
theorem decodeBytes_flatMap {enc : UInt8 → List UInt8}
    (h : ∀ b rest, decodeBytes (enc b ++ rest) = b :: decodeBytes rest) (bytes : List UInt8) :
    decodeBytes (bytes.flatMap enc) = bytes := by
  induction bytes with
  | nil => rfl
  | cons b bytes ih => rw [List.flatMap_cons, h, ih]

/-- The ways to write a byte: as it is, a space as `+`, or as an escape of two digits. -/
inductive WritesByte (b : UInt8) (t : Text) : Prop where
  | plain (hascii : b.toNat < 0x80) (hpercent : b ≠ 0x25) (hplus : b ≠ 0x2B)
      (h : Utf8.encode t = [b])
  | space (hb : b = 0x20) (h : Utf8.encode t = [0x2B])
  | escape {x y : UInt8} (hx : hexDigit x = some (b.toNat / 16))
      (hy : hexDigit y = some (b.toNat % 16)) (h : Utf8.encode t = [0x25, x, y])

/-- A written byte is read back, whatever follows. -/
theorem WritesByte.decodeBytes {b : UInt8} {t : Text} (h : WritesByte b t) (rest : List UInt8) :
    decodeBytes (Utf8.encode t ++ rest) = b :: decodeBytes rest := by
  cases h with
  | plain hascii hpercent hplus h =>
    rw [h, List.singleton_append, decodeBytes_cons_of_ne hpercent, if_neg hplus]
  | space hb h =>
    have hplus : (0x2B : UInt8) ≠ 0x25 := by decide
    rw [h, hb]
    exact decodeBytes_cons_of_ne hplus rest
  | @escape x y hx hy h =>
    have hsum : b.toNat / 16 * 16 + b.toNat % 16 = b.toNat := by omega
    rw [h]
    show FormUrlencoded.decodeBytes (0x25 :: x :: y :: rest) = _
    rw [decodeBytes_escape hx hy, hsum, UInt8.ofNat_toNat]

/-- The bytes of a text that is written byte by byte. -/
theorem encode_flatMap (enc : UInt8 → Text) (bytes : List UInt8) :
    Utf8.encode (bytes.flatMap enc) = bytes.flatMap fun b => Utf8.encode (enc b) := by
  induction bytes with
  | nil => rfl
  | cons b bytes ih => rw [List.flatMap_cons, Utf8.encode_append, ih, List.flatMap_cons]

/-- A text whose bytes are written in these ways is read back. -/
theorem decodeComponent_flatMap {enc : UInt8 → Text} (h : ∀ b, WritesByte b (enc b)) (t : Text) :
    decodeComponent ((Utf8.encode t).flatMap enc) = t := by
  rw [decodeComponent, encode_flatMap, decodeBytes_flatMap fun b => (h b).decodeBytes,
    Utf8.decodeLossy_encode]

section Serialize

variable {encode : Text → Text}

/-- A written pair is cut at the `=` that was written. -/
theorem splitPair_writePair (henc : Encoder encode) (pair : Text × Text) :
    splitPair (writePair encode pair) = (encode pair.1, encode pair.2) := by
  have hcut : splitOnce ['='] (writePair encode pair) = some (encode pair.1, encode pair.2) := by
    rw [splitOnce_singleton_iff]
    exact ⟨rfl, fun hmem => (henc.separators _ _ hmem).2 rfl⟩
  rw [splitPair, hcut]
  rfl

/-- A written pair holds no `&` and is not empty. -/
theorem writePair_piece (henc : Encoder encode) (pair : Text × Text) :
    '&' ∉ writePair encode pair ∧ writePair encode pair ≠ [] := by
  constructor
  · intro hmem
    rcases List.mem_append.mp hmem with h | h
    · exact (henc.separators _ _ h).1 rfl
    · rcases List.mem_cons.mp h with h | h
      · exact absurd h (by decide)
      · exact (henc.separators _ _ h).1 rfl
  · simp [writePair]

/-- A correct encoder's output parses back to the pairs. -/
theorem Encoder.parse_serialize (henc : Encoder encode) (pairs : List (Text × Text)) :
    parse (serialize encode pairs) = pairs := by
  have hpieces : pieces (serialize encode pairs) = pairs.map (writePair encode) := by
    cases pairs with
    | nil => rfl
    | cons pair pairs =>
      have hsplit : (serialize encode (pair :: pairs)).splitOn '&'
          = (pair :: pairs).map (writePair encode) := by
        refine List.splitOn_intercalate _ ?_ (by simp)
        intro l hl
        obtain ⟨p, -, rfl⟩ := List.mem_map.mp hl
        exact (writePair_piece henc p).1
      rw [pieces, hsplit, List.filter_eq_self]
      intro l hl
      obtain ⟨p, -, rfl⟩ := List.mem_map.mp hl
      simpa using (writePair_piece henc p).2
  rw [parse, hpieces, List.map_map]
  have hback : ∀ pair, (decodePiece ∘ writePair encode) pair = pair := by
    intro pair
    show decodePiece (writePair encode pair) = pair
    rw [decodePiece, splitPair_writePair henc, henc.decode, henc.decode]
  rw [List.map_congr_left fun pair _ => hback pair, List.map_id']

end Serialize

end FormUrlencoded
