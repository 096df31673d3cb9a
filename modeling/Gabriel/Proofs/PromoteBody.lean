import Gabriel.Engine.Body
import Gabriel.Proofs.PercentDecode
import Gabriel.Proofs.Promote
import Gabriel.Proofs.Vars

/-!
# `Gabriel.Proofs.PromoteBody`: does a promoted request send the captured body?

`preservesBody_iff` says exactly when building the body of a promoted request gives the captured
body back, for every resolver: the bytes, or for a form the decoded pairs in order.

A text body is kept when it holds no `{{`. A form goes through the decoder of promotion, a
sorted map and the encoder of the engine. It is kept when the decoders agree on its pieces, its
names are strictly increasing and none of the decoded texts holds a `{{`. A body that is not
text is dropped, so it is kept when it is empty.

The other direction needs one resolver that breaks a bad body. A bare one will do: it can only
generate values, so each reference costs two braces, and the number of braces in a form is the
same for both decoders. With the braces settled, the total length shows the decoders agree.
The theorems:

* `urlencode_encoder`: the engine's encoder is a correct form encoder.
* `mapM_decodePair_eq`, `mapM_decodePair_measures`: the decoder of promotion next to the standard.
* `encodeFields_clean`, `encodeFields_bare`: what resolvers make of form fields.
* `preservesBody_iff`: for every captured body and every resolver.
-/

set_option autoImplicit false

namespace Gabriel.Engine

open Gabriel.Core Text Fallible FormUrlencoded

/-! ### The form encoder of the engine -/

/-- A byte is the byte of its number. -/
theorem ofNat_toNat_byte (b : UInt8) : UInt8.ofNat b.toNat = b := UInt8.ofNat_toNat

/-- An upper-case hexadecimal digit is ASCII, is no separator, and is read back. -/
theorem hexUpper_spec {n : Nat} (h : n < 16) :
    Utf8.encode [hexUpper n] = [UInt8.ofNat (hexUpper n).toNat] ∧
      hexDigit (UInt8.ofNat (hexUpper n).toNat) = some n ∧
      hexUpper n ≠ '&' ∧ hexUpper n ≠ '=' ∧ hexUpper n ≠ '#' := by
  have hall : ∀ m, m < 16 → Utf8.encode [hexUpper m] = [UInt8.ofNat (hexUpper m).toNat] ∧
      hexDigit (UInt8.ofNat (hexUpper m).toNat) = some m ∧
      hexUpper m ≠ '&' ∧ hexUpper m ≠ '=' ∧ hexUpper m ≠ '#' := by decide
  exact hall n h

/-- A byte that is written as it is. -/
theorem isUnreserved_spec {b : UInt8} (h : isUnreserved b = true) :
    b.toNat < 0x80 ∧ b.toNat ≠ 0x25 ∧ b.toNat ≠ 0x2B ∧ b.toNat ≠ 0x26 ∧ b.toNat ≠ 0x3D ∧
      b.toNat ≠ 0x23 := by
  have h2D : (0x2D : UInt8).toNat = 0x2D := rfl
  have h5F : (0x5F : UInt8).toNat = 0x5F := rfl
  have h2E : (0x2E : UInt8).toNat = 0x2E := rfl
  have h7E : (0x7E : UInt8).toNat = 0x7E := rfl
  simp only [isUnreserved, Bool.or_eq_true, Bool.and_eq_true, decide_eq_true_eq, beq_iff_eq,
    ← UInt8.toNat_inj] at h
  omega

/-- An escape is one of two digits. -/
theorem encode_escape (b : UInt8) : ∃ x y,
    hexDigit x = some (b.toNat / 16) ∧ hexDigit y = some (b.toNat % 16) ∧
      Utf8.encode ['%', hexUpper (b.toNat / 16), hexUpper (b.toNat % 16)] = [0x25, x, y] := by
  have hlt : b.toNat < 256 := b.toNat_lt_size
  obtain ⟨hhi, hhidigit, -⟩ := hexUpper_spec (show b.toNat / 16 < 16 by omega)
  obtain ⟨hlo, hlodigit, -⟩ := hexUpper_spec (show b.toNat % 16 < 16 by omega)
  refine ⟨_, _, hhidigit, hlodigit, ?_⟩
  show Utf8.encode (['%'] ++ ([hexUpper (b.toNat / 16)] ++ [hexUpper (b.toNat % 16)])) = _
  rw [Utf8.encode_append, Utf8.encode_append, hhi, hlo]
  rfl

/-- A byte that is written as it is. -/
theorem encode_unreserved {b : UInt8} (h : isUnreserved b = true) :
    b ≠ 0x25 ∧ b ≠ 0x2B ∧ b.toNat < 0x80 ∧ Utf8.encode [Char.ofNat b.toNat] = [b] := by
  obtain ⟨hascii, hpercent, hplus, -⟩ := isUnreserved_spec h
  have hne : ∀ c : UInt8, b.toNat ≠ c.toNat → b ≠ c := fun c hc hb => hc (by rw [hb])
  exact ⟨hne 0x25 hpercent, hne 0x2B hplus, hascii,
    by rw [Utf8.encode_ofNat_of_lt hascii, ofNat_toNat_byte]⟩

/-- The form encoder writes a byte in one of the three ways. -/
theorem writesByte_urlencodeByte (b : UInt8) : WritesByte b (urlencodeByte b) := by
  unfold urlencodeByte
  split
  · rename_i hfree
    obtain ⟨hpercent, hplus, hascii, hbytes⟩ := encode_unreserved hfree
    exact .plain hascii hpercent hplus hbytes
  · split
    · rename_i hspace
      exact .space hspace rfl
    · obtain ⟨x, y, hx, hy, hbytes⟩ := encode_escape b
      exact .escape hx hy hbytes

/-- A character of an encoded byte is no separator, and starts no fragment. -/
theorem separators_urlencodeByte {b : UInt8} {c : Char} (hc : c ∈ urlencodeByte b) :
    c ≠ '&' ∧ c ≠ '=' ∧ c ≠ '#' := by
  unfold urlencodeByte at hc
  -- The byte stands for itself, is the blank written as `+`, or becomes `%` and two hexadecimal
  -- digits.
  split at hc
  · rename_i hfree
    obtain ⟨hascii, -, -, hamp, heq, hhash⟩ := isUnreserved_spec hfree
    obtain rfl := List.mem_singleton.mp hc
    have hnat := Utf8.toNat_ofNat_of_lt hascii
    refine ⟨?_, ?_, ?_⟩
    · intro h
      rw [h] at hnat
      exact hamp hnat.symm
    · intro h
      rw [h] at hnat
      exact heq hnat.symm
    · intro h
      rw [h] at hnat
      exact hhash hnat.symm
  · split at hc
    · obtain rfl := List.mem_singleton.mp hc
      decide
    · have hlt : b.toNat < 256 := b.toNat_lt_size
      obtain ⟨-, -, hhi⟩ := hexUpper_spec (show b.toNat / 16 < 16 by omega)
      obtain ⟨-, -, hlo⟩ := hexUpper_spec (show b.toNat % 16 < 16 by omega)
      simp only [List.mem_cons, List.not_mem_nil, or_false] at hc
      rcases hc with rfl | rfl | rfl
      · decide
      · exact hhi
      · exact hlo

/-- The engine's encoder is a correct form encoder. -/
theorem urlencode_encoder : Encoder urlencode where
  decode := decodeComponent_flatMap writesByte_urlencodeByte
  separators := by
    intro t c hc
    obtain ⟨b, -, hb⟩ := List.mem_flatMap.mp hc
    obtain ⟨hamp, heq, -⟩ := separators_urlencodeByte hb
    exact ⟨hamp, heq⟩

/-! ### Decoding the pieces of a form -/

/-- A test of the bytes of both sides of a piece. -/
def pieceHolds (p : List UInt8 → Bool) (piece : Text) : Bool :=
  everyEscape p (Utf8.encode (splitPair piece).1) && everyEscape p (Utf8.encode (splitPair piece).2)

/-- The lengths of the name and the value. -/
def pairLength (pair : Text × Text) : Nat := pair.1.length + pair.2.length

/-- How often a character stands in the name and the value. -/
def pairCount (c : Char) (pair : Text × Text) : Nat := pair.1.count c + pair.2.count c

/-- Decoding a piece decodes both of its sides. -/
theorem decodePair_eq_some_iff {piece k v : Text} :
    decodePair piece = some (k, v) ↔
      percentDecode (splitPair piece).1 = some k ∧ percentDecode (splitPair piece).2 = some v := by
  show (do
    let key ← percentDecode (splitPair piece).1
    let value ← percentDecode (splitPair piece).2
    some (key, value)) = some (k, v) ↔ _
  simp only [Option.bind_eq_bind, Option.bind_eq_some_iff, Option.some.injEq, Prod.mk.injEq]
  constructor
  · rintro ⟨key, hk, value, hv, rfl, rfl⟩
    exact ⟨hk, hv⟩
  · rintro ⟨hk, hv⟩
    exact ⟨k, hk, v, hv, rfl, rfl⟩

/-- Decoding the pieces succeeds exactly when every escape of every piece is cut well. -/
theorem isSome_mapM_decodePair (pieces : List Text) :
    (pieces.mapM decodePair).isSome = pieces.all (pieceHolds onBoundary) := by
  have hone : ∀ piece, (decodePair piece).isSome = pieceHolds onBoundary piece := by
    intro piece
    rw [pieceHolds, ← isSome_percentDecode, ← isSome_percentDecode, Bool.eq_iff_iff,
      Bool.and_eq_true, Option.isSome_iff_exists, Option.isSome_iff_exists,
      Option.isSome_iff_exists]
    constructor
    · rintro ⟨⟨k, v⟩, h⟩
      obtain ⟨hk, hv⟩ := decodePair_eq_some_iff.mp h
      exact ⟨⟨k, hk⟩, v, hv⟩
    · rintro ⟨⟨k, hk⟩, v, hv⟩
      exact ⟨(k, v), decodePair_eq_some_iff.mpr ⟨hk, hv⟩⟩
  rw [Fallible.isSome_mapM, funext hone]

/-- A decoded component, measured against the standard decoder. -/
theorem percentDecode_measures {t out : Text} (h : percentDecode t = some out) :
    out.length ≤ (decodeComponent t).length ∧
      (out.length = (decodeComponent t).length →
        everyEscape unsigned (Utf8.encode t) = true) ∧
      ∀ c ∈ markChars, out.count c = (decodeComponent t).count c := by
  obtain ⟨bytes, hbytes, rfl⟩ := Option.map_eq_some_iff.mp h
  have hm := decodedMeasures hbytes []
  exact ⟨hm.length_le, hm.unsigned, hm.count⟩

/-- Without signed escapes the pieces decode as the standard says. -/
theorem mapM_decodePair_eq {pieces : List Text} {pairs : List (Text × Text)}
    (h : pieces.mapM decodePair = some pairs)
    (hsign : pieces.all (pieceHolds unsigned) = true) : pairs = pieces.map decodePiece := by
  induction pieces generalizing pairs with
  | nil => simpa using h.symm
  | cons piece pieces ih =>
    simp only [List.mapM_cons, Option.pure_def, Option.bind_eq_bind, Option.bind_eq_some_iff,
      Option.some.injEq] at h
    obtain ⟨⟨k, v⟩, hpair, rest, hrest, rfl⟩ := h
    rw [List.all_cons, Bool.and_eq_true, pieceHolds, Bool.and_eq_true] at hsign
    obtain ⟨hk, hv⟩ := decodePair_eq_some_iff.mp hpair
    obtain ⟨kbytes, hkb, rfl⟩ := Option.map_eq_some_iff.mp hk
    obtain ⟨vbytes, hvb, rfl⟩ := Option.map_eq_some_iff.mp hv
    rw [List.map_cons, ih hrest hsign.2, percentDecodeBytes_eq hkb hsign.1.1,
      percentDecodeBytes_eq hvb hsign.1.2]
    rfl

/-- The decoded pairs have the standard's braces and slashes, are no longer than the standard's
in total, and are as long only without signed escapes. -/
theorem mapM_decodePair_measures {pieces : List Text} {pairs : List (Text × Text)}
    (h : pieces.mapM decodePair = some pairs) :
    (pairs.map pairLength).sum ≤ ((pieces.map decodePiece).map pairLength).sum ∧
      ((pairs.map pairLength).sum = ((pieces.map decodePiece).map pairLength).sum →
        pieces.all (pieceHolds unsigned) = true) ∧
      ∀ c ∈ markChars,
        (pairs.map (pairCount c)).sum = ((pieces.map decodePiece).map (pairCount c)).sum := by
  -- By induction on the pieces; each of the three measures adds up over them.
  induction pieces generalizing pairs with
  | nil =>
    obtain rfl : [] = pairs := by simpa using h
    exact ⟨Nat.le_refl _, fun _ => rfl, fun _ _ => rfl⟩
  | cons piece pieces ih =>
    simp only [List.mapM_cons, Option.pure_def, Option.bind_eq_bind, Option.bind_eq_some_iff,
      Option.some.injEq] at h
    obtain ⟨⟨k, v⟩, hpair, rest, hrest, rfl⟩ := h
    obtain ⟨hk, hv⟩ := decodePair_eq_some_iff.mp hpair
    obtain ⟨hkle, hkeq, hkb⟩ := percentDecode_measures hk
    obtain ⟨hvle, hveq, hvb⟩ := percentDecode_measures hv
    obtain ⟨hle, heq, hcount⟩ := ih hrest
    -- All three are sums, so that equal sums force equal terms, as each term is no larger.
    simp only [List.map_cons, List.sum_cons, pairLength, pairCount, decodePiece] at *
    refine ⟨by omega, ?_, ?_⟩
    · intro hsum
      rw [List.all_cons, Bool.and_eq_true, pieceHolds, Bool.and_eq_true]
      exact ⟨⟨hkeq (by omega), hveq (by omega)⟩, heq (by omega)⟩
    · intro c hc
      rw [hkb c hc, hvb c hc, hcount c hc]

/-- The pieces of the query of a URL. -/
def queryPieces (url : Text) : List Text :=
  match splitOnce ['?'] url with
  | none => []
  | some (_, rest) => pieces (splitFragment rest).1

/-- Splitting the query off panics exactly at a badly cut escape in one of its pieces. -/
theorem isSome_splitQuery (url : Text) :
    (splitQuery url).isSome = (queryPieces url).all (pieceHolds onBoundary) := by
  unfold splitQuery queryPieces
  cases splitOnce ['?'] url with
  | none => rfl
  | some cut =>
    rw [← isSome_mapM_decodePair]
    exact Option.isSome_map

/-! ### Building the body -/

/-- A pair without a template. -/
def PairClean (pair : Text × Text) : Prop :=
  ¬ Resolver.opening <:+: pair.1 ∧ ¬ Resolver.opening <:+: pair.2

instance (pair : Text × Text) : Decidable (PairClean pair) := by
  unfold PairClean
  infer_instance

/-- Append a pair to an encoded form. -/
def appendPair (encoded : Text) (pair : Text × Text) : Text :=
  (if encoded = [] then [] else encoded ++ ['&']) ++ writePair urlencode pair

/-- A resolver call inside the engine succeeds when the call does. -/
theorem exec_liftCore_eq_ok {α : Type} {m : ResolverM α} {r r' : Resolver} {a : α} :
    exec (liftCore m) r = (.ok a, r') ↔ exec m r = (.ok a, r') := by
  unfold liftCore
  rw [exec_adapt]
  rcases exec m r with ⟨q, s⟩
  cases q <;> simp [Except.mapError]

section Build

variable {world : World}

/-- A bare resolver keeps the braces of a text only when there is no reference. -/
theorem resolve_bare_measure {t t' : Text} {r r' : Resolver} (hr : r.Bare)
    (h : exec (Resolver.resolve world t) r = (.ok t', r')) :
    t'.count '{' ≤ t.count '{' ∧
      (t'.count '{' = t.count '{' → ¬ Resolver.opening <:+: t ∧ t' = t) := by
  by_cases hdirty : Resolver.opening <:+: t
  · have hlt := Resolver.count_resolve_bare_lt hr h hdirty
    exact ⟨by omega, fun heq => by omega⟩
  · rw [Resolver.resolve_clean hdirty] at h
    obtain rfl : t = t' := by simpa using congrArg Prod.fst h
    exact ⟨Nat.le_refl _, fun _ => ⟨hdirty, rfl⟩⟩

/-- A field that was encoded had its name and its value resolved. -/
theorem encodeField_ok {encoded encoded' : Text} {field : Text × Text} {r r' : Resolver}
    (h : exec (encodeField world encoded field) r = (.ok encoded', r')) :
    ∃ k v s, exec (Resolver.resolve world field.1) r = (.ok k, s) ∧
      exec (Resolver.resolve world field.2) s = (.ok v, r') ∧
      encoded' = appendPair encoded (k, v) := by
  obtain ⟨k, s, hk, hrest⟩ := exec_bind_eq_ok.mp h
  obtain ⟨v, s', hv, hdone⟩ := exec_bind_eq_ok.mp hrest
  rw [exec_pure, Prod.mk.injEq, Except.ok.injEq] at hdone
  obtain ⟨rfl, rfl⟩ := hdone
  refine ⟨k, v, s, exec_liftCore_eq_ok.mp hk, exec_liftCore_eq_ok.mp hv, ?_⟩
  rw [appendPair, writePair, List.append_assoc]

/-- Clean fields are encoded as they are, by every resolver. -/
theorem encodeFields_clean {fields : List (Text × Text)} (h : ∀ f ∈ fields, PairClean f)
    (encoded : Text) (r : Resolver) :
    exec (fields.foldlM (encodeField world) encoded) r
      = (.ok (fields.foldl appendPair encoded), r) := by
  induction fields generalizing encoded with
  | nil => rfl
  | cons field fields ih =>
    obtain ⟨hk, hv⟩ := h field List.mem_cons_self
    have hfield : exec (encodeField world encoded field) r
        = (.ok (appendPair encoded field), r) := by
      unfold encodeField
      rw [exec_bind_ok (exec_liftCore_eq_ok.mpr (Resolver.resolve_clean hk r)),
        exec_bind_ok (exec_liftCore_eq_ok.mpr (Resolver.resolve_clean hv r)), exec_pure,
        appendPair, writePair, List.append_assoc]
    rw [List.foldlM_cons, exec_bind_ok hfield, List.foldl_cons]
    exact ih (fun f hf => h f (List.mem_cons_of_mem _ hf)) _

/-- What a bare resolver makes of form fields has no more braces than the fields, and as many
only when the fields are clean and were encoded as they are. -/
theorem encodeFields_bare {fields : List (Text × Text)} {encoded encoded' : Text}
    {r r' : Resolver} (hr : r.Bare)
    (h : exec (fields.foldlM (encodeField world) encoded) r = (.ok encoded', r')) :
    ∃ pairs : List (Text × Text), encoded' = pairs.foldl appendPair encoded ∧
      (pairs.map (pairCount '{')).sum ≤ (fields.map (pairCount '{')).sum ∧
      ((pairs.map (pairCount '{')).sum = (fields.map (pairCount '{')).sum →
        pairs = fields ∧ ∀ f ∈ fields, PairClean f) := by
  induction fields generalizing encoded r with
  | nil =>
    rw [List.foldlM_nil, exec_pure, Prod.mk.injEq, Except.ok.injEq] at h
    exact ⟨[], h.1.symm, Nat.le_refl _, fun _ => ⟨rfl, by simp⟩⟩
  | cons field fields ih =>
    rw [List.foldlM_cons] at h
    -- Key and value are resolved one after the other, and neither changes what the resolver knows.
    obtain ⟨enc, s', hfield, hrest⟩ := exec_bind_eq_ok.mp h
    obtain ⟨k, v, s, hk, hv, rfl⟩ := encodeField_ok hfield
    have hs : s.Bare := hr.of_sameSetup (by
      have hkeep : r.SameSetup (exec (Resolver.resolve world field.1) r).2 :=
        Resolver.keeps_resolve field.1 r
      rwa [hk] at hkeep)
    have hs' : s'.Bare := hs.of_sameSetup (by
      have hkeep : s.SameSetup (exec (Resolver.resolve world field.2) s).2 :=
        Resolver.keeps_resolve field.2 s
      rwa [hv] at hkeep)
    obtain ⟨pairs, henc, hle, heq⟩ := ih hs' hrest
    obtain ⟨hkle, hkeq⟩ := resolve_bare_measure hr hk
    obtain ⟨hvle, hveq⟩ := resolve_bare_measure hs hv
    refine ⟨(k, v) :: pairs, henc, ?_, ?_⟩
    · simp only [List.map_cons, List.sum_cons, pairCount]
      omega
    · intro hsum
      -- Equal sums again force the equality of each part, and with it that the part is clean.
      simp only [List.map_cons, List.sum_cons, pairCount] at hsum
      obtain ⟨hkclean, rfl⟩ := hkeq (by omega)
      obtain ⟨hvclean, rfl⟩ := hveq (by omega)
      obtain ⟨rfl, hclean⟩ := heq (by omega)
      refine ⟨rfl, ?_⟩
      intro f hf
      rcases List.mem_cons.mp hf with rfl | hf
      · exact ⟨hkclean, hvclean⟩
      · exact hclean f hf

/-- Appending the pairs one by one writes the form. -/
theorem foldl_appendPair (pairs : List (Text × Text)) :
    pairs.foldl appendPair [] = serialize urlencode pairs := by
  -- A written pair is never empty, so that from the second one on there is an `&` in front.
  have hne : ∀ pair, writePair urlencode pair ≠ [] := fun pair => by simp [writePair]
  have hgen : ∀ (ps : List (Text × Text)) (encoded : Text), encoded ≠ [] →
      ps.foldl appendPair encoded
        = List.intercalate ['&'] (encoded :: ps.map (writePair urlencode)) := by
    intro ps
    induction ps with
    | nil =>
      intro encoded _
      simp [List.intercalate_singleton]
    | cons pair ps ih =>
      intro encoded henc
      have hstep : appendPair encoded pair = encoded ++ ['&'] ++ writePair urlencode pair := by
        rw [appendPair, if_neg henc]
      rw [List.foldl_cons, hstep, ih _ (by simp), List.map_cons, List.intercalate_cons_cons]
      cases ps with
      | nil => simp [List.intercalate_singleton]
      | cons p ps => simp [List.intercalate_cons_cons]
  cases pairs with
  | nil => rfl
  | cons pair pairs =>
    have hstart : appendPair [] pair = writePair urlencode pair := by
      rw [appendPair, if_pos rfl, List.nil_append]
    rw [List.foldl_cons, hstart, hgen pairs _ (hne pair)]
    rfl

end Build

/-- A body of plain text is its resolved content. -/
theorem buildBody_plain (platform : Platform) (baseDir : Text) {content : Text}
    {spec : RequestSpec}
    (h : spec.body = some (.json content) ∨
      ∃ contentType, spec.body = some (.text content contentType)) :
    ∃ contentType, buildBody platform baseDir spec
      = (liftCore (Resolver.resolve platform.world content) >>= fun t =>
          pure (some ⟨Utf8.encode t, contentType⟩)) := by
  rcases h with h | ⟨contentType, h⟩
  · exact ⟨_, by simp only [buildBody, h]; rfl⟩
  · exact ⟨_, by simp only [buildBody, h]; rfl⟩

/-- A form body is its encoded fields. -/
theorem buildBody_form (platform : Platform) (baseDir : Text) {fields : SortedMap Text Text}
    {spec : RequestSpec} (h : spec.body = some (.form fields)) :
    ∃ contentType, buildBody platform baseDir spec
      = (fields.entries.foldlM (encodeField platform.world) [] >>= fun t =>
          pure (some ⟨Utf8.encode t, contentType⟩)) :=
  ⟨_, by simp only [buildBody, h]; rfl⟩

/-! ### The captured body and the promoted one -/

/-- Whether promotion reads a text body of this content type as a form. -/
def isFormType (contentType : Text) : Bool :=
  ¬ "json".toList <:+: asciiLower contentType ∧
    "x-www-form-urlencoded".toList <:+: asciiLower contentType

/-- The body that was sent carries the captured one: the same pairs for a form, the same bytes
for every other body. -/
def BodyCarried (b64Decode : Text → Option (List UInt8)) (contentType : Text) :
    CapturedBody → List UInt8 → Prop
  | .base64 data, bytes => bytes = CapturedBody.bytes b64Decode (.base64 data)
  | .text content, bytes =>
    if isFormType contentType then
      ∃ encoded, bytes = Utf8.encode encoded ∧ parse encoded = parse content
    else bytes = Utf8.encode content

/-- The capture is promoted, and every resolver builds the captured body from the promoted
request. -/
def PreservesBody (upper : Text → Text) (nowMs : UInt64) (opts : PromoteOptions)
    (b64Decode : Text → Option (List UInt8)) (capture : Capture) (body : CapturedBody) : Prop :=
  ∃ promotion, capture.promote upper nowMs opts = some promotion ∧
    ∀ (platform : Platform) (baseDir : Text) (r : Resolver), ∃ prepared r',
      exec (buildBody platform baseDir promotion.spec) r = (.ok (some prepared), r') ∧
        BodyCarried b64Decode capture.contentType body prepared.bytes

/-- A form survives the decoder, the sorted map and the encoder: no escape is cut inside a
character or has a sign, the names are strictly increasing, and nothing is a template. -/
def FormKept (content : Text) : Prop :=
  (pieces content).all (pieceHolds onBoundary) = true ∧
    (pieces content).all (pieceHolds unsigned) = true ∧
    (parse content).Pairwise (fun a b => a.1 < b.1) ∧ ∀ pair ∈ parse content, PairClean pair

/-- The condition on the captured body. -/
def BodyKept (b64Decode : Text → Option (List UInt8)) (contentType : Text) :
    CapturedBody → Prop
  | .base64 data => CapturedBody.bytes b64Decode (.base64 data) = []
  | .text content =>
    if isFormType contentType then FormKept content else ¬ Resolver.opening <:+: content

/-- A resolver builds the same bytes from a text body exactly when it holds no template. -/
theorem carried_text_iff {content : Text} {spec : RequestSpec}
    (h : spec.body = some (.json content) ∨
      ∃ contentType, spec.body = some (.text content contentType)) :
    (∀ (platform : Platform) (baseDir : Text) (r : Resolver), ∃ prepared r',
      exec (buildBody platform baseDir spec) r = (.ok (some prepared), r') ∧
        prepared.bytes = Utf8.encode content) ↔ ¬ Resolver.opening <:+: content := by
  constructor
  · intro hall hdirty
    obtain ⟨prepared, r', hbuild, hbytes⟩ := hall emptyPlatform [] Resolver.new
    obtain ⟨contentType, hplain⟩ := buildBody_plain emptyPlatform [] h
    rw [hplain, exec_bind_pure_eq_ok] at hbuild
    obtain ⟨t, ht, hprepared⟩ := hbuild
    obtain rfl := Option.some.inj hprepared
    have hlt := Resolver.count_resolve_bare_lt Resolver.bare_new (exec_liftCore_eq_ok.mp ht) hdirty
    rw [Utf8.encode_injective hbytes] at hlt
    exact absurd hlt (lt_irrefl _)
  · intro hclean platform baseDir r
    obtain ⟨contentType, hplain⟩ := buildBody_plain platform baseDir h
    refine ⟨⟨Utf8.encode content, contentType⟩, r, ?_, rfl⟩
    rw [hplain, exec_bind_pure_eq_ok]
    exact ⟨content, exec_liftCore_eq_ok.mpr (Resolver.resolve_clean hclean r), rfl⟩

/-- A resolver builds the captured pairs from the decoded fields exactly when the decoders
agree, the names increase and nothing is a template. -/
theorem carried_form_iff {content : Text} {pairs : List (Text × Text)} {spec : RequestSpec}
    (hpairs : (pieces content).mapM decodePair = some pairs)
    (h : spec.body = some (.form (SortedMap.ofList pairs))) :
    (∀ (platform : Platform) (baseDir : Text) (r : Resolver), ∃ prepared r',
      exec (buildBody platform baseDir spec) r = (.ok (some prepared), r') ∧
        ∃ encoded, prepared.bytes = Utf8.encode encoded ∧ parse encoded = parse content) ↔
    (pieces content).all (pieceHolds unsigned) = true ∧
      (parse content).Pairwise (fun a b => a.1 < b.1) ∧
      ∀ pair ∈ parse content, PairClean pair := by
  constructor
  · intro hall
    obtain ⟨prepared, r', hbuild, encoded, hbytes, hparse⟩ := hall emptyPlatform [] Resolver.new
    obtain ⟨contentType, hform⟩ := buildBody_form emptyPlatform [] h
    rw [hform, exec_bind_pure_eq_ok] at hbuild
    obtain ⟨t, ht, hprepared⟩ := hbuild
    obtain rfl := Option.some.inj hprepared
    obtain rfl := Utf8.encode_injective hbytes
    obtain ⟨sent, henc, hbraces, heq⟩ := encodeFields_bare Resolver.bare_new ht
    rw [henc, foldl_appendPair, urlencode_encoder.parse_serialize] at hparse
    obtain ⟨hlen, hlenEq, hmeasure⟩ := mapM_decodePair_measures hpairs
    have hbracesEq := hmeasure '{' (by decide)
    have hmap := SortedMap.sum_ofList_le (pairCount '{') pairs
    have hmapLen := SortedMap.sum_ofList_le pairLength pairs
    -- The braces of the sent pairs are those of the captured ones, so no template was resolved.
    have hsum : (sent.map (pairCount '{')).sum
        = (((pieces content).map decodePiece).map (pairCount '{')).sum :=
      congrArg (fun l => (l.map (pairCount '{')).sum) hparse
    obtain ⟨hfields, hclean⟩ := heq (by omega)
    -- So the map holds the captured pairs, and the total length shows the decoders agree.
    have hentries : (SortedMap.ofList pairs).entries = parse content := hfields.symm.trans hparse
    have hsumLen : ((SortedMap.ofList pairs).entries.map pairLength).sum
        = (((pieces content).map decodePiece).map pairLength).sum :=
      congrArg (fun l => (l.map pairLength).sum) hentries
    refine ⟨hlenEq (by omega), ?_, ?_⟩
    · rw [← hentries]
      exact (SortedMap.ofList pairs).sorted
    · rw [← hentries]
      exact hclean
  · rintro ⟨hsign, hsorted, hclean⟩ platform baseDir r
    have hdecoded : pairs = parse content := mapM_decodePair_eq hpairs hsign
    have hentries : (SortedMap.ofList pairs).entries = parse content := by
      rw [hdecoded]
      exact SortedMap.entries_ofList_of_sorted hsorted
    obtain ⟨contentType, hform⟩ := buildBody_form platform baseDir h
    refine ⟨⟨Utf8.encode (serialize urlencode (parse content)), contentType⟩, r, ?_, _, rfl,
      urlencode_encoder.parse_serialize _⟩
    rw [hform, exec_bind_pure_eq_ok, hentries]
    exact ⟨_, encodeFields_clean hclean [] r, by rw [foldl_appendPair]⟩

/-- How promotion reads a captured body. -/
theorem bodyFromCapture_cases (body : CapturedBody) (contentType : Text) :
    (∃ data, body = .base64 data ∧
      bodyFromCapture body contentType = some (.text [] (some contentType))) ∨
    (∃ content, body = .text content ∧ isFormType contentType = true ∧
      bodyFromCapture body contentType
        = ((pieces content).mapM decodePair).map fun pairs => .form (SortedMap.ofList pairs)) ∨
    (∃ content plain, body = .text content ∧ isFormType contentType = false ∧
      bodyFromCapture body contentType = some plain ∧
      (plain = .json content ∨ ∃ ct, plain = .text content ct)) := by
  -- In the order of the `if`s of `body_from_capture`: JSON, a form, GraphQL, anything else.
  cases body with
  | base64 data => exact Or.inl ⟨data, rfl, rfl⟩
  | text content =>
    unfold bodyFromCapture
    dsimp only [CapturedBody.asText]
    by_cases hjson : "json".toList <:+: asciiLower contentType
    · have hno : isFormType contentType = false := decide_eq_false fun h => h.1 hjson
      exact Or.inr (Or.inr ⟨content, .json content, rfl, hno, if_pos hjson, Or.inl rfl⟩)
    · rw [if_neg hjson]
      by_cases hform : "x-www-form-urlencoded".toList <:+: asciiLower contentType
      · have hyes : isFormType contentType = true := decide_eq_true ⟨hjson, hform⟩
        exact Or.inr (Or.inl ⟨content, rfl, hyes, if_pos hform⟩)
      · have hno : isFormType contentType = false := decide_eq_false fun h => hform h.2
        rw [if_neg hform]
        by_cases hgraph : "graphql".toList <:+: asciiLower contentType
        · exact Or.inr (Or.inr ⟨content, .json content, rfl, hno, if_pos hgraph, Or.inl rfl⟩)
        · exact Or.inr (Or.inr ⟨content, _, rfl, hno, if_neg hgraph, Or.inr ⟨_, rfl⟩⟩)

/-- The promoted body carries the captured one exactly when the body is one that survives. -/
theorem carried_iff {b64Decode : Text → Option (List UInt8)} {contentType : Text}
    {body : CapturedBody} {promoted : Body} {spec : RequestSpec}
    (hbody : bodyFromCapture body contentType = some promoted) (h : spec.body = some promoted) :
    (∀ (platform : Platform) (baseDir : Text) (r : Resolver), ∃ prepared r',
      exec (buildBody platform baseDir spec) r = (.ok (some prepared), r') ∧
        BodyCarried b64Decode contentType body prepared.bytes) ↔
      BodyKept b64Decode contentType body := by
  rcases bodyFromCapture_cases body contentType with
    ⟨data, rfl, hcase⟩ | ⟨content, rfl, htype, hcase⟩ | ⟨content, plain, rfl, htype, hcase, hplain⟩
  all_goals rw [hcase] at hbody
  · -- The body is dropped: what is sent is empty.
    obtain rfl := Option.some.inj hbody
    have hkind : spec.body = some (.json []) ∨ ∃ ct, spec.body = some (.text [] ct) :=
      Or.inr ⟨_, h⟩
    have hsent := (carried_text_iff hkind).mpr (by decide)
    constructor
    · intro hall
      obtain ⟨prepared, r', hbuild, hbytes⟩ := hall emptyPlatform [] Resolver.new
      obtain ⟨prepared', r'', hbuild', hbytes'⟩ := hsent emptyPlatform [] Resolver.new
      rw [hbuild'] at hbuild
      obtain ⟨hsame, -⟩ := Prod.mk.inj hbuild
      obtain rfl := Option.some.inj (Except.ok.inj hsame)
      exact hbytes.symm.trans hbytes'
    · intro hkept platform baseDir r
      obtain ⟨prepared, r', hbuild, hbytes⟩ := hsent platform baseDir r
      exact ⟨prepared, r', hbuild, hbytes.trans hkept.symm⟩
  · obtain ⟨pairs, hpairs, rfl⟩ := Option.map_eq_some_iff.mp hbody
    have hform := carried_form_iff hpairs h
    have honb : (pieces content).all (pieceHolds onBoundary) = true := by
      rw [← isSome_mapM_decodePair, hpairs]
      rfl
    simp only [BodyCarried, BodyKept, htype, if_true, FormKept, honb, true_and]
    exact hform
  -- A text is sent as it stands, and templates are kept out by `carried_text_iff`.
  · obtain rfl := Option.some.inj hbody
    have hkind : spec.body = some (.json content) ∨ ∃ ct, spec.body = some (.text content ct) :=
      hplain.imp (fun hp => by rw [h, hp]) fun ⟨ct, hp⟩ => ⟨ct, by rw [h, hp]⟩
    have htext := carried_text_iff hkind
    simp only [BodyCarried, BodyKept, htype, Bool.false_eq_true, if_false]
    exact htext

/-- Promotion preserves a captured body, for every resolver, exactly when no escape of the URL's
query is cut inside a character and the body is one that survives. -/
theorem preservesBody_iff (upper : Text → Text) (nowMs : UInt64) (opts : PromoteOptions)
    (b64Decode : Text → Option (List UInt8)) (capture : Capture) (body : CapturedBody)
    (hbody : capture.request.body = some body) :
    PreservesBody upper nowMs opts b64Decode capture body ↔
      (queryPieces capture.request.url).all (pieceHolds onBoundary) = true ∧
        BodyKept b64Decode capture.contentType body := by
  have hsome := capture.isSome_promote upper nowMs opts
  -- A capture promotes when its query and its body decode.
  rw [isSome_splitQuery] at hsome
  have hpromote : capture.promoteBody
      = (bodyFromCapture body capture.contentType).map some := by
    simp only [Capture.promoteBody, hbody]
  constructor
  · rintro ⟨promotion, hp, hcarried⟩
    obtain ⟨base, hspec⟩ := Capture.promote_spec hp
    rw [hp, Option.isSome_some, eq_comm, Bool.and_eq_true] at hsome
    have hmade := hspec.body
    rw [hpromote] at hmade
    obtain ⟨promoted, hfrom, hto⟩ := Option.map_eq_some_iff.mp hmade
    exact ⟨hsome.1, (carried_iff hfrom hto.symm).mp hcarried⟩
  · rintro ⟨hquery, hkept⟩
    -- And a body that survives decodes.
    have hmade : (bodyFromCapture body capture.contentType).isSome = true := by
      rcases bodyFromCapture_cases body capture.contentType with
        ⟨data, -, hcase⟩ | ⟨content, rfl, htype, hcase⟩ | ⟨content, plain, -, -, hcase, -⟩
      · rw [hcase]
        rfl
      · simp only [BodyKept, htype, if_true, FormKept] at hkept
        rw [hcase, Option.isSome_map, isSome_mapM_decodePair, hkept.1]
      · rw [hcase]
        rfl
    rw [hquery, hpromote, Option.isSome_map, hmade] at hsome
    obtain ⟨promotion, hp⟩ := Option.isSome_iff_exists.mp hsome
    obtain ⟨base, hspec⟩ := Capture.promote_spec hp
    have hspecBody := hspec.body
    rw [hpromote] at hspecBody
    obtain ⟨promoted, hfrom, hto⟩ := Option.map_eq_some_iff.mp hspecBody
    exact ⟨promotion, hp, (carried_iff hfrom hto.symm).mpr hkept⟩

/-- A capture with a body of a content type. -/
def bodyCapture (contentType : Text) (body : CapturedBody) : Capture :=
  let capture := Capture.sampleCapture "https://api.test/v1".toList
    [("Content-Type".toList, contentType)]
  { capture with request := { capture.request with body := some body } }

/-- A captured byte `0xFF`. -/
def binaryBody : CapturedBody := .base64 "/w==".toList

/-- The byte is not sent. -/
theorem not_preservesBody_binary :
    ¬ PreservesBody asciiUpper 0 {} (fun data => if data = "/w==".toList then some [0xFF] else none)
      (bodyCapture "application/octet-stream".toList binaryBody) binaryBody := by
  rintro ⟨promotion, hp, hcarried⟩
  obtain ⟨base, hspec⟩ := Capture.promote_spec hp
  obtain ⟨promoted, hfrom, hto⟩ := Option.map_eq_some_iff.mp (show
    (bodyFromCapture binaryBody
      (bodyCapture "application/octet-stream".toList binaryBody).contentType).map some
      = some promotion.spec.body from hspec.body)
  have hkept := (carried_iff hfrom hto.symm).mp hcarried
  exact absurd (show ([0xFF] : List UInt8) = [] from hkept) (by decide)

/-- A captured form. -/
def formBody : CapturedBody := .text "name=ada+l&tag=%C3%A9".toList

/-- The form is sent with the same pairs. -/
theorem preservesBody_iff_form :
    PreservesBody asciiUpper 0 {} (fun _ => none)
      (bodyCapture "application/x-www-form-urlencoded".toList formBody) formBody := by
  refine (preservesBody_iff asciiUpper 0 {} (fun _ => none)
    (bodyCapture "application/x-www-form-urlencoded".toList formBody) formBody rfl).mpr
    ⟨by decide, ?_⟩
  have htype : isFormType (bodyCapture "application/x-www-form-urlencoded".toList
      formBody).contentType = true := by decide
  rw [formBody] at htype ⊢
  rw [BodyKept, if_pos htype]
  exact ⟨by decide, by decide, by decide, by decide⟩

end Gabriel.Engine
