import Gabriel.Core.Har
import Gabriel.Proofs.PromoteBody

/-!
# `Gabriel.Proofs.HarForm`: the parameters of an imported form

An entry that records a form as parameters only has them joined with `=` and `&` as they are,
and promotion decodes the body it finds. This gives the parameters back when there is no separator
in a name, no `&` in a value, and when the decoder leaves the texts alone (`Plain`).

Decoding never makes a text longer, so a text that decodes to itself holds nothing the decoder
reads. For the join the same count is used once more. Every parameter has an `=`, so it gives at
least one pair, and as there are as many pairs as parameters it gives just one; a pair that was cut
out of a parameter at an `&` is too short. The theorems:

* `percentDecode_length`: decoding makes no text longer, and keeps the length of a text without
  escapes only.
* `percentDecode_eq_self_iff`: a text decodes to itself exactly when it is `Plain`.
* `length_le_pieces`: every parameter has a piece.
* `mapM_decodePair_joined_iff`: the pieces decode to the parameters exactly when each is `Kept`.
* `imported_form_decodes_iff`: over every entry, imported parameters are read back exactly then.
-/

set_option autoImplicit false

namespace Gabriel.Core

open Text FormUrlencoded

/-! ### Texts that decode to themselves -/

/-- Whether the bytes behind a `%` are not read as a byte. -/
def literal : List UInt8 → Bool
  | a :: b :: _ => (fromHexPair a b).isNone
  | _ => true

/-- A text that holds nothing the decoder reads: no `+`, no escape, and no `%` that is cut inside
a character. -/
def Plain (t : Text) : Prop :=
  '+' ∉ t ∧ everyEscape onBoundary (Utf8.encode t) = true ∧
    everyEscape literal (Utf8.encode t) = true

instance (t : Text) : Decidable (Plain t) := by
  unfold Plain
  infer_instance

/-- A byte as the decoder reads it outside of an escape. -/
def plusByte (b : UInt8) : UInt8 := if b = 0x2B then 0x20 else b

/-- A character as the decoder reads it outside of an escape. -/
def plusChar (c : Char) : Char := if c = '+' then ' ' else c

/-- A byte of an ASCII character is not in the bytes of another one. -/
theorem not_mem_utf8EncodeChar {c d : Char} (hc : c.toNat < 0x80) (hne : c ≠ d) :
    UInt8.ofNat c.toNat ∉ String.utf8EncodeChar d := by
  intro hmem
  have hchar := (Utf8.mem_encode_ascii_iff hc [d]).mp (by rwa [Utf8.encode_cons, Utf8.encode_nil,
    List.append_nil])
  exact hne (List.mem_singleton.mp hchar)

/-- The bytes of a character that is read outside of an escape. -/
theorem map_plusByte_utf8EncodeChar (c : Char) :
    (String.utf8EncodeChar c).map plusByte = String.utf8EncodeChar (plusChar c) := by
  by_cases hc : c = '+'
  · rw [hc]
    rfl
  · have hplus : (0x2B : UInt8) ∉ String.utf8EncodeChar c :=
      not_mem_utf8EncodeChar (c := '+') (by decide) (Ne.symm hc)
    have hsame : ∀ b ∈ String.utf8EncodeChar c, plusByte b = b := by
      intro b hb
      exact if_neg fun heq : b = 0x2B => hplus (heq ▸ hb)
    rw [List.map_congr_left hsame, List.map_id', plusChar, if_neg hc]

/-- The bytes of a text that is read outside of escapes. -/
theorem map_plusByte_encode (t : Text) :
    (Utf8.encode t).map plusByte = Utf8.encode (t.map plusChar) := by
  induction t with
  | nil => rfl
  | cons c t ih =>
    rw [Utf8.encode_cons, List.map_append, ih, map_plusByte_utf8EncodeChar, List.map_cons,
      Utf8.encode_cons]

/-- Bytes without `%` are read one by one. -/
theorem percentDecodeBytes_append {bytes : List UInt8} (h : (0x25 : UInt8) ∉ bytes)
    (rest : List UInt8) :
    percentDecodeBytes (bytes ++ rest)
      = (percentDecodeBytes rest).map (bytes.map plusByte ++ ·) := by
  induction bytes with
  | nil => simp
  | cons b bytes ih =>
    have hb : b ≠ 0x25 := fun heq => h (heq ▸ List.mem_cons_self)
    have htail : (0x25 : UInt8) ∉ bytes := fun hmem => h (List.mem_cons_of_mem _ hmem)
    rw [List.cons_append, percentDecodeBytes, ih htail, Option.map_map]
    · rfl
    · exact fun _ _ _ heq _ => hb heq

/-- Bytes without `%` start no escape. -/
theorem everyEscape_append (p : List UInt8 → Bool) {bytes : List UInt8}
    (h : (0x25 : UInt8) ∉ bytes) (rest : List UInt8) :
    everyEscape p (bytes ++ rest) = everyEscape p rest := by
  induction bytes with
  | nil => rfl
  | cons b bytes ih =>
    have hb : (b != 0x25) = true := by
      simpa using fun heq : b = 0x25 => h (heq ▸ List.mem_cons_self)
    rw [List.cons_append, everyEscape, ih fun hmem => h (List.mem_cons_of_mem _ hmem), hb]
    rfl

/-- Without an escape the bytes are read one by one. -/
theorem percentDecodeBytes_of_literal {bytes : List UInt8}
    (hcut : everyEscape onBoundary bytes = true) (h : everyEscape literal bytes = true) :
    percentDecodeBytes bytes = some (bytes.map plusByte) := by
  -- Along the cases of the decoder; an escape is excluded, and so is one that is cut.
  induction bytes using percentDecodeBytes.induct with
  | case1 => rfl
  | case2 a b rest hbound byte hpair ih =>
    rw [everyEscape, Bool.and_eq_true] at h
    have hnone : (fromHexPair a b).isNone = true := h.1
    rw [hpair] at hnone
    exact absurd hnone Bool.false_ne_true
  -- A `%` without two digits behind it is a byte of its own.
  | case3 a b rest hbound hpair ih =>
    rw [everyEscape, Bool.and_eq_true] at h hcut
    rw [percentDecodeBytes, if_pos hbound, hpair]
    show (percentDecodeBytes (a :: b :: rest)).map _ = _
    rw [ih hcut.2 h.2]
    rfl
  | case4 a b rest hbound =>
    rw [everyEscape, Bool.and_eq_true] at hcut
    have hon : onBoundary (a :: b :: rest) = true := hcut.1
    exact absurd (by simpa [onBoundary] using hon) hbound
  | case5 byte rest hplain ih =>
    rw [everyEscape, Bool.and_eq_true] at h hcut
    rw [percentDecodeBytes, ih hcut.2 h.2]
    · rfl
    · exact hplain

/-- A text without an escape decodes to itself, with a space for every `+`. -/
theorem percentDecode_of_literal {t : Text} (hcut : everyEscape onBoundary (Utf8.encode t) = true)
    (h : everyEscape literal (Utf8.encode t) = true) :
    percentDecode t = some (t.map plusChar) := by
  rw [percentDecode, percentDecodeBytes_of_literal hcut h, map_plusByte_encode, Option.map_some,
    Utf8.decodeLossy_encode]

/-- The first step of the decoder: a character that is kept or read as a space, or an escape,
which is three characters of the text and at most one of the result. -/
theorem percentDecode_cons {c : Char} {t out : Text} (h : percentDecode (c :: t) = some out) :
    (∃ out', percentDecode t = some out' ∧ out.length = out'.length + 1 ∧
      everyEscape literal (Utf8.encode (c :: t)) = everyEscape literal (Utf8.encode t)) ∨
    ∃ d e t' out', t = d :: e :: t' ∧ percentDecode t' = some out' ∧
      out.length ≤ out'.length + 1 := by
  obtain ⟨bytes, hbytes, rfl⟩ := Option.map_eq_some_iff.mp h
  rw [Utf8.encode_cons] at hbytes
  by_cases hc : c = '%'
  · obtain rfl := hc
    replace hbytes : percentDecodeBytes (0x25 :: Utf8.encode t) = some bytes := hbytes
    -- What stands behind the `%` when it is read as itself.
    have hkept : ∀ bytes', percentDecodeBytes (Utf8.encode t) = some bytes' →
        literal (Utf8.encode t) = true → bytes = 0x25 :: bytes' →
        ∃ out', percentDecode t = some out' ∧
          (Utf8.decodeLossy bytes).length = out'.length + 1 ∧
          everyEscape literal (Utf8.encode ('%' :: t)) = everyEscape literal (Utf8.encode t) := by
      intro bytes' hrest hlit hcons
      refine ⟨Utf8.decodeLossy bytes', by rw [percentDecode, hrest]; rfl, ?_, ?_⟩
      · rw [hcons]
        exact congrArg List.length (Utf8.decodeLossy_encode_append ['%'] bytes')
      · rw [Utf8.encode_cons]
        show ((0x25 != 0x25 || literal (Utf8.encode t)) && everyEscape literal (Utf8.encode t)) = _
        rw [hlit, Bool.or_true, Bool.true_and]
    by_cases hshort : ∃ a b rest, Utf8.encode t = a :: b :: rest
    · obtain ⟨a, b, rest, hab⟩ := hshort
      rw [hab] at hbytes
      by_cases hbound : isCharBoundary (a :: b :: rest) ∧ isCharBoundary rest
      · cases hpair : fromHexPair a b with
        | some byte =>
          -- The two characters of an escape are ASCII.
          obtain ⟨ha, hb⟩ : a.toNat < 0x80 ∧ b.toNat < 0x80 := by
            rcases fromHexPair_eq_some hpair with ⟨hi, lo, ha, hb, -⟩ | ⟨rfl, lo, hb, -⟩
            · have hahi := (hexDigit_isSome ha).2.2.1
              have hbhi := (hexDigit_isSome hb).2.2.1
              omega
            · have hbhi := (hexDigit_isSome hb).2.2.1
              exact ⟨by decide, by omega⟩
          obtain ⟨t₁, rfl, h₁⟩ := Utf8.eq_cons_of_encode ha hab
          obtain ⟨t₂, rfl, h₂⟩ := Utf8.eq_cons_of_encode hb h₁
          rw [percentDecodeBytes, if_pos hbound, hpair] at hbytes
          obtain ⟨bytes', hrest, rfl⟩ := Option.map_eq_some_iff.mp hbytes
          refine Or.inr ⟨_, _, t₂, Utf8.decodeLossy bytes', rfl, ?_, ?_⟩
          · rw [percentDecode, h₂, hrest]
            rfl
          · exact Utf8.length_decodeLossy_cons_le byte bytes'
        | none =>
          rw [percentDecodeBytes, if_pos hbound, hpair] at hbytes
          obtain ⟨bytes', hrest, rfl⟩ := Option.map_eq_some_iff.mp hbytes
          refine Or.inl (hkept bytes' (by rw [hab]; exact hrest) ?_ rfl)
          rw [hab, literal, hpair]
          rfl
      · rw [percentDecodeBytes, if_neg hbound] at hbytes
        exact absurd hbytes.symm (Option.some_ne_none _)
    · have hlit : literal (Utf8.encode t) = true := by
        unfold literal
        split
        · rename_i a b rest hab
          exact absurd ⟨a, b, rest, hab⟩ hshort
        · rfl
      rw [percentDecodeBytes] at hbytes
      · obtain ⟨bytes', hrest, rfl⟩ := Option.map_eq_some_iff.mp hbytes
        exact Or.inl (hkept bytes' hrest hlit rfl)
      · exact fun a b rest _ hab => hshort ⟨a, b, rest, hab⟩
  · have hpercent : (0x25 : UInt8) ∉ String.utf8EncodeChar c :=
      not_mem_utf8EncodeChar (c := '%') (by decide) (Ne.symm hc)
    rw [percentDecodeBytes_append hpercent] at hbytes
    obtain ⟨bytes', hrest, rfl⟩ := Option.map_eq_some_iff.mp hbytes
    refine Or.inl ⟨Utf8.decodeLossy bytes', by rw [percentDecode, hrest]; rfl, ?_, ?_⟩
    · rw [map_plusByte_utf8EncodeChar, ← List.append_nil (String.utf8EncodeChar (plusChar c)),
        ← Utf8.encode_nil, ← Utf8.encode_cons, Utf8.decodeLossy_encode_append]
      rfl
    · rw [Utf8.encode_cons, everyEscape_append literal hpercent]

/-- Decoding makes no text longer, and only a text without escapes keeps its length. -/
theorem percentDecode_length {t out : Text} (h : percentDecode t = some out) :
    out.length ≤ t.length ∧
      (out.length = t.length → everyEscape literal (Utf8.encode t) = true) := by
  induction hn : t.length using Nat.strong_induction_on generalizing t out with
  | _ n ih =>
    cases t with
    | nil =>
      obtain rfl : [] = out := by simpa [percentDecode, percentDecodeBytes] using h
      exact ⟨Nat.zero_le _, fun _ => rfl⟩
    | cons c t =>
      rw [List.length_cons] at hn
      rcases percentDecode_cons h with ⟨out', hrest, hlen, hlit⟩ |
          ⟨d, e, t', out', rfl, hrest, hlen⟩
      · obtain ⟨hle, heq⟩ := ih t.length (by omega) hrest rfl
        exact ⟨by omega, fun hsame => by rw [hlit]; exact heq (by omega)⟩
      · rw [List.length_cons, List.length_cons] at hn
        obtain ⟨hle, -⟩ := ih t'.length (by omega) hrest rfl
        exact ⟨by omega, fun hsame => by omega⟩

/-- A text decodes to itself exactly when it holds nothing the decoder reads. -/
theorem percentDecode_eq_self_iff (t : Text) : percentDecode t = some t ↔ Plain t := by
  constructor
  · intro h
    have hlit := (percentDecode_length h).2 rfl
    have hcut : everyEscape onBoundary (Utf8.encode t) = true := by
      rw [← isSome_percentDecode, h]
      rfl
    refine ⟨fun hplus => ?_, hcut, hlit⟩
    rw [percentDecode_of_literal hcut hlit, Option.some.injEq] at h
    have hmem : '+' ∈ t.map plusChar := by rwa [h]
    obtain ⟨c, -, hc⟩ := List.mem_map.mp hmem
    unfold plusChar at hc
    split at hc
    · exact absurd hc (by decide)
    · rename_i hne
      exact hne hc
  · rintro ⟨hplus, hcut, hlit⟩
    have hsame : ∀ c ∈ t, plusChar c = c := by
      intro c hc
      exact if_neg fun heq : c = '+' => hplus (heq ▸ hc)
    rw [percentDecode_of_literal hcut hlit, List.map_congr_left hsame, List.map_id']

/-! ### The joined parameters -/

namespace Har

/-- A parameter as the import writes it. -/
def NameValue.joined (p : NameValue) : Text := p.name ++ '=' :: p.value

/-- The pair of a parameter. -/
def NameValue.pair (p : NameValue) : Text × Text := (p.name, p.value)

/-- A parameter that the join and the decoder keep. -/
def NameValue.Kept (p : NameValue) : Prop :=
  '&' ∉ p.name ∧ '&' ∉ p.value ∧ '=' ∉ p.name ∧ Plain p.name ∧ Plain p.value

instance (p : NameValue) : Decidable p.Kept := by
  unfold NameValue.Kept
  infer_instance

/-- The pieces of texts with `&` between them are the pieces of the texts. -/
theorem pieces_intercalate (texts : List Text) :
    pieces (List.intercalate ['&'] texts) = texts.flatMap pieces := by
  induction texts with
  | nil => rfl
  | cons t texts ih =>
    cases texts with
    | nil => rw [List.intercalate_singleton, List.flatMap_cons, List.flatMap_nil, List.append_nil]
    | cons next texts =>
      rw [List.intercalate_cons_cons, List.append_assoc, List.singleton_append, pieces,
        List.splitOn_append_cons_self, List.filter_append, List.flatMap_cons, ← ih]
      rfl

/-- A joined parameter has a piece with an `=`. -/
theorem exists_piece_joined (p : NameValue) : ∃ piece ∈ pieces p.joined, '=' ∈ piece := by
  have hmem : '=' ∈ p.joined := List.mem_append_right _ List.mem_cons_self
  obtain ⟨piece, hpiece, heq⟩ := exists_mem_splitOn (c := '&') hmem (by decide)
  refine ⟨piece, List.mem_filter.mpr ⟨hpiece, ?_⟩, heq⟩
  simpa using List.ne_nil_of_mem heq

/-- A piece with an `=` that decodes to a pair is cut at its first `=` and decoded. -/
theorem decodePair_split {piece k v : Text} (heq : '=' ∈ piece)
    (h : decodePair piece = some (k, v)) :
    ∃ a b, piece = a ++ '=' :: b ∧ '=' ∉ a ∧ percentDecode a = some k ∧
      percentDecode b = some v := by
  obtain ⟨hk, hv⟩ := Engine.decodePair_eq_some_iff.mp h
  cases hcut : splitOnce ['='] piece with
  | none => exact absurd heq (splitOnce_singleton_eq_none.mp hcut)
  | some cut =>
    obtain ⟨a, b⟩ := cut
    obtain ⟨hpiece, ha⟩ := splitOnce_singleton_iff.mp hcut
    rw [splitPair, hcut] at hk hv
    exact ⟨a, b, hpiece, ha, hk, hv⟩

/-- A parameter that is read back from one of its own pieces was kept. -/
theorem kept_of_decodePair {p : NameValue} {piece : Text} (hpiece : piece ∈ pieces p.joined)
    (heq : '=' ∈ piece) (h : decodePair piece = some p.pair) : p.Kept := by
  obtain ⟨a, b, hcut, ha, hname, hvalue⟩ := decodePair_split heq h
  have hnameLen := (percentDecode_length hname).1
  have hvalueLen := (percentDecode_length hvalue).1
  have hsplit : piece ∈ p.joined.splitOn '&' := (List.mem_filter.mp hpiece).1
  have hpart := infix_of_mem_splitOn hsplit
  -- The piece is the whole text, since it is not shorter.
  have hwhole : piece = p.joined := by
    refine hpart.eq_of_length_le ?_
    rw [hcut, NameValue.joined, List.length_append, List.length_append, List.length_cons,
      List.length_cons]
    omega
  have hamp : '&' ∉ p.joined := by
    rw [← hwhole]
    exact not_mem_of_mem_splitOn hsplit
  rw [hcut, NameValue.joined] at hwhole
  -- Neither side got longer, so both have the length of their own text.
  have hlen := congrArg List.length hwhole
  rw [List.length_append, List.length_append, List.length_cons, List.length_cons] at hlen
  obtain ⟨rfl, hrest⟩ := List.append_inj hwhole (by omega)
  obtain rfl := (List.cons.inj hrest).2
  exact ⟨fun hmem => hamp (List.mem_append_left _ hmem),
    fun hmem => hamp (List.mem_append_right _ (List.mem_cons_of_mem _ hmem)), ha,
    (percentDecode_eq_self_iff _).mp hname, (percentDecode_eq_self_iff _).mp hvalue⟩

/-- A kept parameter is one piece, and is read back from it. -/
theorem pieces_joined_of_kept {p : NameValue} (h : p.Kept) :
    pieces p.joined = [p.joined] ∧ decodePair p.joined = some p.pair := by
  obtain ⟨hnameAmp, hvalueAmp, hname, hplainName, hplainValue⟩ := h
  have hamp : '&' ∉ p.joined := by
    intro hmem
    rcases List.mem_append.mp hmem with hmem | hmem
    · exact hnameAmp hmem
    · rcases List.mem_cons.mp hmem with heq | hmem
      · exact absurd heq (by decide)
      · exact hvalueAmp hmem
  have hne : p.joined ≠ [] := List.append_ne_nil_of_right_ne_nil _ (List.cons_ne_nil _ _)
  have hcut : splitPair p.joined = (p.name, p.value) := by
    have hat : splitOnce ['='] p.joined = some (p.name, p.value) :=
      splitOnce_singleton_iff.mpr ⟨rfl, hname⟩
    rw [splitPair, hat]
    rfl
  constructor
  · rw [pieces, List.splitOn_eq_singleton hamp, List.filter_singleton]
    simp [hne]
  · rw [NameValue.pair, Engine.decodePair_eq_some_iff, hcut]
    exact ⟨(percentDecode_eq_self_iff _).mpr hplainName,
      (percentDecode_eq_self_iff _).mpr hplainValue⟩

/-- Every parameter has a piece. -/
theorem length_le_pieces (params : List NameValue) :
    params.length ≤ (params.flatMap fun p => pieces p.joined).length := by
  induction params with
  | nil => exact Nat.le_refl _
  | cons p params ih =>
    obtain ⟨piece, hpiece, -⟩ := exists_piece_joined p
    have hpos := List.length_pos_of_mem hpiece
    rw [List.flatMap_cons, List.length_append, List.length_cons]
    omega

/-- The pieces of the parameters decode to them exactly when each of them is kept. -/
theorem mapM_decodePair_joined_iff (params : List NameValue) :
    (params.flatMap fun p => pieces p.joined).mapM decodePair
      = some (params.map NameValue.pair) ↔ ∀ p ∈ params, p.Kept := by
  induction params with
  | nil => simp
  | cons p params ih =>
    rw [List.flatMap_cons, List.forall_mem_cons, ← ih]
    constructor
    · intro h
      obtain ⟨piece, hpiece, heq⟩ := exists_piece_joined p
      have hlen := Fallible.length_of_mapM h
      rw [List.length_append, List.length_map, List.length_cons] at hlen
      have hrest := length_le_pieces params
      have hpos := List.length_pos_of_mem hpiece
      -- As many pairs as parameters: there is one piece of this parameter.
      obtain ⟨only, honly⟩ := List.length_eq_one_iff.mp
        (show (pieces p.joined).length = 1 by omega)
      rw [honly, List.mem_singleton] at hpiece
      simp only [honly, List.singleton_append, List.map_cons, List.mapM_cons, Option.pure_def,
        Option.bind_eq_bind, Option.bind_eq_some_iff, Option.some.injEq] at h
      obtain ⟨pair, hpair, rest, hdecoded, hcons⟩ := h
      obtain ⟨rfl, rfl⟩ := List.cons.inj hcons
      refine ⟨kept_of_decodePair ?_ heq (hpiece ▸ hpair), hdecoded⟩
      rw [honly, hpiece]
      exact List.mem_singleton_self _
    · rintro ⟨hkept, hrest⟩
      obtain ⟨honly, hpair⟩ := pieces_joined_of_kept hkept
      rw [honly, List.singleton_append, List.mapM_cons, hpair, hrest]
      rfl

/-! ### The imported body -/

/-- The request body of a capture is a text that promotion decodes to these pairs. -/
def FormDecodes (capture : Capture) (pairs : List (Text × Text)) : Prop :=
  ∃ content, capture.request.body = some (.text content) ∧
    (pairTexts content).mapM decodePair = some pairs

/-- The body of a captured entry with parameters and no text. -/
theorem captureFromEntry_body {upper : Text → Text} {entry : Entry} {id : Text}
    {fallbackAt : UInt64} {capture : Capture} {data : PostData}
    (h : captureFromEntry upper entry id fallbackAt = some (some capture))
    (hdata : entry.request.postData = some data) (htext : data.text.getD [] = [])
    (hparams : data.params ≠ []) :
    capture.request.body
      = some (.text (List.intercalate ['&'] (data.params.map NameValue.joined))) := by
  have hbody : bodyFromPostData data
      = some (.text (List.intercalate ['&'] (data.params.map NameValue.joined))) := by
    unfold bodyFromPostData
    split
    · rename_i c text hsome
      rw [hsome] at htext
      exact absurd htext (List.cons_ne_nil _ _)
    · rw [if_neg hparams]
      rfl
  unfold captureFromEntry at h
  split at h
  · exact absurd (Option.some.inj h).symm (Option.some_ne_none _)
  · obtain ⟨at?, -, hcapture⟩ := Option.map_eq_some_iff.mp h
    rw [← Option.some.inj hcapture]
    show entry.request.postData.bind bodyFromPostData = _
    rw [hdata, ← hbody]
    rfl

/-- **Imported parameters are read back exactly when they hold nothing a form would escape**: no
`&`, no `=` in a name, and nothing that the decoder reads. -/
theorem imported_form_decodes_iff {upper : Text → Text} {entry : Entry} {id : Text}
    {fallbackAt : UInt64} {capture : Capture} {data : PostData}
    (h : captureFromEntry upper entry id fallbackAt = some (some capture))
    (hdata : entry.request.postData = some data) (htext : data.text.getD [] = [])
    (hparams : data.params ≠ []) :
    FormDecodes capture (data.params.map NameValue.pair) ↔ ∀ p ∈ data.params, p.Kept := by
  have hbody := captureFromEntry_body h hdata htext hparams
  have hpieces : pairTexts (List.intercalate ['&'] (data.params.map NameValue.joined))
      = data.params.flatMap fun p => pieces p.joined := by
    show pieces _ = _
    rw [pieces_intercalate, List.flatMap_map]
  rw [← mapM_decodePair_joined_iff, ← hpieces]
  constructor
  · rintro ⟨content, hcontent, hpairs⟩
    rw [hbody] at hcontent
    obtain rfl := CapturedBody.text.inj (Option.some.inj hcontent)
    exact hpairs
  · exact fun hpairs => ⟨_, hbody, hpairs⟩

/-- An entry whose form has one parameter. -/
def formEntry (name value : Text) : Entry :=
  { startedDateTime := "2026-01-02T03:04:05Z".toList
    time := .ofNat 1
    request :=
      { method := "POST".toList
        url := "https://api.test/".toList
        httpVersion := "HTTP/1.1".toList
        cookies := []
        headers := []
        queryString := []
        postData := some
          { mimeType := "application/x-www-form-urlencoded".toList
            text := none
            params := [⟨name, value⟩] }
        headersSize := -1
        bodySize := 0 }
    response := none
    timings := ⟨.ofNat 0, .ofNat 1, .ofNat 0⟩
    page := none
    session := none }

/-- Such an entry is a capture. -/
theorem exists_capture_formEntry (name value : Text) :
    ∃ capture, captureFromEntry asciiUpper (formEntry name value) [] 0 = some (some capture) := by
  have hdate : (parseIso8601 "2026-01-02T03:04:05Z".toList).isSome = true := by decide +kernel
  obtain ⟨at?, hat⟩ := Option.isSome_iff_exists.mp hdate
  have hreal : ¬ ((formEntry name value).request.url = [] ∨
      (formEntry name value).request.method = []) := by
    rintro (h | h)
    · exact List.cons_ne_nil _ _ h
    · exact List.cons_ne_nil _ _ h
  unfold captureFromEntry
  rw [if_neg hreal]
  exact ⟨_, congrArg (Option.map _) hat⟩

/-- A value with a space and an accent is read back. -/
theorem imported_form_decodes_plain : ∃ capture,
    captureFromEntry asciiUpper (formEntry "name".toList "Zoé = Z".toList) [] 0
      = some (some capture) ∧ FormDecodes capture [("name".toList, "Zoé = Z".toList)] := by
  obtain ⟨capture, h⟩ := exists_capture_formEntry "name".toList "Zoé = Z".toList
  refine ⟨capture, h, (imported_form_decodes_iff h rfl rfl (List.cons_ne_nil _ _)).mpr ?_⟩
  intro p hp
  obtain rfl := List.mem_singleton.mp hp
  decide +kernel

/-- A value with a `&` is read as two parameters. -/
theorem not_imported_form_decodes_ampersand : ∃ capture,
    captureFromEntry asciiUpper (formEntry "q".toList "a&b".toList) [] 0 = some (some capture) ∧
      ¬ FormDecodes capture [("q".toList, "a&b".toList)] := by
  obtain ⟨capture, h⟩ := exists_capture_formEntry "q".toList "a&b".toList
  refine ⟨capture, h, ?_⟩
  rintro ⟨content, hcontent, hpairs⟩
  rw [captureFromEntry_body h rfl rfl (List.cons_ne_nil _ _)] at hcontent
  obtain rfl := CapturedBody.text.inj (Option.some.inj hcontent)
  have hread : (pairTexts (List.intercalate ['&'] ([⟨"q".toList, "a&b".toList⟩].map
      NameValue.joined))).mapM decodePair
      = some [("q".toList, "a".toList), ("b".toList, [])] := by decide +kernel
  rw [hread] at hpairs
  exact absurd hpairs (by decide)

end Har

end Gabriel.Core
