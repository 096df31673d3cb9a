import Gabriel.Proofs.HarRoundTrip

/-!
# `Gabriel.Proofs.HarSizes`: the size of a captured body

A capture keeps the bytes of a body, as text or as base64. Its size is computed from what is kept:
for base64, three bytes for every four characters, padding included. So the size is that of the
bytes, rounded up to a multiple of three. The bytes themselves always come back.

The HAR file has two sizes of a response, the one of the body and the one of its content, and only
the second counts bytes. `SizesAgree` asks for all of them. The theorems:

* `bodyLength_base64`: the size of a text in base64.
* `sizesAgree_iff_length`: the sizes agree when the length does, since the bytes are right.
* `sizesAgree_iff`: over all bytes, these are recorded with their size exactly when they are text,
  or a multiple of three.
-/

set_option autoImplicit false

namespace Gabriel.Core.Har

open Text Gabriel.Proxy

variable {b64Encode : List UInt8 → Text} {b64Decode : Text → Option (List UInt8)}

/-- The size of a text in base64: that of its bytes, rounded up to a multiple of three. -/
theorem bodyLength_base64 {data : Text} {bytes : List UInt8}
    (h : utf8Len data = (bytes.length + 2) / 3 * 4) :
    bodyLength (.base64 data) = (bytes.length + 2) / 3 * 3 := by
  show utf8Len data / 4 * 3 = _
  rw [h, Nat.mul_div_cancel _ (by decide)]

/-- A recorded body is the bytes that were recorded, and every size of it is their number. -/
structure SizesAgree (b64Decode : Text → Option (List UInt8)) (body : CapturedBody)
    (bytes : List UInt8) : Prop where
  bytes_eq : body.bytes b64Decode = bytes
  length : bodyLength body = bytes.length
  /-- In the exported request. -/
  request : ∀ request : CapturedRequest, request.body = some body →
    (requestOf b64Decode request).bodySize = bytes.length
  /-- In the exported response. -/
  response : ∀ (httpVersion : Text) (response : CapturedResponse), response.body = some body →
    (responseOf b64Decode httpVersion response).bodySize = bytes.length ∧
      (responseOf b64Decode httpVersion response).content.size = bytes.length

/-- The bytes and the size of the content are always right, so the sizes agree when the length
does. -/
theorem sizesAgree_iff_length {body : CapturedBody} {bytes : List UInt8}
    (hbytes : body.bytes b64Decode = bytes)
    (hcontent : ∀ headers, (contentOf b64Decode headers (some body)).size = bytes.length) :
    SizesAgree b64Decode body bytes ↔ bodyLength body = bytes.length := by
  refine ⟨fun h => h.length, fun hlength => ⟨hbytes, hlength, ?_, ?_⟩⟩
  · intro request hbody
    show ((request.body.map fun body => (bodyLength body : Int)).getD 0) = bytes.length
    rw [hbody, Option.map_some, Option.getD_some, hlength]
  · intro httpVersion response hbody
    refine ⟨?_, ?_⟩
    · show ((response.body.map fun body => (bodyLength body : Int)).getD 0) = bytes.length
      rw [hbody, Option.map_some, Option.getD_some, hlength]
    · show (contentOf b64Decode response.headers response.body).size = bytes.length
      rw [hbody, hcontent]

/-- **Bytes are recorded with their size exactly when they are text, or a multiple of three.** -/
theorem sizesAgree_iff (hdecode : ∀ bytes, b64Decode (b64Encode bytes) = some bytes)
    (hlength : ∀ bytes, utf8Len (b64Encode bytes) = (bytes.length + 2) / 3 * 4)
    {bytes : List UInt8} (hne : bytes ≠ []) :
    (∃ body, bodyFromBytes b64Encode bytes = some body ∧ SizesAgree b64Decode body bytes) ↔
      (∃ text, Utf8.encode text = bytes) ∨ bytes.length % 3 = 0 := by
  rcases bodyFromBytes_cases b64Encode bytes with ⟨hnil, -⟩ | ⟨c, text, htext, h⟩ | ⟨-, hbinary, h⟩
  · exact absurd hnil hne
  · -- A text: the sizes count the bytes of its characters.
    have hsize : utf8Len (c :: text) = bytes.length := by rw [utf8Len_eq_length_encode, htext]
    have hbytes : CapturedBody.bytes b64Decode (.text (c :: text)) = bytes := htext
    refine iff_of_true ⟨_, h, ?_⟩ (Or.inl ⟨c :: text, htext⟩)
    refine (sizesAgree_iff_length hbytes fun headers => ?_).mpr hsize
    exact congrArg Int.ofNat hsize
  · have hbytes : CapturedBody.bytes b64Decode (.base64 (b64Encode bytes)) = bytes := by
      show (b64Decode (b64Encode bytes)).getD [] = bytes
      rw [hdecode]
      rfl
    have hcontent : ∀ headers,
        (contentOf b64Decode headers (some (.base64 (b64Encode bytes)))).size = bytes.length := by
      intro headers
      show ((b64Decode (b64Encode bytes)).map fun bytes => (bytes.length : Int)).getD (-1) = _
      rw [hdecode]
      rfl
    have hsize := bodyLength_base64 (hlength bytes)
    rw [or_iff_right fun ⟨text, htext⟩ => hbinary text htext, h]
    constructor
    · rintro ⟨body, hbody, hagree⟩
      obtain rfl := Option.some.inj hbody
      have hcount := hsize.symm.trans hagree.length
      omega
    · intro hthree
      refine ⟨_, rfl, (sizesAgree_iff_length hbytes hcontent).mpr ?_⟩
      rw [hsize]
      omega

/-- Three bytes that are no text, such as a piece of an image, are recorded with their size. -/
theorem sizesAgree_iff_three : ∃ body, bodyFromBytes Base64.encode [0xFF, 0xD8, 0xFF] = some body ∧
    SizesAgree Base64.decode body [0xFF, 0xD8, 0xFF] :=
  (sizesAgree_iff Base64.decode_encode Base64.utf8Len_encode (List.cons_ne_nil _ _)).mpr
    (Or.inr rfl)

/-- A single byte that is no text is recorded as three. -/
theorem not_sizesAgree_byte : ¬ ∃ body, bodyFromBytes Base64.encode [0xFF] = some body ∧
    SizesAgree Base64.decode body [0xFF] := by
  rintro ⟨body, hbody, hagree⟩
  have hbase64 : bodyFromBytes Base64.encode [0xFF] = some (.base64 "/w==".toList) := by decide
  obtain rfl := Option.some.inj (hbase64.symm.trans hbody)
  exact absurd hagree.length (by decide)

end Gabriel.Core.Har
