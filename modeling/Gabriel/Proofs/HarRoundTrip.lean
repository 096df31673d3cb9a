import Gabriel.Core.Har
import Gabriel.Lib.Base64
import Gabriel.Lib.StableSort
import Gabriel.Proofs.FieldMap
import Gabriel.Proofs.IsoText
import Gabriel.Proxy.Relay

/-!
# `Gabriel.Proofs.HarRoundTrip`: captures out and in again

An export sorts its entries by the text of their time, and an import reads them one after the
other. `reimported` is what stands for a capture after both. No entry of a recorded capture
(`Recorded`) is skipped: times, durations and headers come back, and so do the bodies of responses.

Two fields are lost. The body of a request is written as text whatever it is, so one that is not
text comes back with replacement characters, and the HTTP version comes back without the white
space around it. `Survives` leaves these out. The theorems:

* `bodyFromContent_contentOf`, `bodyFromPostData_postDataOf`: the bodies.
* `captureFromEntry_entryFromCapture`: no entry is skipped, and what comes back of a capture.
* `same_reimported_iff`: that is the capture exactly when it survives.
* `importLog_exportAll`: what is imported of an exported log, in the order of the times.
* `roundTrips_iff`: a log survives its export and import exactly when each of its captures does.
-/

set_option autoImplicit false

namespace Gabriel.Core.Har

open Text Double Gabriel.Proxy

/-! ### Headers -/

/-- Collecting the pairs of a map gives the pairs of the map. -/
theorem iterPairs_fromIter_iterPairs (map : FieldMap) :
    (FieldMap.fromIter map.iterPairs).iterPairs = map.iterPairs := by
  refine StableSort.eq_of_filter_eq (FieldMap.iterPairs_ascending _)
    (FieldMap.iterPairs_ascending map) fun k => ?_
  convert FieldMap.filter_iterPairs_fromIter map.iterPairs k

/-- Headers without pseudo-headers come back. -/
theorem iterPairs_headersFrom {headers : FieldMap}
    (h : ∀ e ∈ headers.iterPairs, e.1.head? ≠ some ':') :
    (headersFrom (nameValues headers)).iterPairs = headers.iterPairs := by
  have hkept : (nameValues headers).filter (fun header => header.name.head? ≠ some ':')
      = nameValues headers := by
    refine List.filter_eq_self.mpr fun header hheader => decide_eq_true ?_
    obtain ⟨e, he, rfl⟩ := List.mem_map.mp hheader
    exact h e he
  unfold headersFrom
  rw [hkept, nameValues, List.foldl_map]
  exact iterPairs_fromIter_iterPairs headers

/-! ### Durations and bodies -/

/-- A duration of at most a day comes back. -/
theorem durationFrom_ofNat {duration : UInt64} (h : duration.toNat ≤ 86400000) :
    durationFrom (F64.ofNat duration.toNat) = duration := by
  have hexact : toF64 duration.toNat = duration.toNat := toF64_of_lt (by omega)
  unfold F64.ofNat durationFrom
  dsimp only
  rw [hexact]
  by_cases hzero : duration.toNat = 0
  · rw [hzero, if_neg (by norm_num)]
    exact (UInt64.toNat_inj.mp hzero).symm
  · have hpos : (0 : ℚ) < (duration.toNat : ℚ) := by
      exact_mod_cast Nat.pos_of_ne_zero hzero
    have hday : ((duration.toNat : ℕ) : ℚ) ≤ maxDurationMs := by
      unfold maxDurationMs
      norm_num
      exact_mod_cast h
    have hfloor : ((duration.toNat : ℕ) : ℚ).floor = duration.toNat := by
      exact_mod_cast Rat.floor_intCast duration.toNat
    rw [if_pos hpos, min_eq_left hday, hfloor, Int.toNat_natCast, UInt64.ofNat_toNat]

section Bodies

variable {b64Encode : List UInt8 → Text} {b64Decode : Text → Option (List UInt8)}

/-- What the proxy records of some bytes: nothing, a text, or base64. -/
theorem bodyFromBytes_cases (b64Encode : List UInt8 → Text) (bytes : List UInt8) :
    (bytes = [] ∧ bodyFromBytes b64Encode bytes = none) ∨
      (∃ c text, Utf8.encode (c :: text) = bytes ∧
        bodyFromBytes b64Encode bytes = some (.text (c :: text))) ∨
      bytes ≠ [] ∧ (∀ text, Utf8.encode text ≠ bytes) ∧
        bodyFromBytes b64Encode bytes = some (.base64 (b64Encode bytes)) := by
  unfold bodyFromBytes
  by_cases hnil : bytes = []
  · exact Or.inl ⟨hnil, if_pos hnil⟩
  · rw [if_neg hnil]
    cases htext : Utf8.decode? bytes with
    | some text =>
      have hencode := (Utf8.decode?_eq_some_iff bytes text).mp htext
      cases text with
      | nil => exact absurd hencode.symm hnil
      | cons c text => exact Or.inr (Or.inl ⟨c, text, hencode, rfl⟩)
    | none =>
      refine Or.inr (Or.inr ⟨hnil, fun text hencode => ?_, rfl⟩)
      have hsome := (Utf8.decode?_eq_some_iff bytes text).mpr hencode
      exact absurd (hsome.symm.trans htext) (Option.some_ne_none _)

/-- The body of a response comes back. -/
theorem bodyFromContent_contentOf (hempty : ∀ bytes, b64Encode bytes = [] → bytes = [])
    (headers : FieldMap) (bytes : List UInt8) :
    bodyFromContent (contentOf b64Decode headers (bodyFromBytes b64Encode bytes))
      = bodyFromBytes b64Encode bytes := by
  rcases bodyFromBytes_cases b64Encode bytes with ⟨-, h⟩ | ⟨c, text, -, h⟩ | ⟨hne, -, h⟩
  · rw [h]
    rfl
  · rw [h]
    show (if (none : Option Text) = some "base64".toList then some (CapturedBody.base64 (c :: text))
      else some (.text (c :: text))) = some (.text (c :: text))
    rw [if_neg (Option.some_ne_none _).symm]
  · rw [h]
    cases hdata : b64Encode bytes with
    | nil => exact absurd (hempty bytes hdata) hne
    | cons c data =>
      show (if some "base64".toList = some "base64".toList then
          some (CapturedBody.base64 (c :: data))
        else some (.text (c :: data))) = some (.base64 (c :: data))
      rw [if_pos rfl]

/-- The body of a request comes back with its bytes exactly when it is text. -/
theorem bodyFromPostData_postDataOf (hdecode : ∀ bytes, b64Decode (b64Encode bytes) = some bytes)
    (headers : FieldMap) (bytes : List UInt8) :
    (((bodyFromBytes b64Encode bytes).map (postDataOf b64Decode headers)).bind
        bodyFromPostData).map (CapturedBody.bytes b64Decode)
      = (bodyFromBytes b64Encode bytes).map (CapturedBody.bytes b64Decode) ↔
      ∀ data, bodyFromBytes b64Encode bytes ≠ some (.base64 data) := by
  rcases bodyFromBytes_cases b64Encode bytes with ⟨-, h⟩ | ⟨c, text, -, h⟩ | ⟨-, htext, h⟩
  · rw [h]
    exact iff_of_true rfl fun data => (Option.some_ne_none _).symm
  · rw [h]
    have hpost : bodyFromPostData (postDataOf b64Decode headers (.text (c :: text)))
        = some (.text (c :: text)) := by
      have hlossy : Utf8.decodeLossy (CapturedBody.bytes b64Decode (.text (c :: text)))
          = c :: text := Utf8.decodeLossy_encode (c :: text)
      unfold bodyFromPostData postDataOf
      rw [hlossy]
    rw [Option.map_some, Option.bind_some, hpost]
    exact iff_of_true rfl fun data hdata => by simp at hdata
  · rw [h]
    refine iff_of_false (fun hsame => ?_) fun hall => hall _ rfl
    have hbytes : CapturedBody.bytes b64Decode (.base64 (b64Encode bytes)) = bytes := by
      show (b64Decode (b64Encode bytes)).getD [] = bytes
      rw [hdecode]
      rfl
    rw [Option.map_some, Option.map_some, Option.bind_some, hbytes] at hsame
    -- What comes back is text, and its bytes are those of a text.
    obtain ⟨body, hbody, hsame⟩ := Option.map_eq_some_iff.mp hsame
    unfold bodyFromPostData postDataOf at hbody
    dsimp only at hbody
    cases hlossy : Utf8.decodeLossy (CapturedBody.bytes b64Decode (.base64 (b64Encode bytes))) with
    | nil =>
      rw [hlossy] at hbody
      exact absurd hbody (by simp)
    | cons c lossy =>
      rw [hlossy] at hbody
      obtain rfl : body = .text (c :: lossy) := (Option.some.inj hbody).symm
      exact htext (c :: lossy) hsame

end Bodies

/-! ### Captures -/

section Captures

variable {upper : Text → Text} {b64Encode : List UInt8 → Text}
  {b64Decode : Text → Option (List UInt8)}

/-- A capture as the proxy records it. -/
structure Recorded (upper : Text → Text) (b64Encode : List UInt8 → Text) (c : Capture) : Prop where
  url : c.request.url ≠ []
  method : c.request.method ≠ [] ∧ upper c.request.method = c.request.method
  time : c.atMs.toNat < yearTenThousand
  duration : c.durationMs.toNat ≤ 86400000
  version : c.request.httpVersion ≠ []
  requestHeaders : ∀ e ∈ c.request.headers.iterPairs, e.1.head? ≠ some ':'
  requestBody : ∃ bytes, c.request.body = bodyFromBytes b64Encode bytes
  responseHeaders : ∀ response, c.response = some response →
    ∀ e ∈ response.headers.iterPairs, e.1.head? ≠ some ':'
  responseBody : ∀ response, c.response = some response →
    ∃ bytes, response.body = bodyFromBytes b64Encode bytes

/-- What is to come back of a body: its bytes. -/
def bodyBytes (b64Decode : Text → Option (List UInt8)) (body : Option CapturedBody) :
    Option (List UInt8) := body.map (CapturedBody.bytes b64Decode)

/-- What is to come back of a response. -/
def responseView (b64Decode : Text → Option (List UInt8)) (response : CapturedResponse) :
    UInt16 × Text × List (Text × Text) × Option (List UInt8) :=
  (response.status, response.statusText, response.headers.iterPairs,
    bodyBytes b64Decode response.body)

/-- Two captures are the same up to their ids. -/
structure Same (b64Decode : Text → Option (List UInt8)) (a b : Capture) : Prop where
  time : a.atMs = b.atMs
  duration : a.durationMs = b.durationMs
  session : a.session = b.session
  page : a.page = b.page
  method : a.request.method = b.request.method
  url : a.request.url = b.request.url
  version : a.request.httpVersion = b.request.httpVersion
  requestHeaders : a.request.headers.iterPairs = b.request.headers.iterPairs
  requestBody : bodyBytes b64Decode a.request.body = bodyBytes b64Decode b.request.body
  response : a.response.map (responseView b64Decode) = b.response.map (responseView b64Decode)

/-- What survives: a request body that is text, and a version without white space around it. -/
structure Survives (c : Capture) : Prop where
  textBody : ∀ data, c.request.body ≠ some (.base64 data)
  plainVersion : trim c.request.httpVersion = c.request.httpVersion

/-- A version comes back exactly when no white space stands around it. -/
theorem normaliseHttpVersion_eq_iff {version : Text} (h : version ≠ []) :
    normaliseHttpVersion version = version ↔ trim version = version := by
  unfold normaliseHttpVersion
  cases htrim : trim version with
  | nil =>
    refine iff_of_false (fun heq => ?_) fun heq => h heq.symm
    dsimp only at heq
    rw [← heq] at htrim
    exact absurd htrim (by decide)
  | cons c rest => exact Iff.rfl

/-- What comes back of a capture. -/
def reimported (upper : Text → Text) (b64Decode : Text → Option (List UInt8)) (c : Capture)
    (id : Text) : Capture :=
  { id
    atMs := c.atMs
    durationMs := durationFrom (F64.ofNat c.durationMs.toNat)
    session := c.session
    page := c.page
    request :=
      { method := upper c.request.method
        url := c.request.url
        httpVersion := normaliseHttpVersion c.request.httpVersion
        headers := headersFrom (nameValues c.request.headers)
        body := (c.request.body.map (postDataOf b64Decode c.request.headers)).bind
          bodyFromPostData }
    response := (c.response.map (responseOf b64Decode c.request.httpVersion)).map responseFrom }

/-- No entry of a recorded capture is skipped, and its time is read back. -/
theorem captureFromEntry_entryFromCapture {c : Capture} (h : Recorded upper b64Encode c)
    (id : Text) (fallbackAt : UInt64) :
    captureFromEntry upper (entryFromCapture b64Decode c) id fallbackAt
      = some (some (reimported upper b64Decode c id)) := by
  have hlatest : c.atMs.toNat ≤ latestMs := h.time.le.trans (by decide)
  have htime : parseIso8601 (entryFromCapture b64Decode c).startedDateTime = some (some c.atMs) :=
    parseIso8601_formatIso8601 hlatest
  have hneither : ¬ ((entryFromCapture b64Decode c).request.url = [] ∨
      (entryFromCapture b64Decode c).request.method = []) := by
    rintro (hnil | hnil)
    · exact h.url hnil
    · exact h.method.1 hnil
  unfold captureFromEntry
  rw [if_neg hneither, htime]
  rfl

/-- What comes back is the capture exactly when it survives. -/
theorem same_reimported_iff (hdecode : ∀ bytes, b64Decode (b64Encode bytes) = some bytes)
    (hempty : b64Encode [] = []) {c : Capture} (h : Recorded upper b64Encode c) (id : Text) :
    Same b64Decode (reimported upper b64Decode c id) c ↔ Survives c := by
  -- Only the empty bytes are encoded as the empty text.
  have hnil : ∀ bytes, b64Encode bytes = [] → bytes = [] := by
    intro bytes hbytes
    have hboth := hdecode bytes
    rw [hbytes, ← hempty, hdecode [], Option.some.injEq] at hboth
    exact hboth.symm
  obtain ⟨bytes, hbytes⟩ := h.requestBody
  -- The request body comes back when it was a text.
  have hbody : bodyBytes b64Decode (reimported upper b64Decode c id).request.body
      = bodyBytes b64Decode c.request.body ↔ ∀ data, c.request.body ≠ some (.base64 data) := by
    show ((c.request.body.map (postDataOf b64Decode c.request.headers)).bind
      bodyFromPostData).map (CapturedBody.bytes b64Decode) = c.request.body.map _ ↔ _
    rw [hbytes]
    exact bodyFromPostData_postDataOf hdecode _ bytes
  -- The two conditions are two of the fields that are compared.
  constructor
  · intro hsame
    exact ⟨hbody.mp hsame.requestBody, (normaliseHttpVersion_eq_iff h.version).mp hsame.version⟩
  -- Every other field comes back because the capture is one that was recorded.
  · rintro ⟨htext, hversion⟩
    refine ⟨rfl, durationFrom_ofNat h.duration, rfl, rfl, h.method.2, rfl,
      (normaliseHttpVersion_eq_iff h.version).mpr hversion,
      iterPairs_headersFrom h.requestHeaders, hbody.mpr htext, ?_⟩
    show ((c.response.map (responseOf b64Decode c.request.httpVersion)).map responseFrom).map _ = _
    -- A capture without a response has nothing else to compare.
    cases hresponse : c.response with
    | none => rfl
    | some response =>
      obtain ⟨bytes', hbytes'⟩ := h.responseBody response hresponse
      have hheaders := iterPairs_headersFrom (h.responseHeaders response hresponse)
      have hcontent : bodyFromContent (contentOf b64Decode response.headers response.body)
          = response.body := by
        rw [hbytes']
        exact bodyFromContent_contentOf hnil response.headers bytes'
      show some (response.status, response.statusText,
        (headersFrom (nameValues response.headers)).iterPairs,
        bodyBytes b64Decode (bodyFromContent (contentOf b64Decode response.headers response.body)))
          = some (responseView b64Decode response)
      rw [hheaders, hcontent]
      rfl

/-! ### The log -/

/-- Importing the entries of recorded captures skips none, and gives what comes back of each. -/
theorem importFrom_entries (idPrefix : Text) (nowMs : UInt64) {captures : List Capture}
    (h : ∀ c ∈ captures, Recorded upper b64Encode c) (index : Nat) :
    ∃ imported, importFrom upper idPrefix nowMs (captures.map (entryFromCapture b64Decode)) index
        = some (imported, 0) ∧
      List.Forall₂ (fun a c => ∃ id, a = reimported upper b64Decode c id) imported captures := by
  induction captures generalizing index with
  | nil => exact ⟨[], rfl, List.Forall₂.nil⟩
  | cons c captures ih =>
    rw [List.forall_mem_cons] at h
    obtain ⟨imported, hrest, hall⟩ := ih h.2 (index + 1)
    refine ⟨reimported upper b64Decode c (importId idPrefix index) :: imported, ?_,
      List.Forall₂.cons ⟨_, rfl⟩ hall⟩
    rw [List.map_cons, importFrom, captureFromEntry_entryFromCapture h.1, hrest]
    rfl

/-- The entries of an export are those of the captures in the order of their times. -/
theorem exportAll_entries {captures : List Capture}
    (h : ∀ c ∈ captures, Recorded upper b64Encode c) :
    (exportAll b64Decode captures).entries
      = (captures.insertionSort fun a b => a.atMs.toNat ≤ b.atMs.toNat).map
        (entryFromCapture b64Decode) := by
  refine (List.map_insertionSort (fun a b : Capture => a.atMs.toNat ≤ b.atMs.toNat)
    (fun a b : Entry => a.startedDateTime ≤ b.startedDateTime) (entryFromCapture b64Decode)
    captures ?_).symm
  intro a ha b hb
  exact (formatIso8601_le_iff (h a ha).time (h b hb).time).symm

/-- A log survives its export and import: no entry is skipped, and what is imported are the
captures in the order of their times, those of one time in the order they came. -/
def RoundTrips (upper : Text → Text) (b64Decode : Text → Option (List UInt8)) (idPrefix : Text)
    (nowMs : UInt64) (captures : List Capture) : Prop :=
  ∃ imported sorted,
    importLog upper idPrefix nowMs (exportAll b64Decode captures) = some (imported, 0) ∧
      StableSort.InOrder (fun c : Capture => c.atMs.toNat) captures sorted ∧
      List.Forall₂ (Same b64Decode) imported sorted

/-- What comes back of two lists, item by item. -/
theorem forall₂_same_iff (hdecode : ∀ bytes, b64Decode (b64Encode bytes) = some bytes)
    (hempty : b64Encode [] = []) {imported captures : List Capture}
    (h : ∀ c ∈ captures, Recorded upper b64Encode c)
    (hall : List.Forall₂ (fun a c => ∃ id, a = reimported upper b64Decode c id)
      imported captures) :
    List.Forall₂ (Same b64Decode) imported captures ↔ ∀ c ∈ captures, Survives c := by
  induction hall with
  | nil => exact iff_of_true List.Forall₂.nil fun c hc => absurd hc List.not_mem_nil
  | cons hhead hrest ih =>
    rw [List.forall_mem_cons] at h
    obtain ⟨id, rfl⟩ := hhead
    rw [List.forall₂_cons, List.forall_mem_cons, ih h.2,
      same_reimported_iff hdecode hempty h.1 id]

/-- What is imported of an exported log: no entry is skipped, and there is one capture for each in
the order of their times. -/
theorem importLog_exportAll (idPrefix : Text) (nowMs : UInt64) {captures : List Capture}
    (h : ∀ c ∈ captures, Recorded upper b64Encode c) :
    ∃ imported sorted,
      importLog upper idPrefix nowMs (exportAll b64Decode captures) = some (imported, 0) ∧
        StableSort.InOrder (fun c : Capture => c.atMs.toNat) captures sorted ∧
        sorted.Perm captures ∧
        List.Forall₂ (fun a c => ∃ id, a = reimported upper b64Decode c id) imported sorted := by
  have hperm := List.perm_insertionSort (fun a b : Capture => a.atMs.toNat ≤ b.atMs.toNat) captures
  obtain ⟨imported, himport, hall⟩ := importFrom_entries idPrefix nowMs
    (fun c hc => h c (hperm.mem_iff.mp hc)) 0
  refine ⟨imported, _, ?_, StableSort.inOrder_insertionSort captures, hperm, hall⟩
  unfold importLog
  rw [exportAll_entries h]
  exact himport

/-- Every capture of a log that survives does. -/
theorem survives_of_roundTrips (hdecode : ∀ bytes, b64Decode (b64Encode bytes) = some bytes)
    (hempty : b64Encode [] = []) {idPrefix : Text} {nowMs : UInt64} {captures : List Capture}
    (h : ∀ c ∈ captures, Recorded upper b64Encode c)
    (htrip : RoundTrips upper b64Decode idPrefix nowMs captures) : ∀ c ∈ captures, Survives c := by
  obtain ⟨imported, sorted, hlog, hsort, hperm, hall⟩ :=
    importLog_exportAll idPrefix nowMs h
  obtain ⟨imported', sorted', hlog', hsort', hsame⟩ := htrip
  obtain rfl : imported = imported' := by
    have heq := hlog.symm.trans hlog'
    simpa using heq
  obtain rfl : sorted = sorted' := hsort.unique hsort'
  have hsurvive := (forall₂_same_iff hdecode hempty (fun c hc => h c (hperm.mem_iff.mp hc)) hall).mp
    hsame
  exact fun c hc => hsurvive c (hperm.mem_iff.mpr hc)

/-- **A log survives its export and import exactly when each of its captures does**, with a text
or nothing as the body of its request and no white space around its HTTP version. -/
theorem roundTrips_iff (hdecode : ∀ bytes, b64Decode (b64Encode bytes) = some bytes)
    (hempty : b64Encode [] = []) (idPrefix : Text) (nowMs : UInt64) {captures : List Capture}
    (h : ∀ c ∈ captures, Recorded upper b64Encode c) :
    RoundTrips upper b64Decode idPrefix nowMs captures ↔ ∀ c ∈ captures, Survives c := by
  refine ⟨survives_of_roundTrips hdecode hempty h, fun hsurvive => ?_⟩
  obtain ⟨imported, sorted, hlog, hsort, hperm, hall⟩ :=
    importLog_exportAll idPrefix nowMs h
  refine ⟨imported, sorted, hlog, hsort, ?_⟩
  rw [forall₂_same_iff hdecode hempty (fun c hc => h c (hperm.mem_iff.mp hc)) hall]
  exact fun c hc => hsurvive c (hperm.mem_iff.mp hc)

end Captures

/-! ### An order -/

/-- An exchange at a time, with a body of the request. -/
def orderCapture (atMs : UInt64) (body : List UInt8) : Capture :=
  { id := "c1".toList
    atMs
    durationMs := 42
    session := none
    page := some "https://app.test/dashboard".toList
    request :=
      { method := "POST".toList
        url := "https://api.test/v1/orders?page=2".toList
        httpVersion := "HTTP/2.0".toList
        headers := .fromIter [("accept".toList, "application/json".toList)]
        body := bodyFromBytes Base64.encode body }
    response := some
      { status := 201
        statusText := "Created".toList
        headers := .fromIter [("content-type".toList, "application/octet-stream".toList)]
        body := bodyFromBytes Base64.encode [0xFF, 0xFE] } }

/-- The capture of the sample is one that the proxy records. -/
theorem recorded_orderCapture {atMs : UInt64} (h : atMs.toNat < yearTenThousand)
    (body : List UInt8) : Recorded asciiUpper Base64.encode (orderCapture atMs body) where
  url := List.cons_ne_nil _ _
  method := ⟨List.cons_ne_nil _ _, show asciiUpper "POST".toList = "POST".toList by decide⟩
  time := h
  duration := show (42 : UInt64).toNat ≤ 86400000 by decide
  version := List.cons_ne_nil _ _
  requestHeaders := by
    show ∀ e ∈ (FieldMap.fromIter [("accept".toList, "application/json".toList)]).iterPairs,
      e.1.head? ≠ some ':'
    decide
  requestBody := ⟨body, rfl⟩
  responseHeaders := by
    intro response hresponse
    obtain rfl := (Option.some.inj hresponse).symm
    show ∀ e ∈ (FieldMap.fromIter
      [("content-type".toList, "application/octet-stream".toList)]).iterPairs, e.1.head? ≠ some ':'
    decide
  responseBody := by
    intro response hresponse
    obtain rfl := (Option.some.inj hresponse).symm
    exact ⟨[0xFF, 0xFE], rfl⟩

/-- An order with a text survives. -/
theorem survives_orderCapture {atMs : UInt64} {body : List UInt8} (text : Text)
    (h : bodyFromBytes Base64.encode body = some (.text text)) :
    Survives (orderCapture atMs body) where
  textBody := by
    intro data hdata
    have htext := h.symm.trans hdata
    simp at htext
  plainVersion := show trim "HTTP/2.0".toList = "HTTP/2.0".toList by decide

/-- Two orders with text survive, and come back in the order of their times. -/
theorem roundTrips_iff_orders :
    RoundTrips asciiUpper Base64.decode "i".toList 0
      [orderCapture 1785283200000 (Utf8.encode "new".toList),
        orderCapture 1785283100000 (Utf8.encode "old".toList)] := by
  refine (roundTrips_iff Base64.decode_encode rfl "i".toList 0 fun c hc => ?_).mpr fun c hc => ?_
  · simp only [List.mem_cons, List.not_mem_nil, or_false] at hc
    rcases hc with rfl | rfl
    · exact recorded_orderCapture (by decide) _
    · exact recorded_orderCapture (by decide) _
  · simp only [List.mem_cons, List.not_mem_nil, or_false] at hc
    rcases hc with rfl | rfl
    · exact survives_orderCapture "new".toList (by decide)
    · exact survives_orderCapture "old".toList (by decide)

/-- An order with a byte that is not text is recorded, and does not survive. -/
theorem not_roundTrips_bytes :
    (∀ c ∈ [orderCapture 1785283200000 [0xFF]], Recorded asciiUpper Base64.encode c) ∧
      ¬ RoundTrips asciiUpper Base64.decode "i".toList 0 [orderCapture 1785283200000 [0xFF]] := by
  have hrecorded : ∀ c ∈ [orderCapture 1785283200000 [0xFF]],
      Recorded asciiUpper Base64.encode c := by
    intro c hc
    obtain rfl := List.mem_singleton.mp hc
    exact recorded_orderCapture (by decide) _
  refine ⟨hrecorded, fun htrip => ?_⟩
  have hsurvives := survives_of_roundTrips Base64.decode_encode rfl hrecorded htrip _
    List.mem_cons_self
  exact hsurvives.textBody "/w==".toList (by decide)

end Gabriel.Core.Har
