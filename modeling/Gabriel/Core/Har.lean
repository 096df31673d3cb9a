import Gabriel.Core.Capture
import Gabriel.Core.Instant
import Gabriel.Lib.Double

/-!
# `Gabriel.Core.Har`: HAR 1.2, out and in

`export`, `export_partial` and `import` of `gabriel-core/src/har.rs`. A HAR is its value here; the
JSON of the file is not modelled. The fields that an export leaves empty and an import does not
read are left out: pages, page references, the cache, addresses and connections.

`b64Decode` is the decoder of base64, and `upper` the upper-case mapping of a text. Reading an
instant can panic, and so can an import: its result is an `Option`, with `none` for the panic.

The definitions:

* `entryFromCapture`, `captureFromEntry`: one capture out, and one entry in.
* `cookiesFromHeader`: the splitter of both cookie headers.
* `bodyLength`, `contentOf`, `postDataOf`: a body and its sizes.
* `exportAll`, `exportPartial`: a HAR of captures, in the order of their times.
* `importFrom`, `importLog`: read the entries of a HAR, and count those that are skipped.
-/

set_option autoImplicit false

namespace Gabriel.Core.Har

open Text Double

/-! ### The format -/

/-- A header or a query parameter. -/
structure NameValue where
  name : Text
  value : Text
  deriving DecidableEq

/-- A cookie that was sent or set. -/
structure Cookie where
  name : Text
  value : Text
  deriving DecidableEq

/-- The body of a request. -/
structure PostData where
  mimeType : Text
  text : Option Text
  params : List NameValue
  deriving DecidableEq

/-- What was sent. -/
structure Request where
  method : Text
  url : Text
  httpVersion : Text
  cookies : List Cookie
  headers : List NameValue
  queryString : List NameValue
  postData : Option PostData
  headersSize : Int
  bodySize : Int
  deriving DecidableEq

/-- The body of a response. -/
structure Content where
  size : Int
  mimeType : Text
  text : Option Text
  /-- `base64` when the text is encoded rather than literal. -/
  encoding : Option Text
  deriving DecidableEq

/-- What came back. -/
structure Response where
  status : UInt16
  statusText : Text
  httpVersion : Text
  cookies : List Cookie
  headers : List NameValue
  content : Content
  redirectUrl : Text
  headersSize : Int
  bodySize : Int
  deriving DecidableEq

/-- The timings of an exchange. The fields that are not here are `-1`. -/
structure Timings where
  send : F64
  wait : F64
  receive : F64
  deriving DecidableEq

/-- One exchange. -/
structure Entry where
  startedDateTime : Text
  /-- Total elapsed milliseconds. -/
  time : F64
  request : Request
  response : Option Response
  timings : Timings
  /-- Where the request came from. -/
  page : Option Text
  /-- Gabriel's own session name. -/
  session : Option Text
  deriving DecidableEq

/-- The program that wrote a log. -/
structure Creator where
  name : Text
  version : Text
  deriving DecidableEq

/-- A HAR: its log. -/
structure Log where
  version : Text
  creator : Creator
  entries : List Entry
  /-- Free text: it declares that the file is not the whole log. -/
  comment : Option Text
  deriving DecidableEq

/-- The version of the format. -/
def harVersion : Text := "1.2".toList

/-- This program. -/
def Creator.default : Creator := ⟨"gabriel".toList, "0.1.0-preview.2".toList⟩

/-- What is written where the version is not known. -/
def unknownHttpVersion : Text := "HTTP/1.1".toList

/-! ### Helpers -/

/-- Every value of every header, in order. -/
def nameValues (headers : FieldMap) : List NameValue :=
  headers.iterPairs.map fun e => ⟨e.1, e.2⟩

/-- The attributes of a `Set-Cookie`, which are not cookies. -/
def cookieAttributes : List Text :=
  ["path".toList, "domain".toList, "expires".toList, "max-age".toList, "samesite".toList,
    "secure".toList, "httponly".toList]

/-- The cookie of one piece. -/
def cookieOfPair (pair : Text) : Option Cookie := do
  let (name, value) ← splitOnce ['='] pair
  if trim name ≠ [] ∧ asciiLower (trim name) ∉ cookieAttributes then
    some ⟨trim name, trim value⟩
  else none

/-- Split the cookies from the headers of a name. -/
def cookiesFromHeader (headers : FieldMap) (header : Text) : List Cookie :=
  (headers.iterPairs.filter fun e => eqIgnoreAsciiCase e.1 header).flatMap fun e =>
    (e.2.splitOn ';').filterMap cookieOfPair

/-- The part of a URL in front of the query, and the pairs of the query. -/
def splitUrlQuery (url : Text) : Text × List NameValue :=
  match splitOnce ['?'] url with
  | none => (url, [])
  | some (base, query) =>
    (base, (((query.takeWhile (· ≠ '#')).splitOn '&').filter (· ≠ [])).map fun pair =>
      let (name, value) := (splitOnce ['='] pair).getD (pair, [])
      ⟨name, value⟩)

/-- A HAR wants `HTTP/1.1`. -/
def normaliseHttpVersion (version : Text) : Text :=
  match trim version with
  | [] => unknownHttpVersion
  | other => other

/-- The length of a body, as a capture tells it. -/
def bodyLength : CapturedBody → Nat
  | .text text => utf8Len text
  | .base64 data => utf8Len data / 4 * 3

/-! ### Export -/

section Export

variable (b64Decode : Text → Option (List UInt8))

/-- The first content type of some headers, or no text. -/
def contentType (headers : FieldMap) : Text :=
  (headers.getFirst "content-type".toList).getD []

/-- `PostData` of a captured body. Bytes that are no text are replaced. -/
def postDataOf (headers : FieldMap) (body : CapturedBody) : PostData :=
  { mimeType := contentType headers
    text := some (Utf8.decodeLossy (body.bytes b64Decode))
    params := [] }

/-- `Content` of a captured body. A body in base64 stays so, and is marked. -/
def contentOf (headers : FieldMap) : Option CapturedBody → Content
  | some (.text text) =>
    { size := utf8Len text, mimeType := contentType headers, text := some text, encoding := none }
  | some (.base64 data) =>
    { size := ((b64Decode data).map fun bytes => (bytes.length : Int)).getD (-1)
      mimeType := contentType headers, text := some data, encoding := some "base64".toList }
  | none => { size := 0, mimeType := contentType headers, text := none, encoding := none }

/-- `Request` of a captured one. -/
def requestOf (request : CapturedRequest) : Request :=
  { method := request.method
    url := request.url
    httpVersion := normaliseHttpVersion request.httpVersion
    cookies := cookiesFromHeader request.headers "cookie".toList
    headers := nameValues request.headers
    queryString := (splitUrlQuery request.url).2
    postData := request.body.map (postDataOf b64Decode request.headers)
    -- Wire sizes are not recorded; `-1` is the format's "unknown".
    headersSize := -1
    bodySize := (request.body.map fun body => (bodyLength body : Int)).getD 0 }

/-- `Response` of a captured one. -/
def responseOf (httpVersion : Text) (response : CapturedResponse) : Response :=
  { status := response.status
    statusText := response.statusText
    httpVersion := normaliseHttpVersion httpVersion
    cookies := cookiesFromHeader response.headers "set-cookie".toList
    headers := nameValues response.headers
    content := contentOf b64Decode response.headers response.body
    redirectUrl := (response.headers.getFirst "location".toList).getD []
    headersSize := -1
    bodySize := (response.body.map fun body => (bodyLength body : Int)).getD 0 }

/-- `Entry::from_capture`. -/
def entryFromCapture (capture : Capture) : Entry :=
  { startedDateTime := formatIso8601 capture.atMs
    time := .ofNat capture.durationMs.toNat
    request := requestOf b64Decode capture.request
    response := capture.response.map (responseOf b64Decode capture.request.httpVersion)
    timings := ⟨.ofNat 0, .ofNat capture.durationMs.toNat, .ofNat 0⟩
    page := capture.page
    session := capture.session }

/-- The entries in the order of their times, with a comment. -/
def build (captures : List Capture) (comment : Option Text) : Log :=
  { version := harVersion
    creator := .default
    entries := (captures.map (entryFromCapture b64Decode)).insertionSort fun a b =>
      a.startedDateTime ≤ b.startedDateTime
    comment }

/-- The log of some captures. -/
def exportAll (captures : List Capture) : Log := build b64Decode captures none

/-- What an export that is not the whole log says about itself. -/
def partialComment (shown total omitted : Nat) : Text :=
  "PARTIAL EXPORT: this file contains the newest ".toList ++ natText shown ++ " of ".toList
    ++ natText total ++ " captures. ".toList ++ natText omitted
    ++ " were omitted because --limit was given. It is not a complete record.".toList

/-- Export a deliberate subset, and say so in the file. -/
def exportPartial (captures : List Capture) (total : Nat) : Log :=
  build b64Decode captures
    (some (partialComment captures.length total (total - captures.length)))

end Export

/-! ### Import -/

/-- The longest duration that an import keeps: a day. -/
def maxDurationMs : ℚ := 24 * 60 * 60 * 1000

/-- The headers of an entry. HTTP/2 pseudo-headers are not real headers. -/
def headersFrom (headers : List NameValue) : FieldMap :=
  (headers.filter fun header => header.name.head? ≠ some ':').foldl
    (fun map header => map.insert header.name header.value) .empty

/-- The body of a request. Some exporters record a form as parameters with no text. -/
def bodyFromPostData (data : PostData) : Option CapturedBody :=
  match data.text with
  | some (c :: text) => some (.text (c :: text))
  | _ =>
    if data.params = [] then none
    else some (.text (List.intercalate ['&'] (data.params.map fun p => p.name ++ '=' :: p.value)))

/-- The captured body of a `Content`, if it says what its text is. -/
def bodyFromContent (content : Content) : Option CapturedBody :=
  match content.text with
  | none | some [] => none
  | some text =>
    if content.encoding = some "base64".toList then some (.base64 text) else some (.text text)

/-- The captured response of a `Response`. -/
def responseFrom (response : Response) : CapturedResponse :=
  { status := response.status
    statusText := response.statusText
    headers := headersFrom response.headers
    body := bodyFromContent response.content }

/-- A duration in whole milliseconds. -/
def durationFrom : F64 → UInt64
  | .finite value => if 0 < value then UInt64.ofNat (min value maxDurationMs).floor.toNat else 0
  | .notFinite => 0

/-- The capture of an entry, if it can yield a usable request. -/
def captureFromEntry (upper : Text → Text) (entry : Entry) (id : Text) (fallbackAt : UInt64) :
    Option (Option Capture) :=
  if entry.request.url = [] ∨ entry.request.method = [] then some none
  else
    (parseIso8601 entry.startedDateTime).map fun at? => some
      { id
        atMs := at?.getD fallbackAt
        durationMs := durationFrom entry.time
        session := entry.session
        page := entry.page
        request :=
          { method := upper entry.request.method
            url := entry.request.url
            httpVersion := entry.request.httpVersion
            headers := headersFrom entry.request.headers
            body := entry.request.postData.bind bodyFromPostData }
        response := entry.response.map responseFrom }

/-- The id of an imported capture. -/
def importId (idPrefix : Text) (index : Nat) : Text := idPrefix ++ paddedHex 4 index

/-- The sum of two numbers, at most `u64::MAX`. -/
def saturatingAdd (a b : UInt64) : UInt64 := UInt64.ofNat (min (a.toNat + b.toNat) (2 ^ 64 - 1))

/-- The entries from an index on: the captures, and the number that was skipped. -/
def importFrom (upper : Text → Text) (idPrefix : Text) (nowMs : UInt64) :
    List Entry → Nat → Option (List Capture × Nat)
  | [], _ => some ([], 0)
  | entry :: rest, index => do
    let capture ← captureFromEntry upper entry (importId idPrefix index)
      (saturatingAdd nowMs (UInt64.ofNat index))
    let (captures, skipped) ← importFrom upper idPrefix nowMs rest (index + 1)
    match capture with
    | some capture => some (capture :: captures, skipped)
    | none => some (captures, skipped + 1)

/-- Convert a HAR into captures. Entries that yield no request are skipped and counted. -/
def importLog (upper : Text → Text) (idPrefix : Text) (nowMs : UInt64) (log : Log) :
    Option (List Capture × Nat) :=
  importFrom upper idPrefix nowMs log.entries 0

end Gabriel.Core.Har
