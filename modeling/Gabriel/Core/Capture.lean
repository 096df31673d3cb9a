import Gabriel.Core.Model
import Gabriel.Core.Numbers
import Gabriel.Lib.FormUrlencoded

/-!
# `Gabriel.Core.Capture`: captured traffic and its promotion

The capture types of `gabriel-core/src/capture.rs` and the path from a capture to an editable
request. A call that can panic returns an `Option`, with `none` for the panic: `percentDecode`
slices its input at a byte offset, and the offset may fall inside a character.

Two functions of the platform are arguments: `upper`, the upper-case mapping of a text, and
`nowMs`, the reading of the clock.

The definitions:

* `Capture`: a request, its response if there was one, and when it was captured.
* `percentDecode`: the decoder of a component of a URL or a form.
* `suggestName`, `suggestSecretName`: names that are made from a URL and from a host.
* `bodyFromCapture`: the body of a request file from the body that was captured.
* `promoteHeaders`, `promoteUrl`, `promoteBody`: the three parts of a promotion.
* `promote`: a capture as a request, with its credentials taken out.
-/

set_option autoImplicit false

namespace Gabriel.Core

open Text
open FormUrlencoded (hexDigit)

/-! ### Capture types -/

/-- A body kept as text when it is text, and as base64 when it is not. -/
inductive CapturedBody where
  | text (content : Text)
  | base64 (data : Text)
  deriving DecidableEq

/-- The text of the body, when it is text. -/
def CapturedBody.asText : CapturedBody → Option Text
  | .text content => some content
  | .base64 _ => none

/-- The bytes of the body. `b64Decode` gives `none` on a text that is not base64. -/
def CapturedBody.bytes (b64Decode : Text → Option (List UInt8)) : CapturedBody → List UInt8
  | .text content => Utf8.encode content
  | .base64 data => (b64Decode data).getD []

/-- The request half of a capture. -/
structure CapturedRequest where
  method : Text
  url : Text
  httpVersion : Text
  headers : FieldMap
  body : Option CapturedBody
  deriving DecidableEq

/-- The response half of a capture. -/
structure CapturedResponse where
  status : UInt16
  statusText : Text
  headers : FieldMap
  body : Option CapturedBody
  deriving DecidableEq

/-- One request and its response, as the proxy observed them. -/
structure Capture where
  id : Text
  /-- Epoch milliseconds. -/
  atMs : UInt64
  durationMs : UInt64
  /-- The key under which cookies are held. -/
  session : Option Text
  page : Option Text
  request : CapturedRequest
  response : Option CapturedResponse
  deriving DecidableEq

/-- The status of the response, when there is one. -/
def Capture.status (capture : Capture) : Option UInt16 := capture.response.map (·.status)

/-- The host portion of the request URL. -/
def Capture.host (capture : Capture) : Text :=
  let url := capture.request.url
  let rest := ((splitOnce "://".toList url).map (·.2)).getD url
  rest.takeWhile fun c => c ∉ "/?#".toList

/-! ### Percent decoding -/

/-- `u8::from_str_radix` on two bytes, base 16. A leading `+` is a sign. -/
def fromHexPair (a b : UInt8) : Option UInt8 :=
  if a = 0x2B then (hexDigit b).map UInt8.ofNat
  else do
    let hi ← hexDigit a
    let lo ← hexDigit b
    some (UInt8.ofNat (hi * 16 + lo))

/-- Whether a slice may end in front of these bytes: not inside a character. -/
def isCharBoundary (rest : List UInt8) : Bool := !(rest.head?.any Utf8.isContinuation)

/-- The byte loop of `percent_decode`. -/
def percentDecodeBytes : List UInt8 → Option (List UInt8)
  | [] => some []
  | 0x25 :: a :: b :: rest =>
    if isCharBoundary (a :: b :: rest) ∧ isCharBoundary rest then
      match fromHexPair a b with
      | some byte => (percentDecodeBytes rest).map (byte :: ·)
      | none => (percentDecodeBytes (a :: b :: rest)).map (0x25 :: ·)
    else none
  | byte :: rest =>
    (percentDecodeBytes rest).map ((if byte = 0x2B then 0x20 else byte) :: ·)

/-- Decode `%XX` and `+`. -/
def percentDecode (input : Text) : Option Text :=
  (percentDecodeBytes (Utf8.encode input)).map Utf8.decodeLossy

/-- Split at the first `=` and decode both sides; without a `=` the value is empty. -/
def decodePair (pair : Text) : Option (Text × Text) := do
  let (k, v) := (splitOnce ['='] pair).getD (pair, [])
  let key ← percentDecode k
  let value ← percentDecode v
  some (key, value)

/-- The nonempty pieces between the `&`. -/
def pairTexts (query : Text) : List Text := (query.splitOn '&').filter (· ≠ [])

/-! ### Splitting a URL -/

/-- Cut a fragment off: what stands before the first `#`, and what stands after it. -/
def splitFragment (query : Text) : Text × Option Text :=
  match splitOnce ['#'] query with
  | some (q, f) => (q, some f)
  | none => (query, none)

/-- Put a fragment back. -/
def joinFragment (base : Text) : Option Text → Text
  | some f => base ++ '#' :: f
  | none => base

/-- Cut the query out of a URL: what is left, and the decoded parameters. -/
def splitQuery (url : Text) : Option (Text × FieldMap) :=
  match splitOnce ['?'] url with
  | none => some (url, .empty)
  | some (base, rest) =>
    let (query, fragment) := splitFragment rest
    ((pairTexts query).mapM decodePair).map fun pairs =>
      (joinFragment base fragment, FieldMap.fromIter pairs)

/-- Split `https://api.test/v1/users` into `https://api.test` and `/v1/users`. -/
def splitOrigin (url : Text) : Option (Text × Text) := do
  let (scheme, rest) ← splitOnce "://".toList url
  let host := rest.takeWhile (· ≠ '/')
  some (scheme ++ "://".toList ++ host, rest.dropWhile (· ≠ '/'))

/-- A label for a request: the method and the last two segments of the path. -/
def suggestName (upper : Text → Text) (method url : Text) : Text :=
  let path := ((splitOrigin url).map (·.2)).getD url
  let path := path.takeWhile (· ≠ '?')
  let tail := (path.splitOn '/').filter (· ≠ [])
  let label :=
    if tail = [] then "root".toList else List.intercalate ['/'] (tail.drop (tail.length - 2))
  upper method ++ ' ' :: label

/-- Drop every leading occurrence of a prefix, looking at most `fuel` times. -/
def trimStartMatches (pat : Text) : Nat → Text → Text
  | 0, t => t
  | fuel + 1, t => if pat <+: t then trimStartMatches pat fuel (t.drop pat.length) else t

/-- Drop a character on both sides. -/
def trimMatches (c : Char) (t : Text) : Text := (t.dropWhile (· == c)).rdropWhile (· == c)

/-- A vault name for the credential of a URL's host. -/
def suggestSecretName (url : Text) : Text :=
  let host := ((splitOrigin url).map (·.1)).getD url
  let host := trimStartMatches "https://".toList host.length host
  let host := trimStartMatches "http://".toList host.length host
  let slug := host.map fun c => if c.isAlphanum then c.toLower else '_'
  trimMatches '_' slug ++ "_token".toList

/-! ### Promotion -/

/-- Headers that describe this hop rather than the request's intent. -/
def hopByHop : List Text :=
  ["host".toList, "content-length".toList, "connection".toList, "keep-alive".toList,
    "proxy-authorization".toList, "proxy-connection".toList, "transfer-encoding".toList,
    "te".toList, "trailer".toList, "upgrade".toList, "accept-encoding".toList]

/-- What to inline, and the variable for the origin. -/
structure PromoteOptions where
  inlineCookies : Bool := false
  inlineToken : Bool := false
  baseUrlVar : Option Text := some "base_url".toList

/-- The result of a promotion: a request to save, and what was not written into it. -/
structure Promotion where
  spec : RequestSpec
  /-- Suggested vault entries. -/
  secrets : List (Text × Text)
  /-- Suggested environment variables. -/
  vars : List (Text × Text)
  session : Option Text

/-- The body of a promoted request. -/
def bodyFromCapture (body : CapturedBody) (contentType : Text) : Option Body :=
  let ct := asciiLower contentType
  match body.asText with
  | some content =>
    if "json".toList <:+: ct then some (.json content)
    else if "x-www-form-urlencoded".toList <:+: ct then
      ((pairTexts content).mapM decodePair).map fun pairs => .form (SortedMap.ofList pairs)
    else if "graphql".toList <:+: ct then some (.json content)
    else some (.text content (if ct = [] then none else some contentType))
  | none => some (.text [] (some contentType))

/-- A reference `{{name}}`. -/
def templateRef (name : Text) : Text := "\x7b\x7b".toList ++ name ++ "\x7d\x7d".toList

/-- A reference `{{secret:name}}`. -/
def secretRef (name : Text) : Text := templateRef ("secret:".toList ++ name)

/-- What the header loop has collected so far. -/
structure HeaderLoop where
  headers : FieldMap
  auth : Option Auth
  secrets : List (Text × Text)

namespace Capture

/-- One header of the captured request. -/
def promoteHeader (capture : Capture) (opts : PromoteOptions) (acc : HeaderLoop)
    (header : Text × Text) : HeaderLoop :=
  let (key, value) := header
  let lower := asciiLower key
  if lower ∈ hopByHop then acc
  else if lower = "cookie".toList ∧ ¬ opts.inlineCookies then
    -- The cookies stay in the session store; the file refers to it.
    { acc with auth := some (acc.auth.getD (.session capture.session)) }
  else if lower = "authorization".toList then
    if "Bearer ".toList <+: value then
      let token := trim (value.drop "Bearer ".toList.length)
      if opts.inlineToken then { acc with auth := some (.bearer token) }
      else
        let name := suggestSecretName capture.request.url
        { acc with
          secrets := acc.secrets ++ [(name, token)], auth := some (.bearer (secretRef name)) }
    else if opts.inlineToken then { acc with headers := acc.headers.insert key value }
    else
      let name := suggestSecretName capture.request.url
      { acc with
        secrets := acc.secrets ++ [(name, value)],
        headers := acc.headers.insert key (secretRef name) }
  else { acc with headers := acc.headers.insert key value }

/-- The header loop of `promote`. -/
def promoteHeaders (capture : Capture) (opts : PromoteOptions) : HeaderLoop :=
  capture.request.headers.iterPairs.foldl (capture.promoteHeader opts) ⟨.empty, none, []⟩

/-- The content type of the captured request, or the empty text. -/
def contentType (capture : Capture) : Text :=
  (capture.request.headers.getFirst "content-type".toList).getD []

/-- The URL of the promoted request, and the variable for its origin. -/
def promoteUrl (opts : PromoteOptions) (url : Text) : Text × List (Text × Text) :=
  match opts.baseUrlVar, splitOrigin url with
  | some var, some (origin, path) => (templateRef var ++ path, [(var, origin)])
  | _, _ => (url, [])

/-- The body of the promoted request, when one was captured. -/
def promoteBody (capture : Capture) : Option (Option Body) :=
  match capture.request.body with
  | some body => (bodyFromCapture body capture.contentType).map some
  | none => some none

/-- Turn observed traffic into an editable, committable request. -/
def promote (upper : Text → Text) (nowMs : UInt64) (capture : Capture) (opts : PromoteOptions) :
    Option Promotion := do
  let (base, query) ← splitQuery capture.request.url
  let (url, vars) := promoteUrl opts base
  let loop := capture.promoteHeaders opts
  let body ← capture.promoteBody
  let spec : RequestSpec :=
    { RequestSpec.new upper capture.request.method url with
      name := some (suggestName upper capture.request.method capture.request.url)
      query, headers := loop.headers, auth := loop.auth, body
      origin := some { capture := capture.id, promotedAt := nowMs, page := capture.page } }
  some { spec, secrets := loop.secrets, vars, session := capture.session }

end Capture

example : percentDecode "ada%20l+%".toList = some "ada l %".toList := by decide

example : splitOrigin "https://api.test/v1?x=a/b".toList
    = some ("https://api.test".toList, "/v1?x=a/b".toList) := by decide

end Gabriel.Core
