import Gabriel.Core.Jsonpath
import Gabriel.Engine.Body

/-!
# `Gabriel.Engine.Captures`: binding response values to variables

The response type of `gabriel-core/src/response.rs` and `apply_captures` of
`gabriel-engine/src/lib.rs`. The timings of a response are measured and read by the assertions
and the printed output only, so they are left out.

The definitions:

* `ExecutedResponse`: a response, as assertions and captures see it.
* `setCookieValue`: the value of a cookie that a response sets.
* `captureValue`: what one capture finds in a response.
* `applyCaptures`: bind the values that were found, in the order of the captures.
-/

set_option autoImplicit false

namespace Gabriel.Engine

open Gabriel.Core Text

/-- The result of actually sending a request. -/
structure ExecutedResponse where
  status : UInt16
  statusText : Text
  httpVersion : Text
  headers : FieldMap
  /-- Raw bytes, decompressed. -/
  body : List UInt8
  /-- The URL after redirects. -/
  finalUrl : Text

namespace ExecutedResponse

/-- The body as text, with replacement. -/
def text (response : ExecutedResponse) : Text := Utf8.decodeLossy response.body

/-- The body as JSON, when it is. -/
def json (platform : Platform) (response : ExecutedResponse) : Option Json :=
  match platform.parseJson response.body with
  | .ok json => some json
  | .error _ => none

end ExecutedResponse

/-- The value of one `Set-Cookie` text, when the cookie has this name. -/
def setCookieValue (name text : Text) : Option Text :=
  match splitOnce ['='] text with
  | some (cookieName, rest) =>
    if trim cookieName = name then some (trim ((rest.splitOn ';').head?.getD [])) else none
  | none => none

/-- The text a capture takes out of a response. -/
def captureValue (platform : Platform) (response : ExecutedResponse) (capture : VarCapture) :
    Option Text :=
  match capture.source with
  | .status => some (natText response.status.toNat)
  | .header => capture.path.bind response.headers.getFirst
  | .cookie => capture.path.bind fun name =>
    (response.headers.iterPairs.filter fun e => eqIgnoreAsciiCase e.1 "set-cookie".toList)
      |>.findSome? fun e => setCookieValue name e.2
  | .body =>
    match response.json platform, capture.path with
    | some json, some path =>
      match Jsonpath.select json path with
      | .ok selected => selected.map (Jsonpath.toPlainString platform.renderJson)
      | .error _ => none
    | _, none => some response.text
    | none, some _ => none

/-- The captured variables and their texts, in the order of the captures. -/
def capturedTexts (platform : Platform) (captures : List VarCapture)
    (response : ExecutedResponse) : List (Text × Text) :=
  captures.filterMap fun capture =>
    (captureValue platform response capture).map fun value => (capture.var, value)

/-- Bind response values to variables so that the next request can use them. -/
def applyCaptures (platform : Platform) (spec : RequestSpec) (response : ExecutedResponse)
    (resolver : Resolver) : Resolver × List (Text × Text) :=
  spec.captures.foldl (fun (resolver, captured) capture =>
    match captureValue platform response capture with
    | some value => (resolver.set capture.var value, captured ++ [(capture.var, value)])
    | none => (resolver, captured)) (resolver, [])

end Gabriel.Engine
