import Gabriel.Cli.Output
import Gabriel.Core.Capture

/-!
# `Gabriel.Cli.Support`: showing a capture

`print_capture` of `gabriel-cli/src/support.rs`, the output of `capture show`.

The definitions:

* `redactCredential`: the value of a header as it is shown: of a sensitive one, the first
  characters.
* `captureHeaderLine`: a header of a capture, on a line of its own.
* `bodyPreview`, `previewLines`: the beginning of a body, or its size when it is no text.
* `printCapture`: the lines of a capture: the request, and the response when there is one.
-/

set_option autoImplicit false

namespace Gabriel.Cli

open Gabriel.Core Gabriel.Engine Text

/-- The headers whose values `capture show` masks. -/
def sensitive : List Text :=
  ["authorization".toList, "cookie".toList, "proxy-authorization".toList, "x-api-key".toList]

/-- A captured header value as it is shown: of a sensitive one, the first characters. -/
def redactCredential (name value : Text) : Text :=
  if asciiLower name ∈ sensitive then value.take 12 ++ "… ••••".toList else value

/-- The size of a captured body: of base64 data, three bytes for every four characters. -/
def capturedLen : CapturedBody → Nat
  | .text content => utf8Len content
  | .base64 data => utf8Len data / 4 * 3

/-- A captured body as it is shown. -/
def bodyPreview (tools : PrintTools) (body : CapturedBody) : Text :=
  match body.asText with
  | some text =>
    match tools.platform.parseJson (Utf8.encode text) with
    | .ok json => truncate (tools.json.pretty json) 4000
    | .error _ => truncate text 4000
  | none => '<' :: formatBytes tools (capturedLen body) ++ " of binary data>".toList

/-- A header of a captured message. -/
def captureHeaderLine (style : Style) (shown : Text × Text → Text) (header : Text × Text) : Text :=
  "  ".toList ++ style.dim (style.safe (header.1 ++ [':'])) ++ ' ' :: style.safe (shown header)

/-- The body of a captured message, when there is one. -/
def previewLines (tools : PrintTools) (style : Style) (body : Option CapturedBody) : List Text :=
  body.elim [] fun body => [[], style.safe (bodyPreview tools body)]

/-- The response of a capture. Its header values are shown as they are. -/
def responseLines (tools : PrintTools) (style : Style) (response : CapturedResponse) :
    List Text :=
  [[], style.bold "response".toList ++ ' ' :: style.status response.status ++ ' ' ::
      style.dim response.statusText]
    ++ response.headers.iterPairs.map (captureHeaderLine style (·.2))
    ++ previewLines tools style response.body

/-- Print a capture. -/
def printCapture (tools : PrintTools) (style : Style) (capture : Capture) : List Text :=
  [style.bold (style.safe capture.request.method) ++ ' ' :: style.safe capture.request.url,
    style.dim "at".toList ++ ' ' :: formatIso8601 capture.atMs]
    ++ (capture.page.map fun page => style.dim "from".toList ++ ' ' :: style.safe page).toList
    ++ (capture.session.map fun session =>
      style.dim "session".toList ++ ' ' :: style.safe session).toList
    ++ [[], style.bold "request".toList]
    ++ capture.request.headers.iterPairs.map
      (captureHeaderLine style fun header => redactCredential header.1 header.2)
    ++ previewLines tools style capture.request.body
    ++ capture.response.elim [] (responseLines tools style)

end Gabriel.Cli
