import Gabriel.Core.Capture
import Gabriel.Engine.Http

/-!
# `Gabriel.Proxy.Relay`: one request through the capture proxy

The functions of `gabriel-proxy/src/lib.rs` that a request passes: the scope test, `CONNECT`, the
upgrade test, `relay_upgrade` and `forward`. The HTTP library holds a header as a lower-case name
and bytes; a capture holds texts.

A relay waits twice: for the head of the response, and for its body. Other requests may be
served in between, so each relay is in two parts, `…Head` up to the head of the response and
`…Rest` after it; `dispatch` is one after the other.

`Encounter` is what happens outside the proxy to one request: how its body arrives, whether the
upstream can be reached, its answer, and the readings of the clock. `ProxyState` is what the
proxy keeps. It also keeps what the source does not store: every request that set out for an
upstream (`wire`), every capture given to the log (`captures`), and every store that was saved
(`saves`), oldest first. An append or a save that fails is ignored by the source. Building a
response from the texts of header values does not fail, and a splice of two sockets does not
come back; both are left out.
-/

set_option autoImplicit false

namespace Gabriel.Proxy

open Gabriel.Core Gabriel.Engine Text

/-! ### Configuration -/

/-- What the proxy was started with. -/
structure ProxyConfig where
  /-- Session name that captured cookies are filed under. -/
  session : Text
  /-- Hosts to tunnel without decrypting. -/
  exclude : List Text := []
  /-- When set, only these hosts are intercepted. -/
  only : List Text := []
  /-- Bodies over this size are not kept. -/
  maxBodyBytes : Nat := 8 * 1024 * 1024

/-- Whether a lower-case host is the pattern, or below it. -/
def matchesPattern (host pattern : Text) : Bool :=
  let pattern := asciiLower pattern
  host == pattern || ('.' :: pattern).isSuffixOf host

/-- Whether the traffic of a host is to be read. -/
def ProxyConfig.intercepts (config : ProxyConfig) (host : Text) : Bool :=
  let host := asciiLower host
  if config.exclude.any (matchesPattern host) then false
  else config.only.isEmpty || config.only.any (matchesPattern host)

/-! ### Headers -/

/-- Headers as the HTTP library holds them. -/
structure HeaderMap where
  entries : List (Text × List UInt8)
  /-- Names are lower-case. -/
  lowercase : ∀ e ∈ entries, asciiLower e.1 = e.1

/-- The first value of a name. -/
def HeaderMap.get (headers : HeaderMap) (name : Text) : Option (List UInt8) :=
  (headers.entries.find? fun e => e.1 = name).map (·.2)

/-- The bytes that `to_str` accepts. -/
def isVisibleAscii (b : UInt8) : Bool := (32 ≤ b.toNat && b.toNat < 127) || b == 9

/-- A header value as a text, when all its bytes are visible ASCII. -/
def toStr (value : List UInt8) : Option Text :=
  if value.all isVisibleAscii then some (value.map fun b => Char.ofNat b.toNat) else none

/-- What a value that is not a text is recorded as. -/
def binaryHeaderValue : Text := "<binary header value>".toList

/-- The text a header value is recorded as. -/
def headerText (value : List UInt8) : Text := (toStr value).getD binaryHeaderValue

/-- The headers as texts, in their order. -/
def HeaderMap.texts (headers : HeaderMap) : List (Text × Text) :=
  headers.entries.map fun e => (e.1, headerText e.2)

/-- The headers as a capture records them. -/
def HeaderMap.toFieldMap (headers : HeaderMap) : FieldMap := FieldMap.fromIter headers.texts

/-- Headers that describe one connection. -/
def hopByHopNames : List Text :=
  ["connection".toList, "keep-alive".toList, "proxy-authenticate".toList,
    "proxy-authorization".toList, "proxy-connection".toList, "te".toList, "trailer".toList,
    "transfer-encoding".toList, "upgrade".toList]

/-- Whether a header describes the connection. -/
def isHopByHop (name : Text) : Bool := asciiLower name ∈ hopByHopNames

/-- Whether a header of the response is left out for the browser. -/
def isDropped (name : Text) : Bool :=
  isHopByHop name || eqIgnoreAsciiCase name "content-length".toList

/-- The recorded headers, as headers of a response. -/
def rebuilt (pairs : List (Text × Text)) : List (Text × List UInt8) :=
  pairs.map fun e => (e.1, Utf8.encode e.2)

/-! ### Messages -/

/-- The target of a request. -/
structure Uri where
  text : Text
  authority : Option Text
  pathAndQuery : Option Text
  /-- A path and query starts with `/` or `?`, or is `*`. -/
  form : ∀ p ∈ pathAndQuery, p = ['*'] ∨ p.head? = some '/' ∨ p.head? = some '?'

/-- The head of a request from the browser. -/
structure BrowserRequest where
  method : Text
  uri : Uri
  version : Text
  headers : HeaderMap

/-- A request that sets out for an upstream. -/
structure UpstreamRequest where
  host : Text
  port : UInt16
  method : Text
  target : Text
  headers : List (Text × List UInt8)
  body : List UInt8

/-- The response of an upstream: its body, or the error of reading it. -/
structure UpstreamResponse where
  status : UInt16
  headers : HeaderMap
  body : Except Text (List UInt8)

/-- The body of a response to the browser. -/
inductive ProxyBody where
  | buffered (bytes : List UInt8)
  /-- The bytes of the upstream, or an error in the middle of them. -/
  | streamed (body : Except Text (List UInt8))
  | empty

/-- A response to the browser. -/
structure ProxyResponse where
  status : UInt16
  headers : List (Text × List UInt8)
  body : ProxyBody

/-! ### Surroundings -/

/-- The libraries. -/
structure HttpLib (Url : Type) where
  urls : UrlLib Url
  /-- The part of a URL after its authority. -/
  beforePath : Url → Text
  /-- How the client reports a URL that it cannot use. -/
  builderError : Text → Text
  canonicalReason : UInt16 → Option Text
  b64Encode : List UInt8 → Text

/-- The clock, as a record of a capture reads it. -/
structure Readings where
  idMs : UInt64
  atMs : UInt64
  elapsedMs : UInt64

/-- What happens outside the proxy to one request. An error is its text. -/
structure Encounter where
  requestBody : Except Text (List UInt8)
  methodError : Option Text
  buildError : Option Text
  connectError : Option Text
  serverNameError : Option Text
  tlsError : Option Text
  handshakeError : Option Text
  answer : Except Text UpstreamResponse
  /-- The readings that recording its cookies takes. -/
  clock : Nat → UInt64
  readings : Readings

/-- What the proxy keeps. -/
structure ProxyState where
  sessions : SessionStore
  counter : UInt64 := 0
  wire : List UpstreamRequest := []
  captures : List Capture := []
  saves : List SessionStore := []

/-- A request sets out for an upstream. -/
def ProxyState.setOut (state : ProxyState) (request : UpstreamRequest) : ProxyState :=
  { state with wire := state.wire ++ [request] }

/-- A capture is given to the log. -/
def ProxyState.append (state : ProxyState) (capture : Capture) : ProxyState :=
  { state with captures := state.captures ++ [capture], counter := state.counter + 1 }

/-! ### Captures -/

/-- A number in base 16. -/
def hexText (n : Nat) : Text := Nat.toDigits 16 n

/-- The id of a capture. -/
def captureId (nowMs sequence : UInt64) : Text :=
  let low := hexText (sequence &&& 0xffff).toNat
  'c' :: hexText nowMs.toNat ++ (List.replicate (4 - low.length) '0' ++ low)

/-- `CapturedBody::from_bytes`. -/
def bodyFromBytes (b64Encode : List UInt8 → Text) (bytes : List UInt8) : Option CapturedBody :=
  if bytes = [] then none
  else match Utf8.decode? bytes with
    | some text => some (.text text)
    | none => some (.base64 (b64Encode bytes))

/-- The body as a capture keeps it. -/
def bodyForCapture (b64Encode : List UInt8 → Text) (bytes : List UInt8) (max : Nat) :
    Option CapturedBody :=
  if bytes = [] ∨ max < bytes.length then none else bodyFromBytes b64Encode bytes

/-- Whether a response body has to be passed through rather than collected. -/
def streamsIndefinitely (headers : FieldMap) (maxBodyBytes : Nat) : Bool :=
  let contentType := asciiLower ((headers.getFirst "content-type".toList).getD [])
  if "text/event-stream".toList <+: contentType
      ∨ "multipart/x-mixed-replace".toList <+: contentType
      ∨ "application/grpc".toList <+: contentType then true
  else ((headers.getFirst "content-length".toList).bind parseUsize).any fun length =>
    decide (maxBodyBytes < length)

/-! ### Responses of the proxy itself -/

/-- A response with a message of the proxy. -/
def statusResponse (status : UInt16) (message : Text) : ProxyResponse where
  status := status
  headers := [("content-type".toList, Utf8.encode "text/plain; charset=utf-8".toList)]
  body := .buffered (Utf8.encode ("gabriel proxy: ".toList ++ message ++ ['\n']))

/-- The upstream could not be asked. -/
def badGateway (message : Text) : ProxyResponse := statusResponse 502 message

/-! ### `CONNECT` -/

/-- A connection through the proxy. -/
inductive Tunnel where
  /-- TLS ends here, with a certificate for this host. -/
  | intercepted (host : Text)
  /-- The bytes are spliced to this authority. -/
  | blind (authority : Text)
  deriving DecidableEq

/-- The host of an authority: what stands before the first colon. -/
def connectHost (authority : Text) : Text := authority.takeWhile (· ≠ ':')

/-- `CONNECT host:443`: intercept, or splice and stay out of it. -/
def handleConnect (config : ProxyConfig) (request : BrowserRequest) :
    ProxyResponse × Option Tunnel :=
  match request.uri.authority with
  | none => (statusResponse 400 "CONNECT without an authority".toList, none)
  | some authority =>
    let host := connectHost authority
    (⟨200, [], .empty⟩,
      some (if config.intercepts host then .intercepted host else .blind authority))

/-- The absolute URL of a request inside an intercepted tunnel. -/
def innerUrl (host : Text) (request : BrowserRequest) : Text :=
  "https://".toList ++ host ++ request.uri.pathAndQuery.getD ['/']

/-- Where a blind tunnel connects to: host and port, split at the last colon. -/
def tunnelAddress (authority : Text) : Option (Text × UInt16) := do
  let index ← rfind ':' authority
  let port ← parseUsize (authority.drop (index + 1))
  if port < 65536 then some (authority.take index, UInt16.ofNat port) else none

/-! ### Upgrades -/

/-- The protocol that a request asks to change to. -/
def upgradeTarget (headers : HeaderMap) : Option Text :=
  let connection :=
    asciiLower (((headers.get "connection".toList).bind toStr).getD [])
  -- A list of tokens: `upgrade-insecure-requests` is not one of them.
  if (connection.splitOn ',').any fun token => trim token = "upgrade".toList then
    ((headers.get "upgrade".toList).bind toStr).map asciiLower
  else none

/-- The headers of a handshake that travel: `Connection` and `Upgrade` are the handshake. -/
def handshakeHeaders (headers : HeaderMap) : List (Text × List UInt8) :=
  headers.entries.filter fun e => !isHopByHop e.1
    || eqIgnoreAsciiCase e.1 "connection".toList || eqIgnoreAsciiCase e.1 "upgrade".toList

/-- Why the upstream of an upgrade cannot be talked to. -/
def upgradeConnectError (isTls : Bool) (host : Text) (port : UInt16) (encounter : Encounter) :
    Option Text :=
  match encounter.connectError with
  | some e => some ("connecting to ".toList ++ host ++ ':' :: natText port.toNat
      ++ " failed: ".toList ++ e)
  | none =>
    match isTls, encounter.serverNameError, encounter.tlsError with
    | true, some e, _ => some (host ++ " is not a valid server name: ".toList ++ e)
    | true, none, some e => some ("TLS handshake with ".toList ++ host ++ " failed: ".toList ++ e)
    | _, _, _ => encounter.handshakeError.map fun e =>
        "HTTP handshake with ".toList ++ host ++ " failed: ".toList ++ e

section Relays

variable {Url : Type} (lib : HttpLib Url) (config : ProxyConfig)

/-- The response half of a capture. -/
def capturedResponse (response : UpstreamResponse) (body : Option CapturedBody) :
    CapturedResponse where
  status := response.status
  statusText := (lib.canonicalReason response.status).getD []
  headers := response.headers.toFieldMap
  body := body

/-- The capture of an upgrade: the handshake alone. -/
def upgradeCapture (state : ProxyState) (request : BrowserRequest) (url : Text)
    (response : UpstreamResponse) (readings : Readings) : Capture where
  id := captureId readings.idMs state.counter
  atMs := readings.atMs
  durationMs := 0
  session := some config.session
  page := none
  request :=
    { method := request.method, url, httpVersion := request.version,
      headers := request.headers.toFieldMap, body := none }
  response := some (capturedResponse lib response none)

/-- Relay a protocol upgrade, up to the head of the response. -/
def relayUpgradeHead (state : ProxyState) (request : BrowserRequest) (url : Text)
    (encounter : Encounter) : ProxyState × Except Text UpstreamResponse :=
  match lib.urls.parse url with
  | .error e => (state, .error (url ++ ": ".toList ++ e))
  | .ok parsed =>
    match lib.urls.hostStr parsed with
    | none => (state, .error (url ++ " has no host".toList))
    | some host =>
      let port := (lib.urls.portOrKnownDefault parsed).getD 80
      let scheme := lib.urls.scheme parsed
      let isTls := scheme == "https".toList || scheme == "wss".toList
      match encounter.buildError with
      | some e => (state, .error ("building the upgrade request failed: ".toList ++ e))
      | none =>
        let state := state.setOut
          { host, port, method := request.method, target := lib.beforePath parsed,
            headers := handshakeHeaders request.headers, body := [] }
        match upgradeConnectError isTls host port encounter with
        | some e => (state, .error e)
        | none =>
          match encounter.answer with
          | .error e =>
            (state, .error ("upgrade request to ".toList ++ url ++ " failed: ".toList ++ e))
          | .ok response =>
            (state.append (upgradeCapture lib config state request url response
              encounter.readings), .ok response)

/-- The answer to an upgrade, for the browser. -/
def relayUpgradeRest (response : UpstreamResponse) : ProxyResponse :=
  let pairs := response.headers.toFieldMap.iterPairs
  if response.status ≠ 101 then
    -- The server declined: its answer is an ordinary response.
    { status := response.status, headers := rebuilt (pairs.filter fun e => !isDropped e.1)
      body := .buffered (response.body.toOption.getD []) }
  else { status := 101, headers := rebuilt pairs, body := .empty }

/-- What `forward` holds once the head of the response is there. -/
structure Forwarded where
  method : Text
  url : Text
  httpVersion : Text
  requestHeaders : FieldMap
  page : Option Text
  requestBody : List UInt8
  response : UpstreamResponse

/-- The page a request comes from: the last `Referer`. -/
def pageOf (headers : HeaderMap) : Option Text :=
  ((headers.texts.filter fun e => eqIgnoreAsciiCase e.1 "referer".toList).map (·.2)).getLast?

/-- The `Set-Cookie` texts of a response. -/
def setCookies (headers : HeaderMap) : List Text :=
  (headers.texts.filter fun e => eqIgnoreAsciiCase e.1 "set-cookie".toList).map (·.2)

/-- Record the cookies the browser was just given, and save them. -/
def recordCookies (state : ProxyState) (url : Text) (cookies : List Text)
    (clock : Nat → UInt64) : ProxyState :=
  if cookies = [] then state
  else match lib.urls.parse url with
    | .error _ => state
    | .ok parsed =>
      let host := (lib.urls.hostStr parsed).getD []
      let sessions := (state.sessions.recordSetCookies config.session host
        (lib.urls.path parsed) clock cookies).1
      { state with sessions, saves := state.saves ++ [sessions] }

/-- Send a request upstream, up to the head of the response. -/
def forwardHead (state : ProxyState) (request : BrowserRequest) (url : Text)
    (encounter : Encounter) : ProxyState × Except Text Forwarded :=
  match encounter.requestBody with
  | .error e => (state, .error ("reading the request body failed: ".toList ++ e))
  | .ok requestBody =>
    match encounter.methodError with
    | some e => (state, .error ("unsupported method: ".toList ++ e))
    | none =>
      let failed (e : Text) : Text := "upstream request to ".toList ++ url
          ++ " failed: ".toList ++ e
      match lib.urls.parse url with
      | .error _ => (state, .error (failed (lib.builderError url)))
      | .ok parsed =>
        match lib.urls.hostStr parsed with
        | none => (state, .error (failed (lib.builderError url)))
        | some host =>
          let state := state.setOut
            { host, port := (lib.urls.portOrKnownDefault parsed).getD 80,
              method := request.method, target := lib.urls.toText parsed,
              headers := request.headers.entries.filter fun e => !isHopByHop e.1,
              body := requestBody }
          match encounter.answer with
          | .error e => (state, .error (failed e))
          | .ok response =>
            (recordCookies lib config state url (setCookies response.headers) encounter.clock,
              .ok { method := request.method, url, httpVersion := request.version,
                    requestHeaders := request.headers.toFieldMap,
                    page := pageOf request.headers, requestBody, response })

/-- The capture of a forwarded request. -/
def forwardCapture (state : ProxyState) (forwarded : Forwarded)
    (responseBody : Option (List UInt8)) (readings : Readings) : Capture where
  id := captureId readings.idMs state.counter
  atMs := readings.atMs
  durationMs := readings.elapsedMs
  session := some config.session
  page := forwarded.page
  request :=
    { method := forwarded.method, url := forwarded.url, httpVersion := forwarded.httpVersion,
      headers := forwarded.requestHeaders,
      body := bodyForCapture lib.b64Encode forwarded.requestBody config.maxBodyBytes }
  response := some (capturedResponse lib forwarded.response
    (responseBody.bind fun bytes => bodyForCapture lib.b64Encode bytes config.maxBodyBytes))

/-- Record the exchange and hand the response back to the browser. -/
def forwardRest (state : ProxyState) (forwarded : Forwarded) (readings : Readings) :
    ProxyState × Except Text ProxyResponse :=
  let response := forwarded.response
  let fields := response.headers.toFieldMap
  let headers := rebuilt (fields.iterPairs.filter fun e => !isDropped e.1)
  if streamsIndefinitely fields config.maxBodyBytes then
    (state.append (forwardCapture lib config state forwarded none readings),
      .ok { status := response.status, headers, body := .streamed response.body })
  else match response.body with
    | .error e => (state, .error ("reading the response body failed: ".toList ++ e))
    | .ok bytes =>
      (state.append (forwardCapture lib config state forwarded (some bytes) readings),
        .ok { status := response.status, headers, body := .buffered bytes })

/-- Relay a protocol upgrade. -/
def relayUpgrade (state : ProxyState) (request : BrowserRequest) (url : Text)
    (encounter : Encounter) : ProxyState × Except Text ProxyResponse :=
  let head := relayUpgradeHead lib config state request url encounter
  (head.1, head.2.map relayUpgradeRest)

/-- Send the request upstream, record it, and hand the response back to the browser. -/
def forward (state : ProxyState) (request : BrowserRequest) (url : Text) (encounter : Encounter)
    (readings : Readings) : ProxyState × Except Text ProxyResponse :=
  match forwardHead lib config state request url encounter with
  | (state, .error e) => (state, .error e)
  | (state, .ok forwarded) => forwardRest lib config state forwarded readings

/-- What the proxy holds between the head of a response and its delivery. -/
inductive Head where
  | upgraded (response : UpstreamResponse)
  | forwarded (forwarded : Forwarded)

/-- Route a request, up to the head of the response: an upgrade is relayed, everything else is
forwarded. -/
def dispatchHead (state : ProxyState) (request : BrowserRequest) (url : Text)
    (encounter : Encounter) : ProxyState × Except Text Head :=
  if (upgradeTarget request.headers).isSome then
    let head := relayUpgradeHead lib config state request url encounter
    (head.1, head.2.map .upgraded)
  else
    let head := forwardHead lib config state request url encounter
    (head.1, head.2.map .forwarded)

/-- Deliver what the upstream answered. -/
def dispatchRest (state : ProxyState) (head : Except Text Head) (readings : Readings) :
    ProxyState × ProxyResponse :=
  match head with
  | .error e => (state, badGateway e)
  | .ok (.upgraded response) => (state, relayUpgradeRest response)
  | .ok (.forwarded forwarded) =>
    match forwardRest lib config state forwarded readings with
    | (state, .error e) => (state, badGateway e)
    | (state, .ok response) => (state, response)

/-- Route one request: an upgrade gets spliced, everything else is forwarded. -/
def dispatch (state : ProxyState) (request : BrowserRequest) (url : Text) (encounter : Encounter)
    (readings : Readings) : ProxyState × ProxyResponse :=
  let result :=
    if (upgradeTarget request.headers).isSome then
      relayUpgrade lib config state request url encounter
    else forward lib config state request url encounter readings
  match result with
  | (state, .error e) => (state, badGateway e)
  | (state, .ok response) => (state, response)

/-- A request is served in two parts. -/
theorem dispatch_eq (state : ProxyState) (request : BrowserRequest) (url : Text)
    (encounter : Encounter) (readings : Readings) :
    dispatch lib config state request url encounter readings
      = dispatchRest lib config (dispatchHead lib config state request url encounter).1
        (dispatchHead lib config state request url encounter).2 readings := by
  unfold dispatch dispatchHead
  by_cases hupgrade : (upgradeTarget request.headers).isSome = true
  · rw [if_pos hupgrade, if_pos hupgrade, relayUpgrade]
    cases relayUpgradeHead lib config state request url encounter with
    | mk after result => cases result <;> rfl
  · rw [if_neg hupgrade, if_neg hupgrade, forward]
    cases forwardHead lib config state request url encounter with
    | mk after result => cases result <;> rfl

end Relays

end Gabriel.Proxy
