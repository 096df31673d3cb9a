import Gabriel.Engine.Body
import Gabriel.Engine.Session

/-!
# `Gabriel.Engine.Http`: the network as the engine sees it

What `gabriel-engine/src/lib.rs` uses of the HTTP library: URLs, clients, requests and responses.
`UrlLib` and `Network` stand for the library and for the servers; a server answers with any
function of what was put on the wire so far.

`EngineState` is what a run of requests changes: the resolver, the sessions, the pooled clients
and the cached tokens. It also keeps `wire`, every request that was put on the wire, oldest
first, which the source does not store. What the client adds to a request by itself (`Host`,
`User-Agent`, `Accept`, `Content-Length`) is not part of it.

The definitions:

* `WireRequest`, `RawResponse`: a request as it was sent, and its response.
* `Network`: the servers and the client library.
* `send`: put a request on the wire.
* `recordInto`: store the cookies of a response.
* `scriptedNetwork`, `plainResponse`: a small network for examples.
-/

set_option autoImplicit false

namespace Gabriel.Engine

open Gabriel.Core Text Fallible

/-- The URL library. -/
structure UrlLib (Url : Type) where
  parse : Text → Except Text Url
  /-- Resolve a reference against a base. -/
  join : Url → Text → Except Text Url
  scheme : Url → Text
  hostStr : Url → Option Text
  portOrKnownDefault : Url → Option UInt16
  path : Url → Text
  /-- Append form-encoded pairs to the query. -/
  appendPairs : Url → List (Text × Text) → Url
  toText : Url → Text

/-- A request on the wire. -/
structure WireRequest (Url : Type) where
  method : Text
  url : Url
  headers : List (Text × Text)
  body : Option (List UInt8)
  deriving DecidableEq

/-- A response, before its body is read. A header value that is not text is `none`. -/
structure RawResponse where
  status : UInt16
  version : Text
  url : Text
  headers : List (Text × Option Text)
  /-- The body, or the error of reading it. -/
  body : Except Text (List UInt8)

/-- An error of the client, as it prints itself and with the causes behind it. -/
structure TransportError where
  display : Text
  described : Text

/-- Everything about a client that a request can change. -/
structure ClientKey where
  timeoutMs : UInt64
  verifyTls : Bool
  proxy : Option Text
  /-- Streaming clients have no total-request timeout. -/
  streaming : Bool
  /-- The fingerprint of the client certificate. -/
  identity : Option UInt64
  deriving DecidableEq

/-- A client certificate and its private key, as PEM. -/
structure IdentityMaterial where
  fingerprint : UInt64
  pem : List UInt8

/-- The HTTP library, the clock and the servers. -/
structure Network (Url : Type) where
  urls : UrlLib Url
  /-- The readings of the clock, in order. -/
  clock : Nat → UInt64
  /-- Why a text is not a method. -/
  methodError : Text → Option Text
  proxyError : Text → Option Text
  identityError : List UInt8 → Option Text
  clientError : ClientKey → Option Text
  /-- Why the client of the token requests cannot be built. -/
  tokenClientError : Option Text
  /-- How the client reports a request that it could not build from a text. -/
  builderError : Text → Text
  /-- Why a request cannot be sent as it is: a header that is not one. -/
  requestError : WireRequest Url → Option Text
  /-- Encode the pairs of a form. -/
  encodeForm : List (Text × Text) → Text
  /-- The answer to the last of the requests on the wire. -/
  respond : List (WireRequest Url) → Except TransportError RawResponse
  /-- The body of a response as text, in the encoding that the response names. -/
  bodyText : RawResponse → Option Text
  canonicalReason : UInt16 → Option Text
  fingerprint : List UInt8 → UInt64

/-- A token from a token endpoint. -/
structure CachedToken where
  token : Text
  /-- Epoch milliseconds. -/
  expiresAtMs : UInt64

/-- The state that a run of requests changes. -/
structure EngineState (Url : Type) where
  resolver : Resolver
  sessions : SessionStore
  /-- The pooled clients. -/
  clients : List ClientKey
  oauthTokens : SortedMap Text CachedToken
  /-- Clock readings so far. -/
  ticks : Nat
  /-- What was put on the wire so far. -/
  wire : List (WireRequest Url)

/-- What a request needs to know about the world outside its own file. -/
structure RunContext where
  /-- The session for `auth = "session"` without a name. -/
  session : Text
  /-- Whether `Set-Cookie` updates the session store. -/
  recordCookies : Bool := true
  /-- Root for relative body-file paths. -/
  baseDir : Text

/-- A call that may fail and changes the state either way. -/
abbrev EngineM (Url α : Type) := Call EngineError (EngineState Url) α

variable {Url : Type}

/-- A call on the resolver. -/
def onResolver {α : Type} (call : BodyM α) : EngineM Url α :=
  zoom (·.resolver) (fun r s => { s with resolver := r }) call

/-- Resolve a template. -/
def resolveText (platform : Platform) (template : Text) : EngineM Url Text :=
  onResolver (liftCore (Resolver.resolve platform.world template))

/-- Resolve a template that may not be there. -/
def resolveOption (platform : Platform) : Option Text → EngineM Url (Option Text)
  | some template => do
    let text ← resolveText platform template
    pure (some text)
  | none => pure none

/-- Read the clock. -/
def readClock (network : Network Url) : EngineM Url UInt64 := do
  let s ← get
  modify fun s => { s with ticks := s.ticks + 1 }
  pure (network.clock s.ticks)

/-- Absorb the `Set-Cookie` texts of a response into a store. -/
def recordInto (network : Network Url) (store : SessionStore) (session host path : Text)
    (setCookies : List Text) : EngineM Url SessionStore := do
  let s ← get
  modify fun s => { s with ticks := s.ticks + 2 * setCookies.length }
  pure (store.recordSetCookies session host path (fun n => network.clock (s.ticks + n))
    setCookies).1

/-- Put a request on the wire and wait for the head of the response. -/
def send (network : Network Url) (request : WireRequest Url) : EngineM Url RawResponse :=
  match network.requestError request with
  | some message => throw (.transport message)
  | none => do
    modify fun s => { s with wire := s.wire ++ [request] }
    match network.respond (← get).wire with
    | .ok raw => pure raw
    | .error error => throw (.transport error.described)

/-- The headers of a response as a map, and its `Set-Cookie` texts. -/
def readHeaders (raw : RawResponse) : FieldMap × List Text :=
  let headers := raw.headers.map fun e => (e.1, e.2.getD "<binary header value>".toList)
  (FieldMap.fromIter headers,
    (headers.filter fun e => eqIgnoreAsciiCase e.1 "set-cookie".toList).map (·.2))

/-! ### A small network -/

/-- A library for `https` URLs without a port: the host, and what follows it. -/
def httpsUrls : UrlLib (Text × Text) where
  parse text :=
    if "https://".toList <+: text then
      let rest := text.drop 8
      .ok (rest.takeWhile (· ≠ '/'), '/' :: (rest.dropWhile (· ≠ '/')).drop 1)
    else .error "relative URL without a base".toList
  join base text :=
    if "https://".toList <+: text then
      let rest := text.drop 8
      .ok (rest.takeWhile (· ≠ '/'), '/' :: (rest.dropWhile (· ≠ '/')).drop 1)
    else .ok (base.1, text)
  scheme _ := "https".toList
  hostStr url := some url.1
  portOrKnownDefault _ := some 443
  path url := url.2.takeWhile (· ≠ '?')
  appendPairs url pairs := (url.1, url.2 ++ (if '?' ∈ url.2 then '&' else '?')
    :: List.intercalate ['&'] (pairs.map fun e => e.1 ++ '=' :: e.2))
  toText url := "https://".toList ++ url.1 ++ url.2

/-- A response with this status, these headers and no body. -/
def plainResponse (status : UInt16) (headers : List (Text × Text)) : RawResponse :=
  { status, version := "HTTP/1.1".toList, url := [], body := .ok []
    headers := headers.map fun e => (e.1, some e.2) }

/-- A network that refuses nothing and gives these answers in turn, then an empty success. -/
def scriptedNetwork (answers : List RawResponse) : Network (Text × Text) where
  urls := httpsUrls
  clock _ := 0
  methodError _ := none
  proxyError _ := none
  identityError _ := none
  clientError _ := none
  tokenClientError := none
  builderError message := message
  requestError _ := none
  encodeForm pairs := List.intercalate ['&'] (pairs.map fun e => e.1 ++ '=' :: e.2)
  respond wire := .ok ((answers[wire.length - 1]?).getD (plainResponse 200 []))
  bodyText _ := some []
  canonicalReason _ := none
  fingerprint _ := 0

/-- An engine that has done nothing yet. -/
def EngineState.fresh : EngineState Url :=
  { resolver := .new, sessions := .new, clients := [], oauthTokens := SortedMap.empty, ticks := 0,
    wire := [] }

/-- Requests from the default session, in the current directory. -/
def defaultContext : RunContext := { session := "default".toList, baseDir := [] }

end Gabriel.Engine
