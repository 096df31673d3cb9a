import Gabriel.Engine.Captures
import Gabriel.Engine.Http

/-!
# `Gabriel.Engine.Executor`: running a request

`Executor` of `gabriel-engine/src/lib.rs`: the authentication, the redirect loop of `execute`,
the head of `execute_stream`, and `prepare`, which sends nothing.

The three share the steps from the URL template to the body; `prepareParts` is these steps, with
the one difference as an argument. They push headers onto one list. Here the list is kept in its
three parts (the request's own, the content type, the authentication), which `headerList` puts
together in the order of the pushes.

Left out: the assertions, measured times, and the events of a stream, which come after
everything that is sent.
-/

set_option autoImplicit false

namespace Gabriel.Engine

open Gabriel.Core Text Fallible

variable {Url : Type}

/-! ### Headers along a redirect chain -/

/-- One redirect the engine followed. -/
structure Hop where
  status : UInt16
  /-- The URL that produced the redirect. -/
  url : Text
  /-- Where it pointed. -/
  location : Text
  deriving DecidableEq

/-- Jar name for cookies collected within a single redirect chain. -/
def chainSession : Text := '\x00' :: "chain".toList

/-- The name in a cookie pair. -/
def cookiePairName (pair : Text) : Text := ((splitOnce ['='] pair).map fun e => trim e.1).getD []

/-- Combine two `Cookie` values, one entry for each name; `fresher` wins. -/
def mergeCookieHeaders : Option Text → Option Text → Option Text
  | none, none => none
  | some only, none => some only
  | none, some only => some only
  | some base, some fresher =>
    let overridden := (splitSeq "; ".toList fresher).map cookiePairName
    some (List.intercalate "; ".toList (splitSeq "; ".toList fresher
      ++ (splitSeq "; ".toList base).filter fun pair => cookiePairName pair ∉ overridden))

/-- The statuses that redirect. -/
def isRedirect (status : UInt16) : Bool :=
  status ∈ ([301, 302, 303, 307, 308] : List UInt16)

/-- Same scheme, host and port. -/
def sameOrigin (urls : UrlLib Url) (a b : Url) : Bool :=
  urls.scheme a = urls.scheme b ∧ urls.hostStr a = urls.hostStr b ∧
    urls.portOrKnownDefault a = urls.portOrKnownDefault b

/-- The headers that `strip_credentials` drops. -/
def sensitiveHeaders : List Text :=
  ["authorization".toList, "cookie".toList, "proxy-authorization".toList,
    "www-authenticate".toList]

/-- Drop what must not survive a cross-origin redirect. -/
def stripCredentials (headers : List (Text × Text)) : List (Text × Text) :=
  headers.filter fun e => asciiLower e.1 ∉ sensitiveHeaders

/-- The session's cookies for a URL, when the request asks for a session. -/
def sessionCookie (urls : UrlLib Url) (ctx : RunContext) (auth : Option Auth)
    (sessions : SessionStore) (now : UInt64) (url : Url) : Option Text :=
  match auth with
  | some (.session session) =>
    sessions.cookieHeader now (session.getD ctx.session) ((urls.hostStr url).getD [])
      (urls.path url) (urls.scheme url = "https".toList)
  | _ => none

/-- The `Cookie` of one hop, for readings of the clock: the session's cookies when the request
asked for them, and the chain's. -/
def hopCookieText (urls : UrlLib Url) (ctx : RunContext) (auth : Option Auth)
    (sessions chainJar : SessionStore) (sessionNow chainNow : UInt64) (url : Url) : Option Text :=
  mergeCookieHeaders (sessionCookie urls ctx auth sessions sessionNow url)
    (chainJar.cookieHeader chainNow chainSession ((urls.hostStr url).getD []) (urls.path url)
      (urls.scheme url = "https".toList))

/-- The `Cookie` header of one hop. -/
def hopCookie (network : Network Url) (ctx : RunContext) (spec : RequestSpec)
    (chainJar : SessionStore) (url : Url) : EngineM Url (Option Text) := do
  let sessionNow ← readClock network
  let chainNow ← readClock network
  let s ← get
  pure (hopCookieText network.urls ctx spec.auth s.sessions chainJar sessionNow chainNow url)

/-! ### Clients -/

/-- The client certificate of a request, if it names one. -/
def resolveIdentity (platform : Platform) (network : Network Url) (ctx : RunContext)
    (spec : RequestSpec) : EngineM Url (Option IdentityMaterial) :=
  match spec.settings.clientCert with
  | none => pure none
  | some reference => do
    let resolved ← resolveText platform reference
    if trim resolved = [] then pure none
    else if "-----BEGIN".toList <:+: resolved then
      let pem := Utf8.encode resolved
      pure (some ⟨network.fingerprint pem, pem⟩)
    else
      let path := platform.joinPath ctx.baseDir resolved
      match platform.readFile path with
      | some pem => pure (some ⟨network.fingerprint pem, pem⟩)
      | none => throw (.clientCertFile path)

/-- The pooled client for these settings, built when there is none. -/
def clientForMode (network : Network Url) (spec : RequestSpec)
    (identity : Option IdentityMaterial) (streaming : Bool) : EngineM Url ClientKey := do
  let settings := spec.settings
  let key : ClientKey :=
    { timeoutMs := settings.timeoutMs, verifyTls := settings.verifyTls, proxy := settings.proxy,
      streaming, identity := identity.map (·.fingerprint) }
  if key ∈ (← get).clients then pure key
  else
    match settings.proxy.bind network.proxyError with
    | some message => throw (.client message)
    | none =>
      match identity.bind fun i => network.identityError i.pem with
      | some message => throw (.clientCert (settings.clientCert.getD []) message)
      | none =>
        match network.clientError key with
        | some message => throw (.client message)
        | none => do
          modify fun s => { s with clients := s.clients ++ [key] }
          pure key

/-! ### Authentication -/

/-- The name of a grant that needs no browser. -/
def grantName : OAuth2Grant → Option Text
  | .clientCredentials => some "client_credentials".toList
  | .password => some "password".toList
  | .authorizationCode => none

/-- A status as it prints itself. -/
def statusText (network : Network Url) (status : UInt16) : Text :=
  natText status.toNat ++ ' ' ::
    (network.canonicalReason status).getD "<unknown status code>".toList

/-- The token of a token endpoint's answer, and its lifetime in seconds. -/
def parseTokenResponse (platform : Platform) (network : Network Url) (tokenUrl : Text)
    (raw : RawResponse) : Except EngineError (Text × UInt64) :=
  let text := (network.bodyText raw).getD []
  if ¬ (200 ≤ raw.status.toNat ∧ raw.status.toNat < 300) then
    .error (.auth ("token endpoint ".toList ++ tokenUrl ++ " returned ".toList
      ++ statusText network raw.status ++ ": ".toList ++ text.take 300))
  else match platform.parseJson (Utf8.encode text) with
    | .error message => .error (.auth ("token response was not JSON: ".toList ++ message))
    | .ok payload =>
      match payload.get? "access_token".toList with
      | some (.string token) =>
        let expiresIn := match payload.get? "expires_in".toList with
          | some (.number (.posInt seconds)) => seconds
          | _ => 3600
        .ok (token, expiresIn)
      | _ => .error (.auth "token response has no access_token".toList)

/-- Ask the token endpoint. -/
def fetchToken (platform : Platform) (network : Network Url) (config : OAuth2)
    (tokenUrl clientId : Text) (clientSecret scope : Option Text) :
    EngineM Url (Text × UInt64) :=
  match grantName config.grant with
  | none => throw (.auth ("this request uses the authorization-code grant — run ".toList
      ++ "`gabriel auth login` first, which stores the token in the vault".toList))
  | some grant => do
    let form := ("grant_type".toList, grant)
      :: (scope.map fun scope => ("scope".toList, scope)).toList
    let audience ← resolveOption platform config.audience
    let form := form ++ (audience.map fun audience => ("audience".toList, audience)).toList
    match network.tokenClientError with
    | some message => throw (.client message)
    | none => do
      let inBody := ("client_id".toList, clientId)
        :: (clientSecret.map fun secret => ("client_secret".toList, secret)).toList
      let basic := ("Authorization".toList, "Basic ".toList
        ++ platform.b64Encode (Utf8.encode (clientId ++ ':' :: clientSecret.getD [])))
      let form := if config.credentialsInBody then form ++ inBody else form
      let headers := (if config.credentialsInBody then [] else [basic])
        ++ [("Content-Type".toList, "application/x-www-form-urlencoded".toList)]
      let failed (error : Text) : EngineError :=
        .auth ("token request to ".toList ++ tokenUrl ++ " failed: ".toList ++ error)
      match network.urls.parse tokenUrl with
      | .error message => throw (failed (network.builderError message))
      | .ok url =>
        let request : WireRequest Url :=
          { method := "POST".toList, url, headers,
            body := some (Utf8.encode (network.encodeForm form)) }
        modify fun s => { s with wire := s.wire ++ [request] }
        match network.respond (← get).wire with
        | .error error => throw (failed error.display)
        | .ok raw =>
          match parseTokenResponse platform network tokenUrl raw with
          | .error error => throw error
          | .ok token => pure token

/-- The cached token, unless it expires within 30 seconds. -/
def cachedToken (network : Network Url) (cacheKey : Text) : EngineM Url (Option Text) := do
  match (← get).oauthTokens.get? cacheKey with
  | none => pure none
  | some cached =>
    let now ← readClock network
    pure (if cached.expiresAtMs > now + 30000 then some cached.token else none)

/-- An access token: a cached one, or a new one. -/
def oauthToken (platform : Platform) (network : Network Url) (config : OAuth2) :
    EngineM Url Text := do
  let tokenUrl ← resolveText platform config.tokenUrl
  let clientId ← resolveText platform config.clientId
  let scope ← resolveOption platform config.scope
  let cacheKey := tokenUrl ++ '|' :: clientId ++ '|' :: scope.getD []
  match ← cachedToken network cacheKey with
  | some token => pure token
  | none =>
    let clientSecret ← resolveOption platform config.clientSecret
    let (token, expiresIn) ← fetchToken platform network config tokenUrl clientId clientSecret scope
    let now ← readClock network
    modify fun s => { s with
      oauthTokens := s.oauthTokens.insert cacheKey ⟨token, now + expiresIn * 1000⟩ }
    pure token

/-- The basic credential of a user name and a password. -/
def basicCredential (platform : Platform) (username password : Text) : Text :=
  "Basic ".toList ++ platform.b64Encode (Utf8.encode (username ++ ':' :: password))

/-- The authentication that is known without a token endpoint: the URL, and the headers to
add. -/
def applyKnownAuth (platform : Platform) (network : Network Url) (url : Url) :
    Option Auth → EngineM Url (Url × List (Text × Text))
  | some (.bearer token) => do
    let token ← resolveText platform token
    pure (url, [("Authorization".toList, "Bearer ".toList ++ token)])
  | some (.basic username password) => do
    let username ← resolveText platform username
    let password ← resolveText platform password
    pure (url, [("Authorization".toList, basicCredential platform username password)])
  | some (.apiKey key value location) => do
    let key ← resolveText platform key
    let value ← resolveText platform value
    match location with
    | .header => pure (url, [(key, value)])
    | .query => pure (network.urls.appendPairs url [(key, value)], [])
  -- A session is applied per hop; the others add nothing.
  | _ => pure (url, [])

/-- The authentication of a request: the URL, and the headers to add. -/
def applyAuth (platform : Platform) (network : Network Url) (url : Url) :
    Option Auth → EngineM Url (Url × List (Text × Text))
  | some (.oAuth2 config) => do
    let token ← oauthToken platform network config
    pure (url, [("Authorization".toList, "Bearer ".toList ++ token)])
  | auth => applyKnownAuth platform network url auth

/-! ### From the request file to the first request -/

/-- The request before its authentication. -/
structure Parts (Url : Type) where
  url : Url
  /-- The request's own headers. -/
  headers : List (Text × Text)
  /-- The content type of the body, unless the request names one. -/
  contentType : List (Text × Text)
  body : Option PreparedBody

/-- The steps from the URL template to the body. A stream asks for one unless the request says
what it accepts. -/
def prepareParts (platform : Platform) (network : Network Url) (ctx : RunContext)
    (spec : RequestSpec) (streaming : Bool) : EngineM Url (Parts Url) := do
  let resolvedUrl ← resolveText platform spec.url
  match network.urls.parse resolvedUrl with
  | .error message => throw (.badUrl resolvedUrl message)
  | .ok url => do
    let query ← onResolver (liftCore (Resolver.resolveMap platform.world spec.query))
    let url := if query.isEmpty then url else network.urls.appendPairs url query.iterPairs
    let headers ← onResolver (liftCore (Resolver.resolveMap platform.world spec.headers))
    let accept := if streaming ∧ ¬ headers.containsKey "accept".toList then
      [("Accept".toList, "text/event-stream".toList)] else []
    let body ← onResolver (buildBody platform ctx.baseDir spec)
    let contentType := match body.bind (·.contentType) with
      | some contentType =>
        if headers.containsKey "content-type".toList then []
        else [("Content-Type".toList, contentType)]
      | none => []
    pure { url, headers := headers.iterPairs ++ accept, contentType, body }

/-- A request that is ready to be sent. -/
structure Ready (Url : Type) where
  parts : Parts Url
  url : Url
  authHeaders : List (Text × Text)

/-- The header list, in the order of the pushes. -/
def Ready.headerList (ready : Ready Url) : List (Text × Text) :=
  ready.parts.headers ++ ready.parts.contentType ++ ready.authHeaders

/-- The bytes of the body. -/
def Ready.bodyBytes (ready : Ready Url) : Option (List UInt8) := ready.parts.body.map (·.bytes)

/-- Everything that `execute` and `execute_stream` do before the first send. -/
def makeReady (platform : Platform) (network : Network Url) (ctx : RunContext)
    (spec : RequestSpec) (streaming : Bool) : EngineM Url (Ready Url) := do
  let parts ← prepareParts platform network ctx spec streaming
  let (url, authHeaders) ← applyAuth platform network parts.url spec.auth
  let identity ← resolveIdentity platform network ctx spec
  let _client ← clientForMode network spec identity streaming
  match network.methodError spec.method with
  | some message => throw (.badUrl spec.method message)
  | none => pure { parts, url, authHeaders }

/-- The request as it was sent, for the report. -/
structure SentRequest where
  method : Text
  url : Text
  headers : List (Text × Text)
  body : Option Text

/-- The report of a prepared request. -/
def sentRequest (network : Network Url) (spec : RequestSpec) (url : Url)
    (headers : List (Text × Text)) (body : Option PreparedBody) : SentRequest :=
  { method := spec.method, url := network.urls.toText url, headers,
    body := body.bind fun b => Utf8.decode? b.bytes }

/-! ### The redirect loop -/

/-- The state of the redirect loop. -/
structure Chain (Url : Type) where
  method : Text
  url : Url
  headers : List (Text × Text)
  body : Option (List UInt8)
  hops : List Hop
  /-- Cookies set during this chain. -/
  chainJar : SessionStore

/-- The request of one hop: the header list, and the hop's cookies after it. -/
def hopRequest (chain : Chain Url) (cookie : Option Text) : WireRequest Url :=
  { method := chain.method, url := chain.url,
    headers := chain.headers ++ (cookie.map fun cookie => ("Cookie".toList, cookie)).toList,
    body := chain.body }

/-- Send one hop, and record the cookies of its response. -/
def sendHop (network : Network Url) (ctx : RunContext) (spec : RequestSpec) (chain : Chain Url) :
    EngineM Url (RawResponse × FieldMap × Chain Url) := do
  let cookie ← hopCookie network ctx spec chain.chainJar chain.url
  let raw ← send network (hopRequest chain cookie)
  let (headers, setCookies) := readHeaders raw
  if setCookies = [] then pure (raw, headers, chain)
  else
    let host := (network.urls.hostStr chain.url).getD []
    let path := network.urls.path chain.url
    let chainJar ← recordInto network chain.chainJar chainSession host path setCookies
    if ctx.recordCookies then
      let sessions ← recordInto network (← get).sessions ctx.session host path setCookies
      modify fun s => { s with sessions }
    pure (raw, headers, { chain with chainJar })

/-- The loop state for the hop after a redirect. -/
def nextHop (urls : UrlLib Url) (status : UInt16) (next : Url) (chain : Chain Url) : Chain Url :=
  let hop : Hop := { status, url := urls.toText chain.url, location := urls.toText next }
  let headers := if sameOrigin urls next chain.url then chain.headers
    else stripCredentials chain.headers
  -- 303 always becomes GET, and 301 and 302 are treated the same way.
  if 301 ≤ status.toNat ∧ status.toNat ≤ 303 ∧ chain.method ≠ "GET".toList then
    { chain with
      method := "GET".toList, url := next, body := none, hops := chain.hops ++ [hop]
      headers := headers.filter fun e => !eqIgnoreAsciiCase e.1 "content-type".toList }
  else { chain with url := next, headers, hops := chain.hops ++ [hop] }

/-- The loop of `execute`, with the number of redirects it may still follow, which is
`max_redirects` less the hops so far. -/
def followChain (network : Network Url) (ctx : RunContext) (spec : RequestSpec) :
    Nat → Chain Url → EngineM Url (RawResponse × FieldMap × Chain Url)
  | 0, chain => sendHop network ctx spec chain
  | left + 1, chain => do
    let (raw, headers, chain) ← sendHop network ctx spec chain
    match headers.getFirst "location".toList with
    | some location =>
      if isRedirect raw.status ∧ spec.settings.followRedirects then
        match network.urls.join chain.url location with
        | .error message => throw (.badUrl location message)
        | .ok next => followChain network ctx spec left (nextHop network.urls raw.status next chain)
      else pure (raw, headers, chain)
    | none => pure (raw, headers, chain)

/-- Everything that happened when one request ran. -/
structure RunOutcome where
  sent : SentRequest
  response : ExecutedResponse
  /-- Variables bound from the response, in declaration order. -/
  captured : List (Text × Text)
  redirects : List Hop

/-- The loop state before the first hop. -/
def startChain (spec : RequestSpec) (ready : Ready Url) : Chain Url :=
  { method := spec.method, url := ready.url, headers := ready.headerList,
    body := ready.bodyBytes, hops := [], chainJar := .new }

/-- Run a request that is ready: follow the chain, and bind the captures. -/
def runReady (platform : Platform) (network : Network Url) (ctx : RunContext)
    (spec : RequestSpec) (ready : Ready Url) : EngineM Url RunOutcome := do
  let (raw, headers, chain) ←
    followChain network ctx spec spec.settings.maxRedirects (startChain spec ready)
  match raw.body with
  | .error described => throw (.transport described)
  | .ok body =>
    let response : ExecutedResponse :=
      { status := raw.status, statusText := (network.canonicalReason raw.status).getD [],
        httpVersion := raw.version, headers, body, finalUrl := raw.url }
    let s ← get
    let (resolver, captured) := applyCaptures platform spec response s.resolver
    modify fun s => { s with resolver }
    pure { sent := sentRequest network spec ready.url ready.headerList ready.parts.body,
           response, captured, redirects := chain.hops }

/-- Run a request. -/
def execute (platform : Platform) (network : Network Url) (ctx : RunContext)
    (spec : RequestSpec) : EngineM Url RunOutcome := do
  let ready ← makeReady platform network ctx spec false
  runReady platform network ctx spec ready

/-- The head of a streamed response. -/
structure StreamHead where
  sent : SentRequest
  status : UInt16
  statusText : Text
  headers : FieldMap
  /-- Whether the response is an event stream at all. -/
  isStream : Bool

/-- Send a request and read the head of its response as an event stream. -/
def executeStream (platform : Platform) (network : Network Url) (ctx : RunContext)
    (spec : RequestSpec) : EngineM Url StreamHead := do
  let ready ← makeReady platform network ctx spec true
  let cookie ← hopCookie network ctx spec .new ready.url
  let raw ← send network (hopRequest (startChain spec ready) cookie)
  let headers := (readHeaders raw).1
  pure { sent := sentRequest network spec ready.url ready.headerList ready.parts.body,
         status := raw.status, statusText := (network.canonicalReason raw.status).getD [], headers,
         isStream := (headers.getFirst "content-type".toList).any fun contentType =>
           "text/event-stream".toList.isPrefixOf (asciiLower contentType) }

/-- The session's cookies of a request that is only shown. -/
def prepareCookie (network : Network Url) (ctx : RunContext) (url : Url) :
    Option Auth → EngineM Url (Option Text)
  | some (.session session) => do
    let now ← readClock network
    let s ← get
    pure (s.sessions.cookieHeader now (session.getD ctx.session)
      ((network.urls.hostStr url).getD []) (network.urls.path url)
      (network.urls.scheme url = "https".toList))
  | _ => pure none

/-- Whether showing a request leaves out a token. -/
def oauthPending : Option Auth → Bool
  | some (.oAuth2 _) => true
  | _ => false

/-- Resolve a request without sending it. The flag says that a token was left out. -/
def prepare (platform : Platform) (network : Network Url) (ctx : RunContext)
    (spec : RequestSpec) : EngineM Url (SentRequest × Bool) := do
  let parts ← prepareParts platform network ctx spec false
  let (url, authHeaders) ← applyKnownAuth platform network parts.url spec.auth
  let cookie ← prepareCookie network ctx url spec.auth
  let headers := parts.headers ++ parts.contentType ++ authHeaders
    ++ (cookie.map fun cookie => ("Cookie".toList, cookie)).toList
  pure (sentRequest network spec url headers parts.body, oauthPending spec.auth)

end Gabriel.Engine
