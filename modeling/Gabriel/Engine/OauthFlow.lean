import Gabriel.Engine.Oauth
import Gabriel.Lib.Ansi

/-!
# `Gabriel.Engine.OauthFlow`: the authorization code flow

`authorization_code` of `gabriel-engine/src/oauth.rs`, from the random values to the tokens, with
`exchange_code`, `refresh` and `post_token_request`. Random bytes are an argument. SHA-256, base64,
the sockets, the form encoder of the HTTP library and JSON are the fields of `FlowTools`; `send` is
the token endpoint.

A flow shows its URL and waits. `Flow.receive` is what one connection to the loopback listener does
to it. The wait can also end by its deadline, or because a connection cannot be accepted.

The definitions:

* `Pkce.generate`, `randomState`: the random values of a flow.
* `exchangeForm`, `refreshForm`: the forms that are posted to the token endpoint.
* `postTokenRequest`: post a form, and read the tokens of the response.
* `begin`, `Flow.receive`, `Flow.expire`: a flow from its start to its end.
* `authorizationCode`: the whole flow over a list of connections.
-/

set_option autoImplicit false

namespace Gabriel.Engine.Oauth

open Gabriel.Core Text

/-! ### The parts from elsewhere -/

/-- What a token endpoint hands out. -/
structure Tokens where
  accessToken : Text
  refreshToken : Option Text := none
  tokenType : Option Text := none
  expiresIn : Option UInt64 := none
  scope : Option Text := none
  idToken : Option Text := none
  deriving DecidableEq

/-- The status of a response and its text. -/
structure TokenResponse where
  status : UInt16
  text : Text
  deriving DecidableEq

/-- The parts that come from libraries and the platform. -/
structure FlowTools where
  sha256 : List UInt8 → List UInt8
  /-- Base64 in the alphabet of URLs, without padding. -/
  base64url : List UInt8 → Text
  /-- Why a port cannot be bound. -/
  bindError : UInt16 → Option Text
  /-- The port that is bound for a port. -/
  localAddr : UInt16 → Except Text UInt16
  /-- Why no HTTP client can be built. -/
  clientError : Option Text
  formBody : List (Text × Text) → Text
  statusText : UInt16 → Text
  parseTokens : Text → Except Text Tokens

/-! ### Random values -/

/-- `base64url_nopad`. -/
def base64urlNopad (tools : FlowTools) (bytes : List UInt8) : Text := tools.base64url bytes

/-- The characters that RFC 7636 allows in a verifier. -/
def verifierAlphabet : Text :=
  "ABCDEFGHIJKLMNOPQRSTUVWXYZabcdefghijklmnopqrstuvwxyz0123456789-._~".toList

/-- The random bytes of a verifier. -/
def verifierBytes : Nat := 48

/-- The random bytes of a state. -/
def stateBytes : Nat := 24

/-- What a flow draws. -/
structure FlowDraw where
  verifier : { bytes : List UInt8 // bytes.length = verifierBytes }
  state : { bytes : List UInt8 // bytes.length = stateBytes }

/-- Random characters, by encoding random bytes. -/
def randomUnreserved (tools : FlowTools) (bytes : List UInt8) : Text := base64urlNopad tools bytes

/-- A verifier with its S256 challenge. -/
def Pkce.fromVerifier (tools : FlowTools) (verifier : Text) : Pkce :=
  { verifier, challenge := base64urlNopad tools (tools.sha256 (Utf8.encode verifier)) }

/-- `Pkce::generate`, from what was drawn. -/
def Pkce.generate (tools : FlowTools) (drawn : FlowDraw) : Pkce :=
  Pkce.fromVerifier tools (randomUnreserved tools drawn.verifier)

/-- `random_state`, from what was drawn. -/
def randomState (tools : FlowTools) (drawn : FlowDraw) : Text := randomUnreserved tools drawn.state

/-! ### The token endpoint -/

/-- What is asked of the token endpoint. -/
structure TokenRequest where
  url : Text
  body : Text
  deriving DecidableEq

/-- The form that exchanges a code. -/
def exchangeForm (config : OAuth2) (code verifier redirectUri : Text) : List (Text × Text) :=
  [("grant_type".toList, "authorization_code".toList),
    ("code".toList, code),
    ("redirect_uri".toList, redirectUri),
    ("client_id".toList, config.clientId),
    ("code_verifier".toList, verifier)]
  -- A public client has no secret.
  ++ (config.clientSecret.map fun secret => ("client_secret".toList, secret)).toList

/-- The form that refreshes a token. -/
def refreshForm (config : OAuth2) (refreshToken : Text) : List (Text × Text) :=
  [("grant_type".toList, "refresh_token".toList),
    ("refresh_token".toList, refreshToken),
    ("client_id".toList, config.clientId)]
  ++ (config.clientSecret.map fun secret => ("client_secret".toList, secret)).toList

/-- What a response of the token endpoint means. -/
def tokenResult (tools : FlowTools) (tokenUrl : Text) :
    Except Text TokenResponse → Except EngineError Tokens
  | .error message => .error (.auth
      ("token request to ".toList ++ tokenUrl ++ " failed: ".toList ++ message))
  | .ok response =>
    if 200 ≤ response.status ∧ response.status ≤ 299 then
      (tools.parseTokens response.text).mapError fun message =>
        .auth ("token response was not the expected JSON: ".toList ++ message)
    else .error (.auth ("token endpoint returned ".toList ++ tools.statusText response.status
      ++ ": ".toList ++ response.text.take 400))

/-- Ask the token endpoint: the request, if one is sent, and the result. -/
def postTokenRequest (tools : FlowTools) (send : TokenRequest → Except Text TokenResponse)
    (tokenUrl : Text) (form : List (Text × Text)) :
    Option TokenRequest × Except EngineError Tokens :=
  match tools.clientError with
  | some message => (none, .error (.client message))
  | none =>
    let request : TokenRequest := { url := tokenUrl, body := tools.formBody form }
    (some request, tokenResult tools tokenUrl (send request))

/-- Exchange the code, proving possession of the verifier. -/
def exchangeCode (tools : FlowTools) (send : TokenRequest → Except Text TokenResponse)
    (config : OAuth2) (code verifier redirectUri : Text) :
    Option TokenRequest × Except EngineError Tokens :=
  postTokenRequest tools send config.tokenUrl (exchangeForm config code verifier redirectUri)

/-- Trade a refresh token for a new access token. -/
def refresh (tools : FlowTools) (send : TokenRequest → Except Text TokenResponse)
    (config : OAuth2) (refreshToken : Text) : Option TokenRequest × Except EngineError Tokens :=
  postTokenRequest tools send config.tokenUrl (refreshForm config refreshToken)

/-! ### The flow -/

/-- `FlowOptions`. -/
structure FlowOptions where
  port : UInt16 := 0
  openBrowser : Bool := true
  timeoutMs : UInt64 := 300000

/-- Is this URL safe to hand to a platform "open" helper? -/
def isSafeToOpen (url : Text) : Bool :=
  ("http://".toList.isPrefixOf (asciiLower url) || "https://".toList.isPrefixOf (asciiLower url))
    && !url.any fun c => Ansi.isControl c || isWhitespace c

/-- A flow that has shown its URL. -/
structure Waiting where
  config : OAuth2
  redirectUri : Text
  pkce : Pkce
  state : Text
  url : Text

/-- Where a flow stands. An end without a result is a panic. -/
inductive Flow where
  | waiting (flow : Waiting)
  | ended (request : Option TokenRequest) (result : Option (Except EngineError Tokens))

/-- The redirect URI: a configured one wins. -/
def redirectUriFor (config : OAuth2) (port : UInt16) : Text :=
  match config.redirectUri with
  | some uri => uri
  | none => "http://127.0.0.1:".toList ++ natText port.toNat ++ "/callback".toList

/-- Everything up to the URL. -/
def begin (tools : FlowTools) (config : OAuth2) (options : FlowOptions) (drawn : FlowDraw) :
    Except EngineError Waiting :=
  if config.grant ≠ .authorizationCode then
    .error (.auth "this configuration is not an authorization-code grant".toList)
  else
    match config.authorizeUrl with
    | none =>
      .error (.auth "authorize_url is required for the authorization-code grant".toList)
    | some authorizeUrl =>
      match tools.bindError options.port with
      | some message =>
        .error (.auth ("could not open the loopback listener: ".toList ++ message))
      | none =>
        match tools.localAddr options.port with
        | .error message => .error (.auth message)
        | .ok port =>
          let redirectUri := redirectUriFor config port
          let pkce := Pkce.generate tools drawn
          let state := randomState tools drawn
          .ok { config, redirectUri, pkce, state,
                url := buildAuthorizeUrl authorizeUrl config redirectUri pkce state }

/-- What a flow hands to the browser. -/
def opened (options : FlowOptions) (flow : Waiting) : Option Text :=
  if options.openBrowser && isSafeToOpen flow.url then some flow.url else none

/-- What the end of the wait makes of a flow. -/
def Waiting.finish (tools : FlowTools) (send : TokenRequest → Except Text TokenResponse)
    (flow : Waiting) : Option (Except EngineError Text) → Flow
  | none => .ended none none
  | some (.error error) => .ended none (some (.error error))
  | some (.ok code) =>
    let (request, result) :=
      exchangeCode tools send flow.config code flow.pkce.verifier flow.redirectUri
    .ended request (some result)

/-- The flow to its end. The connections are those before the deadline. -/
def authorizationCode (tools : FlowTools) (send : TokenRequest → Except Text TokenResponse)
    (config : OAuth2) (options : FlowOptions) (drawn : FlowDraw)
    (connections : List (Except Text (List UInt8))) : Flow :=
  match begin tools config options drawn with
  | .error error => .ended none (some (.error error))
  | .ok flow => flow.finish tools send (waitForCode flow.state connections).result

/-- What a connection does to a flow. -/
def Flow.receive (tools : FlowTools) (send : TokenRequest → Except Text TokenResponse)
    (connection : Except Text (List UInt8)) : Flow → Flow
  | .ended request result => .ended request result
  | .waiting flow =>
    match connection with
    | .error message =>
      .ended none (some (.error (.auth ("accepting the callback failed: ".toList ++ message))))
    | .ok read =>
      match answerCallback flow.state read with
      | .wait _ => .waiting flow
      | .done _ result => flow.finish tools send (some result)
      | .panicked => flow.finish tools send none

/-- What the deadline does to a flow. -/
def Flow.expire : Flow → Flow
  | .ended request result => .ended request result
  | .waiting _ => .ended none
      (some (.error (.auth "timed out waiting for the browser to come back".toList)))

end Gabriel.Engine.Oauth
