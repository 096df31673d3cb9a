import Gabriel.Engine.Callback

/-!
# `Gabriel.Engine.Oauth`: the authorization URL

`build_authorize_url` of `gabriel-engine/src/oauth.rs`, with the encoder of that file. Unlike the
form encoder of the engine it writes a space as `%20`.

The definitions:

* `Pkce`: a verifier, and the challenge that is shown for it.
* `authorizeParams`: the parameters that are added, in their order.
* `buildAuthorizeUrl`: the URL that is opened in the browser.
-/

set_option autoImplicit false

namespace Gabriel.Engine.Oauth

open Gabriel.Core Text

/-- A verifier and its challenge. -/
structure Pkce where
  verifier : Text
  challenge : Text

/-- The encoding of a byte. -/
def urlencodeByte (b : UInt8) : Text :=
  if isUnreserved b then [Char.ofNat b.toNat]
  else ['%', hexUpper (b.toNat / 16), hexUpper (b.toNat % 16)]

/-- The encoding of a text. -/
def urlencode (input : Text) : Text := (Utf8.encode input).flatMap urlencodeByte

/-- The parameters that the authorization URL adds, in order. -/
def authorizeParams (config : OAuth2) (redirectUri : Text) (pkce : Pkce) (state : Text) :
    List (Text × Text) :=
  [("response_type".toList, "code".toList),
    ("client_id".toList, config.clientId),
    ("redirect_uri".toList, redirectUri),
    ("state".toList, state),
    ("code_challenge".toList, pkce.challenge),
    ("code_challenge_method".toList, "S256".toList)]
  ++ (config.scope.map fun scope => ("scope".toList, scope)).toList
  -- Auth0 needs this to issue a JWT for an API rather than an opaque token.
  ++ (config.audience.map fun audience => ("audience".toList, audience)).toList

/-- A parameter as the URL has it. -/
def paramText (param : Text × Text) : Text := param.1 ++ '=' :: urlencode param.2

/-- Assemble the authorization URL. -/
def buildAuthorizeUrl (authorizeUrl : Text) (config : OAuth2) (redirectUri : Text) (pkce : Pkce)
    (state : Text) : Text :=
  let query := (authorizeParams config redirectUri pkce state).map paramText
  let separator := if '?' ∈ authorizeUrl then '&' else '?'
  authorizeUrl ++ separator :: List.intercalate ['&'] query

end Gabriel.Engine.Oauth
