import Gabriel.Core.Json
import Gabriel.Core.Numbers
import Gabriel.Lib.Double

/-!
# `Gabriel.Core.Jwt`: tokens that carry claims

Decoding and inspecting a JSON web token: `gabriel-core/src/jwt.rs`. Signatures are not verified.
The libraries are arguments: base64url, the JSON decoder and encoder, and the floating-point
arithmetic of the time claims, whose result is an integer.

The definitions:

* `decodeAt`: the header, the claims and the warnings of a token at a time.
* `expiresInMs`, `isExpired`: the time that is left of a token.
* `looksLikeJwt`: three segments, of which the first one is JSON with `alg` or `typ`.
* `findIn`: the first word of a text that looks like a token.
* `withF64`: the arithmetic of the time claims by the roundings of `Lib/Double`.
-/

set_option autoImplicit false

namespace Gabriel.Core

open Text

/-- What decoding needs. -/
structure JwtTools where
  /-- The decoder of base64url without padding, with the text of its error. -/
  decodeUrl : Text → Except Text (List UInt8)
  /-- The JSON decoder, with the text of its error. -/
  parseJson : List UInt8 → Except Text Json
  /-- The compact text of a JSON value. -/
  jsonText : Json → Text
  /-- A number of seconds times `1000.0`, cast to an integer. -/
  secondsToMs : JsonNumber → UInt64
  /-- Whether a number is above `0.0`. -/
  positive : JsonNumber → Bool

/-- What can be judged of a token without the key. -/
inductive JwtWarning where
  | noSignatureAlgorithm
  | symmetricAlgorithm
  | expired
  | notYetValid
  | noExpiry
  | unreadableTimestamp
  | missingSignature
  deriving DecidableEq

namespace JwtWarning

/-- The text of a warning. -/
def message : JwtWarning → Text
  | noSignatureAlgorithm =>
    "alg is \"none\": this token is unsigned and anyone can forge one".toList
  | symmetricAlgorithm =>
    "signed with a symmetric algorithm (HS*), so verification requires the shared secret".toList
  | expired => "exp has passed: this token is expired".toList
  | notYetValid => "nbf is in the future: this token is not valid yet".toList
  | noExpiry => "no exp claim: this token does not expire on its own".toList
  | unreadableTimestamp => "a time claim is not a number, so validity is unknown".toList
  | missingSignature => "the signature segment is empty".toList

/-- Whether this is a security problem rather than an observation. -/
def isSerious : JwtWarning → Bool
  | noSignatureAlgorithm | expired | missingSignature => true
  | _ => false

end JwtWarning

/-- A decoded token. -/
structure Jwt where
  header : Json
  payload : Json
  /-- The third segment, still encoded. -/
  signature : Text
  warnings : List JwtWarning

/-- The text of a JSON string. -/
def Json.asText : Json → Option Text
  | .string value => some value
  | _ => none

mutual

/-- A claim as it is shown: the items of a list are separated by commas. -/
def renderClaim (jsonText : Json → Text) : Json → Text
  | .string value => value
  | .array items => List.intercalate ", ".toList (renderClaims jsonText items)
  | other => jsonText other

/-- The items of a list as they are shown. -/
def renderClaims (jsonText : Json → Text) : List Json → List Text
  | [] => []
  | item :: items => renderClaim jsonText item :: renderClaims jsonText items

end

namespace Jwt

/-- The token in what was given: `Bearer` may stand in front of it. -/
def bareToken (token : Text) : Text :=
  let token := trim token
  let bearer := "Bearer ".toList
  if bearer <+: token ∨ "bearer ".toList <+: token then trim (token.drop bearer.length)
  else token

/-- Decode a segment. Padding is tolerated. -/
def decodeSegment (tools : JwtTools) (segment what : Text) : Except Text Json :=
  match tools.decodeUrl (segment.rdropWhile (· == '=')) with
  | .error described => .error (what ++ " is not valid base64url: ".toList ++ described)
  | .ok bytes =>
    match tools.parseJson bytes with
    | .error described => .error (what ++ " is not JSON: ".toList ++ described)
    | .ok json => .ok json

/-- What the algorithm and the signature give rise to. -/
def signatureWarnings (header : Json) (signature : Text) : List JwtWarning :=
  let alg := (header.get? "alg".toList).bind Json.asText
  let unsigned := alg.any fun alg => eqIgnoreAsciiCase alg "none".toList
  (if unsigned then [.noSignatureAlgorithm]
    else if alg.any fun alg => "HS".toList <+: alg then [.symmetricAlgorithm] else [])
    ++ if signature = [] ∧ ¬ unsigned then [.missingSignature] else []

/-- What the `exp` and the `nbf` claims give rise to. -/
def timeWarnings (tools : JwtTools) (nowMs : UInt64) (payload : Json) : List JwtWarning :=
  (match payload.get? "exp".toList with
    | some (.number n) => if tools.secondsToMs n ≤ nowMs then [.expired] else []
    | some _ => [.unreadableTimestamp]
    | none => [.noExpiry])
  ++ match payload.get? "nbf".toList with
    | some (.number n) => if nowMs < tools.secondsToMs n then [.notYetValid] else []
    | some _ => [.unreadableTimestamp]
    | none => []

/-- Decode `header.payload.signature`, judging the time claims at an instant. -/
def decodeAt (tools : JwtTools) (token : Text) (nowMs : UInt64) : Except Text Jwt :=
  match (bareToken token).splitOn '.' with
  | [header, payload, signature] => do
    let header ← decodeSegment tools header "header".toList
    let payload ← decodeSegment tools payload "payload".toList
    .ok { header, payload, signature
          warnings := signatureWarnings header signature ++ timeWarnings tools nowMs payload }
  | parts => .error ("not a JWT: expected 3 dot-separated segments, found ".toList
      ++ natText parts.length)

/-- `Jwt::algorithm`. -/
def algorithm (jwt : Jwt) : Option Text := (jwt.header.get? "alg".toList).bind Json.asText

/-- `Jwt::key_id`. -/
def keyId (jwt : Jwt) : Option Text := (jwt.header.get? "kid".toList).bind Json.asText

/-- A time claim in epoch milliseconds. -/
def timeClaimMs (tools : JwtTools) (jwt : Jwt) (claim : Text) : Option UInt64 :=
  match jwt.payload.get? claim with
  | some (.number n) => if tools.positive n then some (tools.secondsToMs n) else none
  | _ => none

/-- Milliseconds until `exp`, negative once it has passed. -/
def expiresInMs (tools : JwtTools) (jwt : Jwt) (nowMs : UInt64) : Option Int64 :=
  (jwt.timeClaimMs tools "exp".toList).map fun ms => ms.toInt64 - nowMs.toInt64

/-- Whether the token has expired. -/
def isExpired (tools : JwtTools) (jwt : Jwt) (nowMs : UInt64) : Bool :=
  (jwt.expiresInMs tools nowMs).any fun remaining => remaining ≤ 0

/-- The claims that a reader wants first. -/
def claimOrder : List Text :=
  ["iss".toList, "sub".toList, "aud".toList, "azp".toList, "scope".toList, "scp".toList,
    "client_id".toList, "jti".toList]

/-- These claims with their values, as far as they are there. -/
def notableClaims (tools : JwtTools) (jwt : Jwt) : List (Text × Text) :=
  claimOrder.filterMap fun name =>
    (jwt.payload.get? name).map fun value => (name, renderClaim tools.jsonText value)

/-- Whether a word is a token: three segments, the first one JSON with `alg` or `typ`. -/
def looksLikeJwt (tools : JwtTools) (candidate : Text) : Bool :=
  match candidate.splitOn '.' with
  | [header, payload, _] =>
    if utf8Len header < 4 ∨ utf8Len payload < 2 then false
    else match tools.decodeUrl (header.rdropWhile (· == '=')) with
      | .error _ => false
      | .ok bytes =>
        match tools.parseJson bytes with
        | .error _ => false
        | .ok json => (json.get? "alg".toList).isSome || (json.get? "typ".toList).isSome
  | _ => false

/-- Find a token in a text. -/
def findIn (tools : JwtTools) (text : Text) : Option Text :=
  (text.splitOnP fun c => isWhitespace c || c == '"' || c == '\'' || c == ',').find?
    (looksLikeJwt tools)

end Jwt

/-! ### Integers as times -/

/-- The value of an integral number. -/
def JsonNumber.integer : JsonNumber → Option Int
  | .posInt n => some n.toNat
  | .negInt n => some n.toInt
  | .float _ => none

/-- `value as u64` for a whole number of `f64`: what does not fit is the nearest bound. -/
def castU64 (value : Int) : UInt64 := UInt64.ofNat (min value.toNat (2 ^ 64 - 1))

/-- `(seconds as f64 * 1000.0)` for an integer: both steps round. -/
def millisF64 (seconds : Int) : Int := Double.ofInt (Double.ofInt seconds * 1000)

/-- The tools, with the floating-point arithmetic of integral numbers. -/
def JwtTools.withF64 (tools : JwtTools) : JwtTools :=
  { tools with
    secondsToMs := fun n => (n.integer.map fun z => castU64 (millisF64 z)).getD
      (tools.secondsToMs n)
    positive := fun n => (n.integer.map fun z => decide (0 < Double.ofInt z)).getD
      (tools.positive n) }

end Gabriel.Core
