import Gabriel.Lib.SortedMap
import Gabriel.Lib.Text

/-!
# `Gabriel.Core.Model`: the request format

The types of `gabriel-core/src/model.rs`: a request as it lives on disk, the map that holds its
headers and query parameters, and what replaying it does to the world. Only the assertions are
left out here.

A key of a `FieldMap` keeps the order of its values, and keys are in the order of their bytes,
which for texts is the order of their scalar values.

The definitions:

* `FieldMap`: a map from names to values in order, with `insert`, `getFirst` and `iterPairs`.
* `Auth`, `Body`, `Settings`: the parts of a request.
* `Effect`: what replaying a request does, and whether it needs a confirmation.
* `RequestSpec`: a request; `effect` is the declared effect, or that of its method.
-/

set_option autoImplicit false

namespace Gabriel.Core

open Text

/-! ### Field maps -/

/-- The values of one key. -/
inductive FieldValue where
  | one (value : Text)
  | many (values : List Text)
  deriving DecidableEq

/-- The values, in order. -/
def FieldValue.toList : FieldValue → List Text
  | one value => [value]
  | many values => values

/-- Headers and query parameters: a map by key where one key may carry several values. -/
structure FieldMap where
  fields : SortedMap Text FieldValue
  deriving DecidableEq

namespace FieldMap

/-- The map without a key. -/
def empty : FieldMap := ⟨SortedMap.empty⟩

/-- Whether no key is present. -/
def isEmpty (map : FieldMap) : Bool := map.fields.entries.isEmpty

/-- Add a value under a key, after the values it has. -/
def insert (map : FieldMap) (key value : Text) : FieldMap :=
  match map.fields.get? key with
  | some (.one existing) => ⟨map.fields.insert key (.many [existing, value])⟩
  | some (.many list) => ⟨map.fields.insert key (.many (list ++ [value]))⟩
  | none => ⟨map.fields.insert key (.one value)⟩

/-- Set, replacing any existing values for the key. -/
def set (map : FieldMap) (key value : Text) : FieldMap :=
  ⟨map.fields.insert key (.one value)⟩

/-- The first value of the first key equal to `key` up to letter case. -/
def getFirst (map : FieldMap) (key : Text) : Option Text :=
  (map.fields.entries.find? fun e => eqIgnoreAsciiCase e.1 key).map fun e =>
    match e.2 with
    | .one value => value
    | .many list => list.head?.getD []

/-- Whether some key is equal to `key` up to letter case. -/
def containsKey (map : FieldMap) (key : Text) : Bool :=
  map.fields.keys.any fun k => eqIgnoreAsciiCase k key

/-- Remove every key equal to `key` up to letter case. -/
def remove (map : FieldMap) (key : Text) : FieldMap :=
  ⟨map.fields.filter fun k _ => !eqIgnoreAsciiCase k key⟩

/-- The pairs of one entry. -/
def entryPairs (e : Text × FieldValue) : List (Text × Text) := e.2.toList.map fun v => (e.1, v)

/-- Flatten to pairs of a key and a value. -/
def iterPairs (map : FieldMap) : List (Text × Text) := map.fields.entries.flatMap entryPairs

/-- Collect a list of pairs; a repeated key keeps all its values. -/
def fromIter (pairs : List (Text × Text)) : FieldMap :=
  pairs.foldl (fun map e => map.insert e.1 e.2) empty

end FieldMap

/-! ### Authentication and bodies -/

/-- Where an API key goes. -/
inductive ApiKeyLocation where
  | header
  | query
  deriving DecidableEq

/-- The grants of RFC 6749 a request can name. -/
inductive OAuth2Grant where
  | clientCredentials
  | password
  | authorizationCode
  deriving DecidableEq

/-- How to get an access token. -/
structure OAuth2 where
  grant : OAuth2Grant
  tokenUrl : Text
  authorizeUrl : Option Text
  redirectUri : Option Text
  clientId : Text
  clientSecret : Option Text
  scope : Option Text
  audience : Option Text
  credentialsInBody : Bool
  deriving DecidableEq

/-- Authentication of a request. `session` replays with the cookies the browser holds. -/
inductive Auth where
  | none
  | inherit
  | session (session : Option Text)
  | bearer (token : Text)
  | basic (username password : Text)
  | apiKey (key value : Text) (location : ApiKeyLocation)
  | oAuth2 (config : OAuth2)
  deriving DecidableEq

/-- The body of a request. -/
inductive Body where
  | none
  | json (content : Text)
  | text (content : Text) (contentType : Option Text)
  | form (fields : SortedMap Text Text)
  | graphQl (query : Text) (vars operationName : Option Text)
  | file (path : Text) (contentType : Option Text)
  deriving DecidableEq

/-! ### Effects -/

/-- What running a request does to the world. -/
inductive Effect where
  /-- Free to repeat. -/
  | read
  /-- Changes state; a repetition changes nothing more. -/
  | idempotent
  /-- A repetition happens again. -/
  | unsafe_
  /-- A method with no defined semantics. -/
  | unknown
  deriving DecidableEq

/-- Whether replaying changes the target. -/
def Effect.changesState (effect : Effect) : Bool := effect ≠ .read

/-- Whether replaying needs the user to say so. -/
def Effect.needsConfirmation (effect : Effect) : Bool := effect.changesState

/-- Classify a method by RFC 9110 semantics. -/
def effectOfMethod (method : Text) : Effect :=
  let upper := asciiUpper method
  if upper ∈ ["GET".toList, "HEAD".toList, "OPTIONS".toList, "TRACE".toList] then .read
  else if upper ∈ ["PUT".toList, "DELETE".toList] then .idempotent
  else if upper ∈ ["POST".toList, "PATCH".toList] then .unsafe_
  else .unknown

/-! ### Requests -/

/-- How a request is sent. -/
structure Settings where
  timeoutMs : UInt64 := 30000
  followRedirects : Bool := true
  maxRedirects : Nat := 10
  verifyTls : Bool := true
  proxy : Option Text := none
  /-- A client certificate: a PEM text, or a path to one. -/
  clientCert : Option Text := none
  /-- What the author declared about the effect. -/
  effect : Option Effect := none
  deriving DecidableEq

/-- Where a captured value is read. -/
inductive CaptureSource where
  | body
  | header
  | cookie
  | status
  deriving DecidableEq

/-- Bind a value out of the response to a variable for later requests. -/
structure VarCapture where
  var : Text
  source : CaptureSource
  path : Option Text
  deriving DecidableEq

/-- Where a request came from, when it was not typed by hand. -/
structure Origin where
  capture : Text
  promotedAt : UInt64
  page : Option Text
  deriving DecidableEq

/-- A single request as it lives on disk. -/
structure RequestSpec where
  name : Option Text
  description : Option Text
  method : Text
  url : Text
  headers : FieldMap
  query : FieldMap
  auth : Option Auth
  body : Option Body
  settings : Settings
  captures : List VarCapture
  origin : Option Origin
  deriving DecidableEq

/-- A request with a method and a URL only. `upper` is the upper-case mapping of the texts. -/
def RequestSpec.new (upper : Text → Text) (method url : Text) : RequestSpec :=
  { name := none, description := none, method := upper method, url, headers := .empty,
    query := .empty, auth := none, body := none, settings := {}, captures := [],
    origin := none }

/-- What replaying the request does: what the author declared, or what the method implies. -/
def RequestSpec.effect (spec : RequestSpec) : Effect :=
  spec.settings.effect.getD (effectOfMethod spec.method)

end Gabriel.Core
