import Gabriel.Core.Json
import Gabriel.Core.Vars
import Gabriel.Lib.Utf8

/-!
# `Gabriel.Engine.Body`: the body of a request

`build_body` and the form encoder of `gabriel-engine/src/lib.rs`, with the error type of the
engine. `Platform` collects what the engine calls outside the repository: the JSON library, the
base64 encoder and the file system.

The definitions:

* `Platform`: the libraries and the file system.
* `urlencode`: the form encoder of the engine: a space becomes a plus sign.
* `buildBody`: the bytes of a body and its content type, with all its texts resolved.
* `graphQlPayload`: the JSON of a query and its variables.
-/

set_option autoImplicit false

namespace Gabriel.Engine

open Gabriel.Core Text

/-- What running a request can fail with. -/
inductive EngineError where
  | template (error : CoreError)
  | badUrl (url message : Text)
  | transport (message : Text)
  | client (message : Text)
  | auth (message : Text)
  | bodyFile (path : Text)
  | clientCertFile (path : Text)
  | clientCert (reference message : Text)
  | invalid (message : Text)
  deriving DecidableEq

/-- An error as it prints itself. -/
def EngineError.display : EngineError → Text
  | .template error => error.display
  | .badUrl url message => url ++ " is not a valid URL: ".toList ++ message
  | .transport message => "request failed: ".toList ++ message
  | .client message => "could not build an HTTP client: ".toList ++ message
  | .auth message => message
  | .bodyFile path => "body file ".toList ++ path
  | .clientCertFile path => "client certificate ".toList ++ path
  | .clientCert reference message => "client certificate `".toList ++ reference
      ++ "` is not a usable PEM identity: ".toList ++ message
  | .invalid message => message

/-- The libraries and the file system. -/
structure Platform where
  world : World
  b64Encode : List UInt8 → Text
  /-- The JSON decoder, with the text of its error. -/
  parseJson : List UInt8 → Except Text Json
  /-- The compact JSON encoder. -/
  renderJson : Json → Text
  joinPath : Text → Text → Text
  readFile : Text → Option (List UInt8)

/-- A platform where nothing is there. -/
def emptyPlatform : Platform :=
  { world := ⟨fun _ => none, fun _ => 0, fun _ => 0, fun _ => 0⟩, b64Encode := fun _ => [],
    parseJson := fun _ => .error [], renderJson := fun _ => [], joinPath := fun _ _ => [],
    readFile := fun _ => none }

/-- A call that may fail and changes the resolver either way. -/
abbrev BodyM (α : Type) := Fallible.Call EngineError Resolver α

/-- A resolver call inside the engine. -/
def liftCore {α : Type} (call : ResolverM α) : BodyM α := ExceptT.adapt .template call

/-- The body as it is sent. -/
structure PreparedBody where
  bytes : List UInt8
  contentType : Option Text

/-- The upper-case hexadecimal digit of a number below 16. -/
def hexUpper (n : Nat) : Char := (Nat.digitChar n).toUpper

/-- Whether the encoder writes a byte as it is. -/
def isUnreserved (b : UInt8) : Bool :=
  (0x41 ≤ b.toNat && b.toNat ≤ 0x5A) || (0x61 ≤ b.toNat && b.toNat ≤ 0x7A)
    || (0x30 ≤ b.toNat && b.toNat ≤ 0x39) || b == 0x2D || b == 0x5F || b == 0x2E || b == 0x7E

/-- The form encoding of a byte. -/
def urlencodeByte (b : UInt8) : Text :=
  if isUnreserved b then [Char.ofNat b.toNat]
  else if b = 0x20 then ['+']
  else ['%', hexUpper (b.toNat / 16), hexUpper (b.toNat % 16)]

/-- The form encoding of a text. -/
def urlencode (input : Text) : Text := (Utf8.encode input).flatMap urlencodeByte

/-- Append one form field. -/
def encodeField (world : World) (encoded : Text) (field : Text × Text) : BodyM Text := do
  let key ← liftCore (Resolver.resolve world field.1)
  let value ← liftCore (Resolver.resolve world field.2)
  let encoded := if encoded = [] then [] else encoded ++ ['&']
  pure (encoded ++ urlencode key ++ '=' :: urlencode value)

/-- The payload of a GraphQL body. -/
def graphQlPayload (platform : Platform) (query : Text) (vars operationName : Option Text) :
    BodyM Json := do
  let query ← liftCore (Resolver.resolve platform.world query)
  let payload := SortedMap.empty.insert "query".toList (Json.string query)
  let payload ← match vars with
    | some vars => do
      let resolved ← liftCore (Resolver.resolve platform.world vars)
      match platform.parseJson (Utf8.encode resolved) with
      | .ok parsed => pure (payload.insert "variables".toList parsed)
      | .error message =>
        throw (.template (.invalid ("graphql variables: ".toList ++ message)))
    | none => pure payload
  let payload ← match operationName with
    | some name => do
      let resolved ← liftCore (Resolver.resolve platform.world name)
      pure (payload.insert "operationName".toList (.string resolved))
    | none => pure payload
  pure (.object payload.entries)

/-- The body of a request, resolved. -/
def buildBody (platform : Platform) (baseDir : Text) (spec : RequestSpec) :
    BodyM (Option PreparedBody) := do
  match spec.body with
  | none => pure none
  | some .none => pure none
  | some (.json content) =>
    let resolved ← liftCore (Resolver.resolve platform.world content)
    pure (some ⟨Utf8.encode resolved, some "application/json".toList⟩)
  | some (.text content contentType) =>
    let resolved ← liftCore (Resolver.resolve platform.world content)
    pure (some ⟨Utf8.encode resolved, some (contentType.getD "text/plain".toList)⟩)
  | some (.form fields) =>
    let encoded ← fields.entries.foldlM (encodeField platform.world) []
    pure (some ⟨Utf8.encode encoded, some "application/x-www-form-urlencoded".toList⟩)
  | some (.graphQl query vars operationName) =>
    let payload ← graphQlPayload platform query vars operationName
    pure (some ⟨Utf8.encode (platform.renderJson payload), some "application/json".toList⟩)
  | some (.file path contentType) =>
    let resolved ← liftCore (Resolver.resolve platform.world path)
    let full := platform.joinPath baseDir resolved
    match platform.readFile full with
    | some bytes =>
      pure (some ⟨bytes, some (contentType.getD "application/octet-stream".toList)⟩)
    | none => throw (.bodyFile full)

end Gabriel.Engine
