import Gabriel.Engine.Executor

/-!
# `Gabriel.Engine.ClientPool`: the clients themselves

`client_for_mode` of `gabriel-engine/src/lib.rs` again, with the builder it configures. The pool of
`EngineState` keeps the keys of the clients alone, which is all that a run of requests depends on;
here a client is what it was built from.

`ClientTools` stands for the parts of the HTTP library that a builder uses. A build can fail, and
need not fail again: its outcome depends on how many builds there were before.

The definitions:

* `clientKey`: the key of a client, from the settings and the certificate.
* `configure`: the builder of a client, step by step; the proxy and the certificate can fail.
* `clientForMode`: a client from the pool, or a new one that is put into it.
-/

set_option autoImplicit false

namespace Gabriel.Engine

open Gabriel.Core Text Fallible

/-- What a client is configured with. -/
structure ClientBuilder (Proxy Identity : Type) where
  /-- The limit for a whole request. -/
  timeoutMs : Option UInt64 := none
  /-- The limit for connecting. -/
  connectTimeoutMs : Option UInt64 := none
  followsRedirects : Bool := true
  userAgent : Text := []
  acceptInvalidCerts : Bool := false
  proxies : List Proxy := []
  identity : Option Identity := none

/-- The parts of the HTTP library that a builder uses. -/
structure ClientTools (Proxy Identity : Type) where
  proxyAll : Text → Except Text Proxy
  identityFromPem : List UInt8 → Except Text Identity
  /-- Why a build fails, after some number of builds. -/
  buildError : Nat → ClientBuilder Proxy Identity → Option Text

/-- A client, and the number of its build. -/
structure Client (Proxy Identity : Type) where
  builtFrom : ClientBuilder Proxy Identity
  serial : Nat

/-- The pool. -/
structure ClientPool (Proxy Identity : Type) where
  clients : List (ClientKey × Client Proxy Identity)
  /-- How often a build was tried. -/
  builds : Nat

/-- The user agent of every client. -/
def userAgent : Text := "gabriel/0.1.0-preview.2".toList

variable {Proxy Identity : Type}

namespace ClientPool

/-- The pool of a new executor. -/
def empty : ClientPool Proxy Identity := ⟨[], 0⟩

/-- The client of a key. -/
def get? (pool : ClientPool Proxy Identity) (key : ClientKey) : Option (Client Proxy Identity) :=
  (pool.clients.find? fun e => e.1 = key).map (·.2)

/-- Add a client. -/
def insert (pool : ClientPool Proxy Identity) (key : ClientKey) (client : Client Proxy Identity) :
    ClientPool Proxy Identity :=
  { pool with clients := pool.clients ++ [(key, client)] }

/-- Count a build. -/
def nextBuild (pool : ClientPool Proxy Identity) : ClientPool Proxy Identity :=
  { pool with builds := pool.builds + 1 }

/-- A call on the pool. -/
abbrev PoolM (Proxy Identity α : Type) := Call EngineError (ClientPool Proxy Identity) α

/-- The key of a client for some settings. -/
def clientKey (settings : Settings) (identity : Option IdentityMaterial) (streaming : Bool) :
    ClientKey :=
  { timeoutMs := settings.timeoutMs, verifyTls := settings.verifyTls, proxy := settings.proxy,
    streaming, identity := identity.map (·.fingerprint) }

/-- The builder of a client for some settings, without its proxy and its certificate. -/
def baseBuilder (settings : Settings) (streaming : Bool) : ClientBuilder Proxy Identity :=
  { timeoutMs := if streaming then none else some settings.timeoutMs
    -- A limit for the whole request would end a healthy stream.
    connectTimeoutMs := if streaming then some settings.timeoutMs else none
    followsRedirects := false
    userAgent
    acceptInvalidCerts := !settings.verifyTls }

/-- Add the proxy that the settings name. -/
def addProxy (tools : ClientTools Proxy Identity) (settings : Settings)
    (builder : ClientBuilder Proxy Identity) : Except EngineError (ClientBuilder Proxy Identity) :=
  match settings.proxy with
  | none => .ok builder
  | some proxy =>
    match tools.proxyAll proxy with
    | .ok parsed => .ok { builder with proxies := builder.proxies ++ [parsed] }
    | .error message => .error (.client message)

/-- Set the certificate. -/
def addIdentity (tools : ClientTools Proxy Identity) (settings : Settings)
    (identity : Option IdentityMaterial) (builder : ClientBuilder Proxy Identity) :
    Except EngineError (ClientBuilder Proxy Identity) :=
  match identity with
  | none => .ok builder
  | some identity =>
    match tools.identityFromPem identity.pem with
    | .ok parsed => .ok { builder with identity := some parsed }
    | .error message => .error (.clientCert (settings.clientCert.getD []) message)

/-- The builder of a client for some settings. -/
def configure (tools : ClientTools Proxy Identity) (settings : Settings)
    (identity : Option IdentityMaterial) (streaming : Bool) :
    Except EngineError (ClientBuilder Proxy Identity) := do
  let builder ← addProxy tools settings (baseBuilder settings streaming)
  addIdentity tools settings identity builder

/-- Build a client. -/
def build (tools : ClientTools Proxy Identity) (builder : ClientBuilder Proxy Identity) :
    PoolM Proxy Identity (Client Proxy Identity) := do
  let serial := (← get).builds
  modify (·.nextBuild)
  match tools.buildError serial builder with
  | none => pure ⟨builder, serial⟩
  | some message => throw (.client message)

/-- The pooled client for the settings of a request, built when there is none. -/
def clientForMode (tools : ClientTools Proxy Identity) (spec : RequestSpec)
    (identity : Option IdentityMaterial) (streaming : Bool) :
    PoolM Proxy Identity (Client Proxy Identity) := do
  let key := clientKey spec.settings identity streaming
  match (← get).get? key with
  | some client => pure client
  | none =>
    match configure tools spec.settings identity streaming with
    | .error error => throw error
    | .ok builder => do
      let client ← build tools builder
      modify (·.insert key client)
      pure client

/-- The pooled client of a request that is not followed. -/
def clientFor (tools : ClientTools Proxy Identity) (spec : RequestSpec)
    (identity : Option IdentityMaterial) : PoolM Proxy Identity (Client Proxy Identity) :=
  clientForMode tools spec identity false

end ClientPool

end Gabriel.Engine
