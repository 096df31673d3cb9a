import Gabriel.Proxy.Relay

/-!
# `Gabriel.Proxy.Serve`: the running proxy

`handle_request` and `intercept_tls` of `gabriel-proxy/src/lib.rs` as a state machine. Every
connection is served by a task of its own, so between the head of a response and its delivery any
other event may happen: a request is one event, the end of its relay is another one.

A `System` is what the proxy keeps, the connections that were made through it, the relays that
have not ended, and what the browser was given so far. A blind tunnel carries requests that the
proxy does not see. `plainUrls` is a library for URLs without a user and a port, for examples.

The definitions:

* `Event`: a connection, a request on it, or the end of a relay.
* `System.begin`, `System.deliver`: the two ends of a relay.
* `System.step`, `System.run`: one event, and a run.
* `System.Always`: what holds after every event of a run.
-/

set_option autoImplicit false

namespace Gabriel.Proxy

open Gabriel.Core Gabriel.Engine Text

/-- A relay that has not ended. `clock` is what recording its cookies reads. -/
structure Exchange where
  url : Text
  clock : Nat → UInt64
  head : Except Text Head

/-- A response that the browser was given. -/
structure Delivery where
  url : Text
  clock : Nat → UInt64
  response : ProxyResponse

/-- The running proxy. -/
structure System where
  state : ProxyState
  tunnels : List Tunnel := []
  pending : List Exchange := []
  delivered : List Delivery := []

/-- What happens to the proxy. -/
inductive Event where
  /-- A request on a new connection. -/
  | request (request : BrowserRequest) (encounter : Encounter)
  /-- A request inside a tunnel. -/
  | through (tunnel : Nat) (request : BrowserRequest) (encounter : Encounter)
  /-- The end of a relay. -/
  | finish (exchange : Nat) (readings : Readings)

/-- The proxy at its start, with the sessions it loaded. -/
def System.start (sessions : SessionStore) : System := { state := { sessions } }

section Machine

variable {Url : Type} (lib : HttpLib Url) (config : ProxyConfig)

/-- A request is dispatched, and its relay waits for the body of the response. -/
def System.begin (system : System) (request : BrowserRequest) (url : Text)
    (encounter : Encounter) : System :=
  let head := dispatchHead lib config system.state request url encounter
  { system with
    state := head.1
    pending := system.pending ++ [⟨url, encounter.clock, head.2⟩] }

/-- A relay ends: the browser is given a response. -/
def System.deliver (system : System) (index : Nat) (exchange : Exchange) (readings : Readings) :
    System :=
  let rest := dispatchRest lib config system.state exchange.head readings
  { system with
    state := rest.1
    pending := system.pending.eraseIdx index
    delivered := system.delivered ++ [⟨exchange.url, exchange.clock, rest.2⟩] }

/-- One event. -/
def System.step (system : System) : Event → System
  | .request request encounter =>
    if request.method = "CONNECT".toList then
      { system with tunnels := system.tunnels ++ (handleConnect config request).2.toList }
    else system.begin lib config request request.uri.text encounter
  | .through tunnel request encounter =>
    match system.tunnels[tunnel]? with
    | some (.intercepted host) => system.begin lib config request (innerUrl host request) encounter
    | _ => system
  | .finish index readings =>
    match system.pending[index]? with
    | some exchange => system.deliver lib config index exchange readings
    | none => system

/-- A run of the proxy. -/
def System.run (system : System) (events : List Event) : System :=
  events.foldl (System.step lib config) system

/-- A property of every step of a run. -/
def System.Always (P : System → Event → Prop) : System → List Event → Prop
  | _, [] => True
  | system, event :: events => P system event ∧ Always P (system.step lib config event) events

variable {lib config}

/-- A first event, and the others. -/
theorem System.run_cons (system : System) (event : Event) (events : List Event) :
    system.run lib config (event :: events)
        = (system.step lib config event).run lib config events :=
  rfl

/-- The induction over a run: an invariant that every step keeps where `P` holds of it, with a
consequence for each such step. -/
theorem System.always_of_invariant {P Q : System → Event → Prop} {I : System → Prop}
    (hstep : ∀ system event, I system → P system event →
      Q system event ∧ I (system.step lib config event))
    {system : System} {events : List Event} (hinit : I system)
    (h : system.Always lib config P events) :
    system.Always lib config Q events ∧ I (system.run lib config events) := by
  induction events generalizing system with
  | nil => exact ⟨trivial, hinit⟩
  | cons event events ih =>
    have hhere := hstep system event hinit h.1
    have hrest := ih hhere.2 h.2
    exact ⟨⟨hhere.1, hrest.1⟩, hrest.2⟩

end Machine

/-! ### A small library -/

/-- `http` and `https` URLs without a user and a port: whether it is `https`, the lower-case
host, and what follows it. -/
def plainUrls : UrlLib (Bool × Text × Text) where
  parse text :=
    let split (isTls : Bool) (rest : Text) : Bool × Text × Text :=
      (isTls, asciiLower (rest.takeWhile fun c => c ∉ ['/', '?', '#']),
        rest.dropWhile fun c => c ∉ ['/', '?', '#'])
    if "https://".toList <+: text then .ok (split true (text.drop 8))
    else if "http://".toList <+: text then .ok (split false (text.drop 7))
    else .error "relative URL without a base".toList
  join base reference := .ok (base.1, base.2.1, reference)
  scheme url := if url.1 then "https".toList else "http".toList
  hostStr url := some url.2.1
  portOrKnownDefault url := some (if url.1 then 443 else 80)
  path url := '/' :: (url.2.2.takeWhile fun c => c ∉ ['?', '#']).drop 1
  appendPairs url _ := url
  toText url := (if url.1 then "https://".toList else "http://".toList) ++ url.2.1 ++ url.2.2

/-- The library around it. -/
def plainLib : HttpLib (Bool × Text × Text) where
  urls := plainUrls
  beforePath url := url.2.2
  builderError _ := "builder error".toList
  canonicalReason _ := none
  b64Encode _ := []

/-- The target of a `CONNECT`. -/
def authorityUri (authority : Text) : Uri :=
  ⟨authority, some authority, none, fun p h => absurd h (Option.not_mem_none p)⟩

/-- A target that is a path. -/
def pathUri (rest : Text) : Uri where
  text := '/' :: rest
  authority := none
  pathAndQuery := some ('/' :: rest)
  form _ h := Or.inr (Or.inl (by rw [← Option.some.inj h]; rfl))

/-- A target that is an `http` URL. -/
def absoluteUri (authority rest : Text) : Uri :=
  { pathUri rest with
    text := "http://".toList ++ authority ++ '/' :: rest, authority := some authority }

/-- A request without headers. -/
def bareRequest (method : Text) (uri : Uri) : BrowserRequest where
  method := method
  uri := uri
  version := "HTTP/1.1".toList
  headers := ⟨[], fun _ h => absurd h List.not_mem_nil⟩

/-- The clock at its start. -/
def noReadings : Readings := ⟨0, 0, 0⟩

/-- An upstream that is reached and gives this answer. -/
def answeredBy (response : UpstreamResponse) : Encounter where
  requestBody := .ok []
  methodError := none
  buildError := none
  connectError := none
  serverNameError := none
  tlsError := none
  handshakeError := none
  answer := .ok response
  clock := fun _ => 0
  readings := noReadings

end Gabriel.Proxy
