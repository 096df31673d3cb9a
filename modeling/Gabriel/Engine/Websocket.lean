import Gabriel.Engine.Stream

/-!
# `Gabriel.Engine.Websocket`: the WebSocket client

`run` of `gabriel-engine/src/websocket.rs`. `SocketLib` stands for the library that opens the
socket and for the server behind it: what a server answers depends on the handshake and on the
messages that were sent. Frames carry the time that `elapsed` gives for their position.

The definitions:

* `toWebsocketUrl`: the URL of the socket.
* `authHeaders`: the headers of the authentication; an API key and OAuth add none.
* `makeHandshake`: the handshake: the URL, the headers, the authentication and the subprotocols.
* `sendAll`: resolve the messages of a plan and send them, one after the other.
* `listen`: the loop over what the server sends, up to the limit.
* `run`: the whole call.
-/

set_option autoImplicit false

namespace Gabriel.Engine.Websocket

open Gabriel.Core Text Fallible

/-! ### Frames -/

/-- What a frame carries, as the caller sees it. -/
inductive Payload where
  | text (text : Text)
  | binary (bytes : List UInt8)
  | ping (bytes : List UInt8)
  | pong (bytes : List UInt8)
  | close (code : Option UInt16) (reason : Text)
  deriving DecidableEq

/-- A one-line rendering for a terminal or a log. -/
def Payload.summary (formatBytes : Nat → Text) : Payload → Text
  | .text content => content
  | .binary bytes => '<' :: formatBytes bytes.length ++ " of binary>".toList
  | .ping _ => "<ping>".toList
  | .pong _ => "<pong>".toList
  | .close (some code) reason =>
    "<close ".toList ++ natText code.toNat
      ++ (if reason = [] then [] else ": ".toList ++ reason) ++ ['>']
  | .close none _ => "<close>".toList

/-- Keep-alives do not count towards the limit. -/
def Payload.counts : Payload → Bool
  | .ping _ | .pong _ => false
  | _ => true

/-- The way a frame went. -/
inductive Direction where
  | sent
  | received
  deriving DecidableEq

/-- One frame, in either direction. -/
structure Frame where
  direction : Direction
  payload : Payload
  /-- Milliseconds since the socket opened. -/
  atMs : UInt64
  deriving DecidableEq

/-- A message of the library. -/
inductive Message where
  | text (text : Text)
  | binary (bytes : List UInt8)
  | ping (bytes : List UInt8)
  | pong (bytes : List UInt8)
  | close (frame : Option (UInt16 × Text))
  | frame
  deriving DecidableEq

/-- What a message carries. A raw frame carries nothing that a caller can act on. -/
def payloadOf : Message → Option Payload
  | .text text => some (.text text)
  | .binary bytes => some (.binary bytes)
  | .ping bytes => some (.ping bytes)
  | .pong bytes => some (.pong bytes)
  | .close frame => some (.close (frame.map (·.1)) ((frame.map (·.2)).getD []))
  | .frame => none

/-! ### The library and the server -/

/-- The request that opens a socket. -/
structure Handshake where
  url : Text
  headers : List (Text × Text)
  deriving DecidableEq

/-- What waiting for the next message can give. -/
inductive SocketArrival where
  | message (message : Message)
  | failed (described : Text)
  | ended

/-- The WebSocket library and the servers. -/
structure SocketLib where
  /-- The headers of a handshake with a URL, or why it is no URL of a socket. -/
  intoClientRequest : Text → Except Text (List (Text × Text))
  headerNameError : Text → Option Text
  headerValueError : Text → Option Text
  /-- The status of the answer, and the subprotocol that was selected. -/
  connect : Handshake → Except Text (UInt16 × Option Text)
  /-- Why the last of the messages cannot be sent. -/
  sendError : Handshake → List Text → Option Text
  /-- What arrives after these messages. After the last arrival nothing comes. -/
  receive : Handshake → List Text → List SocketArrival
  /-- The time of a frame, by its position. -/
  elapsed : Nat → UInt64

/-- What to send, and how long to listen. -/
structure WebSocketPlan where
  /-- Text frames to send once the socket opens, in order. -/
  send : List Text := []
  /-- Stop after this many received frames. -/
  maxMessages : Nat := 50
  /-- Close the socket after sending, without waiting for more. -/
  closeAfterSend : Bool := false
  subprotocols : List Text := []

/-- Why the listening ended. -/
inductive SocketEnd where
  | closedByServer
  | closedAfterSend
  | messageLimitReached
  | timedOut
  deriving DecidableEq

/-- A socket that was open. -/
structure WebSocketOutcome where
  sent : SentRequest
  status : UInt16
  subprotocol : Option Text
  frames : List Frame
  ended : SocketEnd

/-! ### The handshake -/

/-- Accept the URL forms people have to hand: a web URL is one of a socket too. -/
def toWebsocketUrl (url : Text) : Except EngineError Text :=
  let trimmed := trim url
  match splitOnce "://".toList trimmed with
  | none =>
    .error (.badUrl trimmed "expected a ws://, wss://, http:// or https:// URL".toList)
  | some (scheme, rest) =>
    let scheme := asciiLower scheme
    let socketScheme :=
      if scheme ∈ ["ws".toList, "http".toList] then some "ws".toList
      else if scheme ∈ ["wss".toList, "https".toList] then some "wss".toList
      else none
    match socketScheme with
    | none =>
      .error (.badUrl trimmed ("`".toList ++ scheme ++ "` is not a websocket scheme".toList))
    | some socketScheme =>
      if rest = [] then .error (.badUrl trimmed "no host".toList)
      else .ok (socketScheme ++ "://".toList ++ rest)

/-- Put a header in the place of the one with its name. -/
def insertHeader (headers : List (Text × Text)) (name value : Text) : List (Text × Text) :=
  let name := asciiLower name
  if headers.any (·.1 = name) then headers.map fun e => if e.1 = name then (name, value) else e
  else headers ++ [(name, value)]

/-- Put headers into a request, as long as the library accepts them. -/
def insertHeaders (lib : SocketLib) :
    List (Text × Text) → List (Text × Text) → Except EngineError (List (Text × Text))
  | [], headers => .ok headers
  | (name, value) :: rest, headers =>
    match lib.headerNameError name with
    | some message =>
      .error (.invalid ("header `".toList ++ name ++ "`: ".toList ++ message))
    | none =>
      match lib.headerValueError value with
      | some message => .error (.invalid ("header value: ".toList ++ message))
      | none => insertHeaders lib rest (insertHeader headers name value)

variable {Url : Type}

/-- The headers of the authentication. An API key and OAuth add nothing to a handshake. -/
def authHeaders (platform : Platform) (network : Network Url) (ctx : RunContext) (url : Text) :
    Option Auth → EngineM Url (List (Text × Text))
  | some (.bearer token) => do
    let token ← resolveText platform token
    pure [("Authorization".toList, "Bearer ".toList ++ token)]
  | some (.basic username password) => do
    let username ← resolveText platform username
    let password ← resolveText platform password
    pure [("Authorization".toList, basicCredential platform username password)]
  | some (.session session) =>
    match network.urls.parse url with
    | .error _ => pure []
    | .ok parsed => do
      let now ← readClock network
      let s ← get
      let cookie := s.sessions.cookieHeader now (session.getD ctx.session)
        ((network.urls.hostStr parsed).getD []) (network.urls.path parsed)
        (network.urls.scheme parsed = "wss".toList)
      pure (cookie.map fun cookie => ("Cookie".toList, cookie)).toList
  | _ => pure []

/-- The handshake of a request, and the report of it. -/
def makeHandshake (platform : Platform) (network : Network Url) (lib : SocketLib)
    (ctx : RunContext) (spec : RequestSpec) (subprotocols : List Text) :
    EngineM Url (Handshake × SentRequest) := do
  let resolved ← resolveText platform spec.url
  match toWebsocketUrl resolved with
  | .error error => throw error
  | .ok url =>
    match lib.intoClientRequest url with
    | .error message => throw (.badUrl url message)
    | .ok base => do
      let headers ← onResolver (liftCore (Resolver.resolveMap platform.world spec.headers))
      let auth ← authHeaders platform network ctx url spec.auth
      let protocols := if subprotocols = [] then []
        else [("Sec-WebSocket-Protocol".toList, List.intercalate ", ".toList subprotocols)]
      let headerList := headers.iterPairs ++ auth ++ protocols
      match insertHeaders lib headerList base with
      | .error error => throw error
      | .ok headers =>
        pure (⟨url, headers⟩,
          { method := "GET".toList, url, headers := headerList, body := none })

/-! ### The session -/

/-- Show a frame. -/
def record (lib : SocketLib) (direction : Direction) (payload : Payload) :
    WatchedM Url Frame PUnit := do
  let s ← get
  emit { direction, payload, atMs := lib.elapsed s.seen.length }

/-- Send the messages of a plan, after those that were sent. -/
def sendAll (platform : Platform) (lib : SocketLib) (handshake : Handshake) :
    List Text → List Text → WatchedM Url Frame (List Text)
  | [], sent => pure sent
  | template :: rest, sent => do
    let text ← unwatched (resolveText platform template)
    match lib.sendError handshake (sent ++ [text]) with
    | some message => throw (.transport ("sending failed: ".toList ++ message))
    | none => do
      record lib .sent (.text text)
      sendAll platform lib handshake rest (sent ++ [text])

/-- Listen, with a number of frames received so far. -/
def listen (lib : SocketLib) (maxMessages : Nat) :
    List SocketArrival → Nat → WatchedM Url Frame SocketEnd
  | [], _ => pure .timedOut
  | .ended :: _, _ => pure .closedByServer
  | .failed described :: _, _ => throw (.transport ("websocket error: ".toList ++ described))
  | .message message :: rest, received =>
    match payloadOf message with
    | none => listen lib maxMessages rest received
    | some payload => do
      record lib .received payload
      match payload with
      | .close _ _ => pure .closedByServer
      | payload =>
        if payload.counts then
          if maxMessages ≤ received + 1 then pure .messageLimitReached
          else listen lib maxMessages rest (received + 1)
        else listen lib maxMessages rest received

/-- Open a socket, send what was planned, and collect frames until a limit is hit. -/
def run (platform : Platform) (network : Network Url) (lib : SocketLib) (ctx : RunContext)
    (spec : RequestSpec) (plan : WebSocketPlan) : WatchedM Url Frame WebSocketOutcome := do
  let (handshake, sent) ←
    unwatched (makeHandshake platform network lib ctx spec plan.subprotocols)
  match lib.connect handshake with
  | .error message => throw (.transport ("websocket handshake failed: ".toList ++ message))
  | .ok (status, subprotocol) => do
    let texts ← sendAll platform lib handshake plan.send []
    let ended ← if plan.closeAfterSend then pure .closedAfterSend
      else listen lib plan.maxMessages (lib.receive handshake texts) 0
    pure { sent, status, subprotocol, frames := (← get).seen, ended }

end Gabriel.Engine.Websocket
