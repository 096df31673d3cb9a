import Gabriel.Core.Sse
import Gabriel.Engine.Executor

/-!
# `Gabriel.Engine.Stream`: following an event stream

The second half of `execute_stream` of `gabriel-engine/src/lib.rs`: the loop that reads the body
of the response and hands each event to a callback.

`Watched` is the state of a call with a callback: the engine, and what the callback was given so
far. What a server sends is a list of arrivals; when the list is at its end, nothing more comes
and the time runs out.

The definitions:

* `deliver`: hand the events of a chunk to the callback, up to the limit.
* `readStream`: the loop over what arrives.
* `followStream`: the head of the stream, and the loop when it is one.
-/

set_option autoImplicit false

namespace Gabriel.Engine

open Gabriel.Core Text Fallible

variable {Url Seen : Type}

/-! ### Calls with a callback -/

/-- The state of a call that shows what happens. -/
structure Watched (Url Seen : Type) where
  engine : EngineState Url
  /-- What the callback was given, in order. -/
  seen : List Seen

/-- A call with a callback. -/
abbrev WatchedM (Url Seen α : Type) := Call EngineError (Watched Url Seen) α

/-- A call that has shown nothing yet. -/
def Watched.start (engine : EngineState Url) : Watched Url Seen := { engine, seen := [] }

/-- An engine call that shows nothing. -/
def unwatched {α : Type} (call : EngineM Url α) : WatchedM Url Seen α :=
  zoom (·.engine) (fun engine s => { s with engine }) call

/-- Call the callback. -/
def emit (item : Seen) : WatchedM Url Seen PUnit :=
  modify fun s => { s with seen := s.seen ++ [item] }

/-! ### The stream -/

/-- What waiting for the next piece of a body can give. -/
inductive Arrival where
  | chunk (bytes : List UInt8)
  | failed (described : Text)
  | closed

/-- Why the reading of a stream ended. -/
inductive StreamEnd where
  | closed
  | limitReached
  | timedOut
  | notAStream
  deriving DecidableEq

/-- A stream that was followed. -/
structure StreamOutcome extends StreamHead where
  events : List Sse.Event
  ended : StreamEnd

/-- Hand over the events of a chunk. The limit is looked at after each event, and reaching it is
the answer `true`. -/
def deliver (maxEvents : Nat) : List Sse.Event → WatchedM Url Sse.Event Bool
  | [] => pure false
  | event :: rest => do
    emit event
    if maxEvents ≤ (← get).seen.length then pure true else deliver maxEvents rest

/-- The loop over the body. -/
def readStream (maxEvents : Nat) :
    Sse.Parser → List Arrival → WatchedM Url Sse.Event StreamEnd
  | _, [] => pure .timedOut
  | parser, .closed :: _ =>
    -- A half-finished event is shown too.
    match parser.finish.1 with
    | some event => do
      emit event
      pure .closed
    | none => pure .closed
  | _, .failed described :: _ => throw (.transport described)
  | parser, .chunk bytes :: rest => do
    let (events, parser) := parser.push bytes
    if ← deliver maxEvents events then pure .limitReached
    else readStream maxEvents parser rest

/-- Send a request and follow its response. `feed` is what the server sends after the head, for
the requests on the wire. -/
def followStream (platform : Platform) (network : Network Url) (ctx : RunContext)
    (spec : RequestSpec) (maxEvents : Nat) (feed : List (WireRequest Url) → List Arrival) :
    WatchedM Url Sse.Event StreamOutcome := do
  let head ← unwatched (executeStream platform network ctx spec)
  if head.isStream then do
    let ended ← readStream maxEvents {} (feed (← get).engine.wire)
    pure { head with events := (← get).seen, ended }
  else pure { head with events := [], ended := .notAStream }

end Gabriel.Engine
