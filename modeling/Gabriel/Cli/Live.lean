import Gabriel.Cli.Output
import Gabriel.Cli.Run
import Gabriel.Engine.Websocket

/-!
# `Gabriel.Cli.Live`: what is printed while a request runs

`run --stream` and `ws` of `gabriel-cli/src/main.rs`. Both give the engine a callback that prints
one line for each event or frame, and both take the redactor of these lines before they call the
engine. `Printed` is what there is to see when the call is over: the lines, and the error if it
failed. The summary that follows a stream which was read to its end is in `streamLines`, the one
of a socket is left out.

The definitions:

* `eventLine`, `frameLine`: the line of an event, and that of a frame.
* `openSocket`: what `ws` has ready before it opens the socket.
* `streamPrinted`, `socketPrinted`: what there is to see of a stream and of a socket.
* `streamLines`: the lines of a stream with the summary behind them.
-/

set_option autoImplicit false

namespace Gabriel.Cli

open Gabriel.Core Gabriel.Engine Text Fallible

/-- What a command needs to print. -/
structure Terminal where
  tools : PrintTools
  style : Style
  /-- What the system says about a file that cannot be read. -/
  osError : Text → Text

/-- What an engine call has printed when it is over. -/
structure Printed where
  lines : List Text
  /-- The message of the error that ended the call. -/
  error : Option Text
  /-- The secrets that were substituted, the longest first. -/
  used : List Text

/-- An engine error after its context, with the cause behind it. -/
def errorReport (osError : Text → Text) (context : Text) (error : EngineError) : Text :=
  let cause := match error with
    | .bodyFile path | .clientCertFile path => ": ".toList ++ osError path
    | _ => []
  context ++ ": ".toList ++ error.display ++ cause

/-- Fill a text up with spaces on the left. -/
def padLeft (width : Nat) (text : Text) : Text :=
  List.replicate (width - text.length) ' ' ++ text

variable {Url : Type}

/-- What was printed of an engine call that is over. -/
def printedOf {Seen Outcome : Type} (terminal : Terminal) (context : Text)
    (line : Nat → Seen → Text) (run : Except EngineError Outcome × Watched Url Seen) : Printed :=
  { lines := run.2.seen.mapIdx line
    error := match run.1 with
      | .error error =>
        some (terminal.style.safe (errorReport terminal.osError context error))
      | .ok _ => none
    used := run.2.engine.resolver.usedSecretList }

/-! ### Streams -/

/-- The data of an event. JSON is printed on one line. -/
def eventText (tools : PrintTools) (event : Sse.Event) : Text :=
  match tools.platform.parseJson (Utf8.encode event.data) with
  | .ok json => tools.platform.renderJson json
  | .error _ => event.data

/-- The line of an event. -/
def eventLine (terminal : Terminal) (redactor : Redactor) (index : Nat) (event : Sse.Event) :
    Text :=
  terminal.style.dim (padLeft 4 (natText (index + 1))) ++ ' ' ::
    terminal.style.cyan (event.name.getD "message".toList) ++ ' ' ::
    terminal.style.safe (redactor.apply (eventText terminal.tools event))

/-- Follow the stream of a request. The redactor knows the secrets of the resolver as it is
before the call. -/
def streamPrinted (terminal : Terminal) (around : Surroundings Url) (args : RunArgs)
    (maxEvents : Nat) (feed : List (WireRequest Url) → List Arrival) (opened : Opened Url)
    (entry : RequestEntry) : Printed :=
  let spec := opened.collection.applyDefaults entry.spec
  let redactor := Redactor.forCommand opened.engine.resolver.usedSecretList args.showSecrets
  printedOf terminal (doing "streaming".toList entry.id) (eventLine terminal redactor)
    (exec (followStream around.platform around.network opened.ctx spec maxEvents feed)
      (.start opened.engine))

/-- The limits of a stream. -/
structure StreamLimits where
  maxEvents : Nat
  /-- In seconds. -/
  timeout : Nat

/-- The note about the way a stream ended, if there is one. -/
def streamEndLines (style : Style) (limits : StreamLimits) (outcome : StreamOutcome) : List Text :=
  match outcome.ended with
  | .closed => []
  | .limitReached =>
    [style.dim ("stopped at --events ".toList ++ natText limits.maxEvents)]
  | .timedOut =>
    [style.dim ("stopped after --stream-timeout ".toList ++ natText limits.timeout ++ ['s'])]
  | .notAStream =>
    [style.yellow "note:".toList ++ " content-type is ".toList
      ++ (outcome.headers.getFirst "content-type".toList).getD "none".toList
      ++ ", not text/event-stream — run without --stream".toList]

/-- What is printed when a stream was followed to its end. -/
def streamSummary (terminal : Terminal) (limits : StreamLimits) (durationMs : UInt64)
    (outcome : StreamOutcome) : List Text :=
  let style := terminal.style
  [[], List.intercalate [' '] [style.status outcome.status, style.dim outcome.statusText,
      style.dim ['·'], natText outcome.events.length, "events in".toList,
      formatDuration terminal.tools durationMs]]
    ++ streamEndLines style limits outcome

/-- All that `run --stream` prints of a call that is over: the line of each event, and the
summary when the call succeeded. -/
def streamLines (terminal : Terminal) (redactor : Redactor) (limits : StreamLimits)
    (durationMs : UInt64) (run : Except EngineError StreamOutcome × Watched Url Sse.Event) :
    List Text :=
  run.2.seen.mapIdx (eventLine terminal redactor) ++ match run.1 with
    | .ok outcome => streamSummary terminal limits durationMs outcome
    | .error _ => []

/-! ### Sockets -/

/-- The arguments of `ws`. -/
structure WsArgs where
  /-- A URL, or a request of the collection. -/
  target : Text
  send : List Text := []
  messages : Nat := 50
  closeAfterSend : Bool := false
  subprotocols : List Text := []
  env : Option Text := none
  vars : List Text := []
  session : Option Text := none

/-- What a socket starts from. -/
structure OpenedSocket (Url : Type) where
  spec : RequestSpec
  ctx : RunContext
  engine : EngineState Url

/-- The request of a socket. A URL is one too; its method is in capitals already. -/
def socketSpec (around : Surroundings Url) (collection : Collection) (target : Text) :
    Except CollectionError RequestSpec :=
  if "://".toList <:+: target then .ok (RequestSpec.new id "GET".toList target)
  else (collection.find around.lower target).map fun entry => collection.applyDefaults entry.spec

/-- Everything that `ws` does before it opens the socket. -/
def openSocket (around : Surroundings Url) (args : WsArgs) :
    Except CliError (OpenedSocket Url) := do
  let collection ← around.collection.mapError .collection
  let spec ← (socketSpec around collection args.target).mapError .collection
  let environment ← (chooseEnvironment around.environments args.env).mapError .collection
  let resolver : Resolver := (Resolver.new.withSecrets around.vault).withVars
    (collection.variablesFor environment).entries
  let assignments ← args.vars.mapM parseAssignment
  let resolver := assignments.foldl (fun r e => r.set e.1 e.2) resolver
  let sessions ← around.sessions.mapError (.io "sessions".toList)
  match around.runtimeError with
  | some message => .error (.io "starting the async runtime".toList message)
  | none =>
    .ok { spec
          ctx := { session := args.session.getD "default".toList, baseDir := collection.root }
          engine := { EngineState.fresh with resolver, sessions } }

/-- The arrow of a frame. -/
def arrow (style : Style) : Websocket.Direction → Text
  | .sent => style.cyan ['→']
  | .received => style.green ['←']

/-- The line of a frame. -/
def frameLine (terminal : Terminal) (redactor : Redactor) (frame : Websocket.Frame) : Text :=
  terminal.style.dim (padLeft 6 (formatDuration terminal.tools frame.atMs)) ++ ' ' ::
    arrow terminal.style frame.direction ++ ' ' ::
    terminal.style.safe (redactor.apply (frame.payload.summary (formatBytes terminal.tools)))

/-- Use a socket. Here too, the redactor knows the secrets of the resolver before the call. -/
def socketPrinted (terminal : Terminal) (around : Surroundings Url) (lib : Websocket.SocketLib)
    (args : WsArgs) (opened : OpenedSocket Url) : Printed :=
  let plan : Websocket.WebSocketPlan :=
    { send := args.send, maxMessages := args.messages, closeAfterSend := args.closeAfterSend
      subprotocols := args.subprotocols }
  let redactor := Redactor.forCommand opened.engine.resolver.usedSecretList false
  printedOf terminal (doing "websocket".toList args.target)
    (fun _ => frameLine terminal redactor)
    (exec (Websocket.run around.platform around.network lib opened.ctx opened.spec plan)
      (.start opened.engine))

end Gabriel.Cli
