import Gabriel.Cli.Live
import Gabriel.Proofs.Consent
import Gabriel.Proofs.OutputSecrets

/-!
# `Gabriel.Proofs.Live`: do streams and sockets hide the secrets they use?

The redactor of `run --stream` and of `ws` is made from the secrets that the resolver has
substituted before the engine is called. The resolver is new then, so the redactor knows nothing,
and every secret that the call substitutes is printed wherever the server or a message to send
brings it up.

So each command is told by its lines as they were before redaction: the events of a stream, the
frames of a socket in both directions, and the error that ended the call (`StreamBringsUpNone`,
`SocketBringsUpNone`). The theorems:

* `openRun_used`, `openSocket_used`: a run or a socket that is opened has substituted nothing.
* `forCommand_of_unused`: the redactor of such a resolver knows nothing.
* `printedOf_hides_iff`: lines that are printed as they are hide a secret when they bring up none.
* `hides_iff`: both commands hide the secrets that they use exactly when the call brings up none.
* `not_hides_of_shows`: one printed line with a token that was used is enough for the converse.
-/

set_option autoImplicit false

namespace Gabriel.Cli

open Gabriel.Core Gabriel.Engine Text Fallible

/-! ### The promise -/

/-- No value that was substituted, and is long enough to be masked, is printed. -/
def Printed.Hides (printed : Printed) : Prop :=
  ∀ v ∈ printed.used, minSecretLen ≤ utf8Len v →
    ¬ Shows v printed.lines ∧ ∀ message ∈ printed.error, ¬ v <:+: message

variable {Url : Type}

/-- Following a stream prints no secret it uses. -/
def StreamHides (terminal : Terminal) (around : Surroundings Url) (args : RunArgs)
    (maxEvents : Nat) (feed : List (WireRequest Url) → List Arrival) : Prop :=
  ∀ opened entry, openRun around args = .ok opened → opened.targets.head? = some entry →
    (streamPrinted terminal around args maxEvents feed opened entry).Hides

/-- Using a socket prints no secret it uses. -/
def SocketHides (terminal : Terminal) (around : Surroundings Url) (lib : Websocket.SocketLib)
    (args : WsArgs) : Prop :=
  ∀ opened, openSocket around args = .ok opened →
    (socketPrinted terminal around lib args opened).Hides

/-! ### What decides it -/

/-- An event as the server sent it: its number, its name and its data. -/
def plainEvent (terminal : Terminal) (index : Nat) (event : Sse.Event) : Text :=
  terminal.style.dim (padLeft 4 (natText (index + 1))) ++ ' ' ::
    terminal.style.cyan (event.name.getD "message".toList) ++ ' ' ::
    terminal.style.safe (eventText terminal.tools event)

/-- A frame as it was sent or received: its time, its way and its text. -/
def plainFrame (terminal : Terminal) (frame : Websocket.Frame) : Text :=
  terminal.style.dim (padLeft 6 (formatDuration terminal.tools frame.atMs)) ++ ' ' ::
    arrow terminal.style frame.direction ++ ' ' ::
    terminal.style.safe (frame.payload.summary (formatBytes terminal.tools))

/-- What a call brought up, and the error that ended it, hold no long value that it
substituted. -/
def BringsUpNone {Seen Outcome : Type} (terminal : Terminal) (context : Text)
    (plain : Nat → Seen → Text) (run : Except EngineError Outcome × Watched Url Seen) : Prop :=
  ∀ v ∈ run.2.engine.resolver.usedSecretList, minSecretLen ≤ utf8Len v →
    (∀ index item, run.2.seen[index]? = some item → ¬ v <:+: plain index item) ∧
      ∀ error, run.1 = .error error →
        ¬ v <:+: terminal.style.safe (errorReport terminal.osError context error)

/-- A stream whose events and error hold no secret of its request. -/
def StreamBringsUpNone (terminal : Terminal) (around : Surroundings Url) (args : RunArgs)
    (maxEvents : Nat) (feed : List (WireRequest Url) → List Arrival) : Prop :=
  ∀ opened entry, openRun around args = .ok opened → opened.targets.head? = some entry →
    BringsUpNone terminal (doing "streaming".toList entry.id) (plainEvent terminal)
      (exec (followStream around.platform around.network opened.ctx
        (opened.collection.applyDefaults entry.spec) maxEvents feed) (.start opened.engine))

/-- A socket whose frames and error hold no secret of its request. -/
def SocketBringsUpNone (terminal : Terminal) (around : Surroundings Url)
    (lib : Websocket.SocketLib) (args : WsArgs) : Prop :=
  ∀ opened, openSocket around args = .ok opened →
    BringsUpNone terminal (doing "websocket".toList args.target) (fun _ => plainFrame terminal)
      (exec (Websocket.run around.platform around.network lib opened.ctx opened.spec
        { send := args.send, maxMessages := args.messages, closeAfterSend := args.closeAfterSend
          subprotocols := args.subprotocols }) (.start opened.engine))

/-! ### The redactor -/

section Snapshot

variable (around : Surroundings Url)

/-- Binding variables substitutes nothing. -/
theorem usedSecrets_set (assignments : List (Text × Text)) (r : Resolver) :
    (assignments.foldl (fun r e => r.set e.1 e.2) r).usedSecrets = r.usedSecrets := by
  induction assignments generalizing r with
  | nil => rfl
  | cons e assignments ih => exact ih (r.set e.1 e.2)

/-- A run that is opened has substituted nothing. -/
theorem openRun_used {args : RunArgs} {opened : Opened Url}
    (h : openRun around args = .ok opened) :
    opened.engine.resolver.usedSecrets = .empty := by
  unfold openRun at h
  obtain ⟨collection, -, h⟩ := bind_eq_ok h
  obtain ⟨environment, -, h⟩ := bind_eq_ok h
  obtain ⟨targets, -, h⟩ := bind_eq_ok h
  obtain ⟨assignments, -, h⟩ := bind_eq_ok h
  obtain ⟨sessions, -, h⟩ := bind_eq_ok h
  split at h
  · exact absurd h (by simp)
  · obtain rfl := Except.ok.inj h
    exact usedSecrets_set assignments _

/-- A socket that is opened has substituted nothing. -/
theorem openSocket_used {args : WsArgs} {opened : OpenedSocket Url}
    (h : openSocket around args = .ok opened) :
    opened.engine.resolver.usedSecrets = .empty := by
  unfold openSocket at h
  obtain ⟨collection, -, h⟩ := bind_eq_ok h
  obtain ⟨spec, -, h⟩ := bind_eq_ok h
  obtain ⟨environment, -, h⟩ := bind_eq_ok h
  obtain ⟨assignments, -, h⟩ := bind_eq_ok h
  obtain ⟨sessions, -, h⟩ := bind_eq_ok h
  split at h
  · exact absurd h (by simp)
  · obtain rfl := Except.ok.inj h
    exact usedSecrets_set assignments _

/-- The redactor of a resolver that has substituted nothing knows nothing. -/
theorem forCommand_of_unused {r : Resolver} (h : r.usedSecrets = .empty) (showSecrets : Bool) :
    Redactor.forCommand r.usedSecretList showSecrets = .empty := by
  have hlist : r.usedSecretList = [] := by
    unfold Resolver.usedSecretList
    rw [h]
    rfl
  rw [hlist]
  cases showSecrets with
  | true => rfl
  | false => rfl

end Snapshot

/-! ### The outcome -/

/-- A call whose lines are printed as they are hides its secrets when it brings up none. -/
theorem printedOf_hides_iff {Seen Outcome : Type} (terminal : Terminal) (context : Text)
    {line plain : Nat → Seen → Text} (hline : line = plain)
    (run : Except EngineError Outcome × Watched Url Seen) :
    (printedOf terminal context line run).Hides ↔ BringsUpNone terminal context plain run := by
  subst hline
  show (∀ v ∈ run.2.engine.resolver.usedSecretList, minSecretLen ≤ utf8Len v → _) ↔ _
  refine forall_congr' fun v => forall_congr' fun _ => forall_congr' fun _ => and_congr ?_ ?_
  · constructor
    · intro h index item hitem hin
      have hget : (run.2.seen.mapIdx line)[index]? = some (line index item) := by
        rw [List.getElem?_mapIdx, hitem, Option.map_some]
      exact h ⟨line index item, List.mem_of_getElem? hget, hin⟩
    · rintro h ⟨text, htext, hin⟩
      obtain ⟨index, hget⟩ := List.mem_iff_getElem?.mp htext
      rw [printedOf, List.getElem?_mapIdx] at hget
      obtain ⟨item, hitem, rfl⟩ := Option.map_eq_some_iff.mp hget
      exact h index item hitem hin
  · rcases run with ⟨error | outcome, after⟩
    · constructor
      · intro h error' herror
        obtain rfl := Except.error.inj herror
        exact h _ rfl
      · intro h message hmessage
        obtain rfl := Option.some.inj hmessage
        exact h error rfl
    · constructor
      · intro _ error herror
        exact absurd herror (by simp)
      · intro _ message hmessage
        exact absurd hmessage (Option.not_mem_none message)

/-- Neither a stream nor a socket masks anything: each hides the secrets that it uses exactly
when its events or frames, and its error, bring up none of them. -/
theorem hides_iff (terminal : Terminal) (around : Surroundings Url) (lib : Websocket.SocketLib)
    (runArgs : RunArgs) (wsArgs : WsArgs) (maxEvents : Nat)
    (feed : List (WireRequest Url) → List Arrival) :
    (StreamHides terminal around runArgs maxEvents feed ↔
      StreamBringsUpNone terminal around runArgs maxEvents feed) ∧
    (SocketHides terminal around lib wsArgs ↔ SocketBringsUpNone terminal around lib wsArgs) := by
  refine ⟨?_, ?_⟩
  · refine forall_congr' fun opened => forall_congr' fun entry => forall_congr' fun hopen =>
      forall_congr' fun _ => ?_
    refine printedOf_hides_iff terminal _ ?_ _
    rw [forCommand_of_unused (openRun_used around hopen)]
    rfl
  · refine forall_congr' fun opened => forall_congr' fun hopen => ?_
    refine printedOf_hides_iff terminal _ ?_ _
    rw [forCommand_of_unused (openSocket_used around hopen)]
    rfl

/-! ### A server that echoes a token -/

/-- A pipe, and nothing to say about files. -/
def plainTerminal : Terminal := { tools := plainTools, style := pipe, osError := fun _ => [] }

/-- A stream that needs a token from the vault. -/
def tokenEntry : RequestEntry :=
  { path := "gabriel/requests/events.toml".toList, id := "events".toList
    spec := { RequestSpec.new id "GET".toList "https://app.test/events".toList with
      auth := some (.bearer "\x7b\x7bsecret:api_token\x7d\x7d".toList) } }

/-- The stream in a collection whose vault has the token. -/
def tokenSurroundings : Surroundings (Text × Text) :=
  { plainSurroundings (plainCollection [tokenEntry]) with
    network := scriptedNetwork [plainResponse 200
      [("content-type".toList, "text/event-stream".toList)]]
    vault := fun name => if name = "api_token".toList then some canary else none }

/-- `run events --stream`. -/
def followEvents : RunArgs :=
  { request := some "events".toList, stream := true
    named := fun _ => rfl, single := fun _ => rfl }

/-- The server sends the token back in an event. -/
def echoFeed (_ : List (WireRequest (Text × Text))) : List Arrival :=
  [.chunk (Utf8.encode ("data: token ".toList ++ canary ++ "\n\n".toList)), .closed]

/-- A socket that opens, and nothing comes. -/
def silentSocket : Websocket.SocketLib :=
  { intoClientRequest := fun _ => .ok [], headerNameError := fun _ => none
    headerValueError := fun _ => none, connect := fun _ => .ok (101, none)
    sendError := fun _ _ => none, receive := fun _ _ => [], elapsed := fun _ => 0 }

/-- `ws wss://app.test/socket --send '{{secret:api_token}}'`. -/
def sendToken : WsArgs :=
  { target := "wss://app.test/socket".toList
    send := ["\x7b\x7bsecret:api_token\x7d\x7d".toList] }

/-- What that run prints. -/
def printedStream : Option Printed :=
  (openRun tokenSurroundings followEvents).toOption.bind fun opened =>
    opened.targets.head?.map fun entry =>
      streamPrinted plainTerminal tokenSurroundings followEvents 10 echoFeed opened entry

/-- What that socket prints. -/
def printedSocket : Option Printed :=
  (openSocket tokenSurroundings sendToken).toOption.map fun opened =>
    socketPrinted plainTerminal tokenSurroundings silentSocket sendToken opened

/-- A command that used the token and printed a line with it does not hide it. -/
theorem not_hides_of_shows {printed? : Option Printed} {line : Text}
    (hused : printed?.map Printed.used = some [canary])
    (hlines : printed?.map Printed.lines = some [line]) (hin : canary <:+: line) :
    ∃ printed, printed? = some printed ∧ ¬ printed.Hides := by
  obtain ⟨printed, hprinted, hused⟩ := Option.map_eq_some_iff.mp hused
  rw [hprinted] at hlines
  have hlines : printed.lines = [line] := Option.some.inj hlines
  refine ⟨printed, hprinted, fun hhides => ?_⟩
  have hmem : canary ∈ printed.used := by
    rw [hused]
    exact List.mem_singleton_self canary
  refine (hhides canary hmem (by decide)).1 ⟨line, ?_, hin⟩
  rw [hlines]
  exact List.mem_singleton_self line

/-- The token is printed as the stream brings it, and as the socket sends it. -/
theorem not_hides_token :
    ¬ StreamHides plainTerminal tokenSurroundings followEvents 10 echoFeed ∧
      ¬ SocketHides plainTerminal tokenSurroundings silentSocket sendToken := by
  refine ⟨?_, ?_⟩
  · intro hhides
    obtain ⟨printed, hprinted, hshown⟩ := @not_hides_of_shows printedStream
      ("   1 message token ".toList ++ canary) (by decide +kernel) (by decide +kernel) (by decide)
    obtain ⟨opened, hopen, hmap⟩ := Option.bind_eq_some_iff.mp hprinted
    obtain ⟨entry, hentry, rfl⟩ := Option.map_eq_some_iff.mp hmap
    exact hshown (hhides opened entry (eq_ok_of_toOption hopen) hentry)
  · intro hhides
    obtain ⟨printed, hprinted, hshown⟩ := @not_hides_of_shows printedSocket
      ("   0ms → ".toList ++ canary) (by decide +kernel) (by decide +kernel) (by decide)
    obtain ⟨opened, hopen, rfl⟩ := Option.map_eq_some_iff.mp hprinted
    exact hshown (hhides opened (eq_ok_of_toOption hopen))

end Gabriel.Cli
