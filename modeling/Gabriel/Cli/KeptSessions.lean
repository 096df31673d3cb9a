import Gabriel.Cli.Run
import Gabriel.Engine.Stream

/-!
# `Gabriel.Cli.KeptSessions`: the `run` command and `sessions.json`

`run_requests` of `gabriel-cli/src/main.rs` again, with the file that it loads the sessions from
and saves them to. `sessions.save()?` stands at two places: after a stream, and after the loop
over the requests, before the reports. Everything that returns earlier leaves the file alone.

`RunWorld.file` is what loading `sessions.json` gives. No other process touches the file. A
stream is followed to its end here, with what the server sends after the head as a parameter.

The definitions:

* `RunWorld`: what a run has and leaves: its state, and the file.
* `followTarget`: the request of a stream, followed to its end.
* `saveFile`: save the sessions, which can fail.
* `runWorld`: the command.
-/

set_option autoImplicit false

namespace Gabriel.Cli

open Gabriel.Core Gabriel.Engine Text Fallible

variable {Url : Type}

/-- A run, and what loading `sessions.json` gives. -/
structure RunWorld (Url : Type) where
  run : RunState Url
  file : Except Text SessionStore

/-- A call that may fail and changes the run and the file. -/
abbrev WorldM (Url α : Type) := Call CliError (RunWorld Url) α

/-- A call that leaves the file alone. -/
def onRun {α : Type} (call : RunM Url α) : WorldM Url α :=
  zoom (·.run) (fun run w => { w with run }) call

/-- A run that has not begun. -/
def RunWorld.start (around : Surroundings Url) (stdin : List (Except Text Text)) : RunWorld Url :=
  { run := .start stdin, file := around.sessions }

/-- What a stream is followed with: the limit on its events, and what the server sends after the
head, for the requests on the wire. -/
structure Streaming (Url : Type) where
  maxEvents : Nat
  feed : List (WireRequest Url) → List Arrival

/-- Follow a stream to its end. The events go to the terminal. -/
def followToEnd (around : Surroundings Url) (ctx : RunContext) (spec : RequestSpec)
    (streaming : Streaming Url) : EngineM Url Unit :=
  ExceptT.mk fun engine =>
    let followed := exec
      (followStream around.platform around.network ctx spec streaming.maxEvents streaming.feed)
      (.start engine)
    (followed.1.map fun _ => (), followed.2.engine)

/-- The request of a run with `--stream`. -/
def followTarget (around : Surroundings Url) (collection : Collection) (ctx : RunContext)
    (streaming : Streaming Url) (entry : RequestEntry) : RunM Url Unit := do
  let spec := collection.applyDefaults entry.spec
  match ← onEngine 0 (followToEnd around ctx spec streaming) with
  | .error error => throw (.engine (doing "streaming".toList entry.id) error)
  | .ok _ => pure ()

/-- Save the sessions to the file. -/
def saveFile (around : Surroundings Url) : WorldM Url Unit := do
  onRun (saveSessions around)
  modify fun w => { w with file := .ok w.run.engine.sessions }

/-- What a run does after it has saved. -/
def reportRun (around : Surroundings Url) (args : RunArgs) (targets : Nat) : RunM Url Unit := do
  writeReport around args.junit
  writeReport around args.html
  let errors := (← get).errors
  if 0 < errors then
    throw (.message (natText errors ++ " of ".toList ++ natText targets
      ++ " request(s) could not be sent".toList))

/-- The command. -/
def runWorld (around : Surroundings Url) (args : RunArgs) (streaming : Streaming Url) :
    WorldM Url Unit :=
  match openRun around args with
  | .error error => throw error
  | .ok opened => do
    onRun (modify fun s => { s with engine := opened.engine })
    match args.stream, opened.targets with
    | true, entry :: _ => do
      onRun (followTarget around opened.collection opened.ctx streaming entry)
      saveFile around
    | true, [] => pure ()
    | false, targets => do
      onRun (runTargets around opened.collection opened.ctx args 0 targets)
      saveFile around
      onRun (reportRun around args targets.length)

end Gabriel.Cli
