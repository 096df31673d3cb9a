import Gabriel.Cli.Collection
import Gabriel.Engine.Executor

/-!
# `Gabriel.Cli.Run`: the `run` command

`run_requests` and `confirm_effect` of `gabriel-cli/src/main.rs`, and `parse_assignment` of
`support.rs`. `Surroundings` is what the command finds outside its arguments: the libraries, the
collection on disk, the vault and the sessions, and whether standard input is a terminal.

`RunState` is what a run changes. `events` is not stored by the source: it lists the answers of
the user and the requests on the wire, in order, each with the index of the target they belong to.
The text on the terminal, the contents of the reports and the assertions are left out.

The definitions:

* `openRun`: read the arguments, the collection and the vault, and make the resolver.
* `confirmEffect`: the gate: what a request needs before it is sent.
* `runTarget`, `runTargets`: one turn of the loop, and the loop.
* `streamTarget`: the branch of a stream, which does not reach the gate.
* `runRequests`: the command.
-/

set_option autoImplicit false

namespace Gabriel.Cli

open Gabriel.Core Gabriel.Engine Text Fallible

/-! ### Arguments and surroundings -/

/-- The arguments of `run`, as the command line parser accepts them. -/
structure RunArgs where
  request : Option Text := none
  all : Bool := false
  env : Option Text := none
  vars : List Text := []
  session : Option Text := none
  verbose : Bool := false
  quiet : Bool := false
  allowEnv : Bool := false
  showSecrets : Bool := false
  /-- Resolve everything and send nothing. -/
  dryRun : Bool := false
  /-- Run requests that perform an action without asking first. -/
  yes : Bool := false
  /-- Follow the response as an event stream. -/
  stream : Bool := false
  junit : Option Text := none
  html : Option Text := none
  /-- A request is named unless `--all` is given. -/
  named : all = false → request.isSome = true
  /-- `--stream` conflicts with `--all`. -/
  single : stream = true → all = false

/-- What a run can fail with. The text of an engine error is printed after its context. -/
inductive CliError where
  | collection (error : CollectionError)
  | engine (context : Text) (error : EngineError)
  | io (context message : Text)
  | message (text : Text)
  deriving DecidableEq

/-- What the command finds outside its arguments. -/
structure Surroundings (Url : Type) where
  platform : Platform
  network : Network Url
  /-- The lower-case mapping of the texts. -/
  lower : Text → Text
  /-- The collection that is found from the current directory. -/
  collection : Except CollectionError Collection
  environments : EnvironmentDir
  vault : Text → Option Text
  /-- The session store, when it can be read. -/
  sessions : Except Text SessionStore
  runtimeError : Option Text
  /-- Whether standard input is a terminal. -/
  terminal : Bool
  saveError : SessionStore → Option Text
  /-- Why a report cannot be written to a path. -/
  writeError : Text → Option Text

/-- What happens in a run that others can see. -/
inductive Event (Url : Type) where
  /-- The user answered the prompt of a target with a line. -/
  | answered (target : Nat) (line : Text)
  /-- A request of a target was put on the wire. -/
  | sent (target : Nat) (request : WireRequest Url)
  deriving DecidableEq

/-- The state of a run. -/
structure RunState (Url : Type) where
  engine : EngineState Url
  /-- What reading the next lines of standard input gives; after them it is at its end. -/
  stdin : List (Except Text Text)
  errors : Nat
  skipped : Nat
  events : List (Event Url)

/-- A call that may fail and changes the state either way. -/
abbrev RunM (Url α : Type) := Call CliError (RunState Url) α

/-- A run that has not begun, with these lines to read. -/
def RunState.start {Url : Type} (stdin : List (Except Text Text)) : RunState Url :=
  { engine := .fresh, stdin, errors := 0, skipped := 0, events := [] }

variable {Url : Type}

/-- An engine call for a target. What it put on the wire are the events of the target. -/
def onEngine {α : Type} (target : Nat) (call : EngineM Url α) :
    RunM Url (Except EngineError α) := do
  let s ← get
  let (result, engine) := exec call s.engine
  modify fun s => { s with
    engine
    events := s.events ++ (engine.wire.drop s.engine.wire.length).map (.sent target) }
  pure result

/-! ### The gate -/

/-- Whether a request may be sent. -/
inductive Proceed where
  | send
  | skipped
  deriving DecidableEq

/-- Read one line for the prompt of a target. -/
def readLine (target : Nat) : RunM Url Text := do
  match (← get).stdin with
  | .error message :: rest =>
    modify fun s => { s with stdin := rest }
    throw (.io "reading the answer".toList message)
  | .ok line :: rest =>
    modify fun s => { s with stdin := rest, events := s.events ++ [.answered target line] }
    pure line
  | [] =>
    modify fun s => { s with events := s.events ++ [.answered target []] }
    pure []

/-- Whether an answer says yes. -/
def saysYes (line : Text) : Bool := eqIgnoreAsciiCase (trim line) ['y']

/-- The refusal to run a request that nobody can confirm. -/
def refusal (id : Text) : Text :=
  "refusing to run `".toList ++ id ++ "` without a terminal to ask at.\n".toList
    ++ "Pass --yes to run it, --dry-run to see what it would send, or set\n".toList
    ++ "`[settings] effect = \"read\"` in the file if repeating it is in fact safe.".toList

/-- Decide whether to replay something that performs an action. -/
def confirmEffect (around : Surroundings Url) (spec : RequestSpec) (target : Nat) (id : Text)
    (args : RunArgs) : RunM Url Proceed :=
  if !spec.effect.needsConfirmation || args.dryRun || args.yes then pure .send
  else if around.terminal then do
    let answer ← readLine target
    pure (if saysYes answer then .send else .skipped)
  else if args.all then pure .skipped
  else throw (.message (refusal id))

/-! ### One target after another -/

/-- The context of an error. -/
def doing (what id : Text) : Text := what ++ " `".toList ++ id ++ ['`']

/-- One round of the loop over the targets. -/
def runTarget (around : Surroundings Url) (collection : Collection) (ctx : RunContext)
    (args : RunArgs) (target : Nat) (entry : RequestEntry) : RunM Url Unit := do
  let spec := collection.applyDefaults entry.spec
  match ← confirmEffect around spec target entry.id args with
  | .skipped => modify fun s => { s with skipped := s.skipped + 1 }
  | .send =>
    if args.dryRun then
      match ← onEngine target (prepare around.platform around.network ctx spec) with
      | .error error => throw (.engine (doing "preparing".toList entry.id) error)
      | .ok _ => pure ()
    else
      match ← onEngine target (execute around.platform around.network ctx spec) with
      | .ok _ => pure ()
      | .error error =>
        -- A request of `--all` that cannot be sent does not hide the results of the rest.
        if args.all then modify fun s => { s with errors := s.errors + 1 }
        else throw (.engine (doing "running".toList entry.id) error)

/-- The loop over the targets, from an index on. -/
def runTargets (around : Surroundings Url) (collection : Collection) (ctx : RunContext)
    (args : RunArgs) : Nat → List RequestEntry → RunM Url Unit
  | _, [] => pure ()
  | target, entry :: rest => do
    runTarget around collection ctx args target entry
    runTargets around collection ctx args (target + 1) rest

/-- Follow the event stream of one request. -/
def streamTarget (around : Surroundings Url) (collection : Collection) (ctx : RunContext)
    (entry : RequestEntry) : RunM Url Unit := do
  let spec := collection.applyDefaults entry.spec
  match ← onEngine 0 (executeStream around.platform around.network ctx spec) with
  | .error error => throw (.engine (doing "streaming".toList entry.id) error)
  | .ok _ => pure ()

/-! ### The command -/

/-- Split `key=value`, keeping any `=` in the value. -/
def parseAssignment (input : Text) : Except CliError (Text × Text) :=
  let expected := CliError.message ("expected KEY=VALUE, got `".toList ++ input ++ ['`'])
  match splitOnce ['='] input with
  | none => .error expected
  | some (key, value) => if trim key = [] then .error expected else .ok (trim key, value)

/-- What a run starts from. -/
structure Opened (Url : Type) where
  collection : Collection
  targets : List RequestEntry
  ctx : RunContext
  engine : EngineState Url

/-- The requests of a run. -/
def chooseTargets (around : Surroundings Url) (collection : Collection) (args : RunArgs) :
    Except CollectionError (List RequestEntry) :=
  if args.all then .ok collection.requests
  else (collection.find around.lower (args.request.getD [])).map fun entry => [entry]

/-- Everything that a run does before it looks at its requests. -/
def openRun (around : Surroundings Url) (args : RunArgs) : Except CliError (Opened Url) := do
  let collection ← around.collection.mapError .collection
  let environment ← (chooseEnvironment around.environments args.env).mapError .collection
  let targets ← (chooseTargets around collection args).mapError .collection
  let resolver : Resolver :=
    { (Resolver.new.withSecrets around.vault).withVars
        (collection.variablesFor environment).entries with
      allowProcessEnv := args.allowEnv }
  let assignments ← args.vars.mapM parseAssignment
  let resolver := assignments.foldl (fun r e => r.set e.1 e.2) resolver
  let sessions ← around.sessions.mapError (.io "sessions".toList)
  match around.runtimeError with
  | some message => .error (.io "starting the async runtime".toList message)
  | none =>
    .ok { collection, targets
          ctx := { session := args.session.getD "default".toList, baseDir := collection.root }
          engine := { EngineState.fresh with resolver, sessions } }

/-- Save the sessions. -/
def saveSessions (around : Surroundings Url) : RunM Url Unit := do
  match around.saveError (← get).engine.sessions with
  | some message => throw (.io "sessions".toList message)
  | none => pure ()

/-- Write a report, when there is a path for it. -/
def writeReport (around : Surroundings Url) (path : Option Text) : RunM Url Unit :=
  match path.bind fun path => (around.writeError path).map (path, ·) with
  | some (path, message) => throw (.io ("writing ".toList ++ path) message)
  | none => pure ()

/-- What a run does after its requests. -/
def finishRun (around : Surroundings Url) (args : RunArgs) (targets : Nat) : RunM Url Unit := do
  saveSessions around
  writeReport around args.junit
  writeReport around args.html
  let errors := (← get).errors
  if 0 < errors then
    throw (.message (natText errors ++ " of ".toList ++ natText targets
      ++ " request(s) could not be sent".toList))

/-- The command. Following a stream comes before the loop and does not reach the gate. -/
def runRequests (around : Surroundings Url) (args : RunArgs) : RunM Url Unit :=
  match openRun around args with
  | .error error => throw error
  | .ok opened => do
    modify fun s => { s with engine := opened.engine }
    match args.stream, opened.targets with
    | true, entry :: _ => do
      streamTarget around opened.collection opened.ctx entry
      saveSessions around
    -- The command line parser lets no stream come here: it has one target.
    | true, [] => pure ()
    | false, targets => do
      runTargets around opened.collection opened.ctx args 0 targets
      finishRun around args targets.length

end Gabriel.Cli
