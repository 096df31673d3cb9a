import Gabriel.Cli.Live
import Gabriel.Cli.Report

/-!
# `Gabriel.Cli.Ledger`: what a run says about its requests

The rest of `run_requests` of `gabriel-cli/src/main.rs`: the assertions, the entries of the
reports, the note about skipped requests, and what the command returns. `runReported` is
`runRequests` of `Gabriel.Cli.Run` with these; it runs the same calls in the same order.

`Ledger` is the state of such a run. `fates` is not stored by the source: it says of every target
what became of it. A report is kept as its value; the two files are `toJunit` and `toHtml` of it.

The definitions:

* `Ledger`: the state of a run, with its report and what became of every target (`Fate`).
* `judge`: the assertions of a request that was sent.
* `reportTarget`, `reportTargets`: one turn of the loop, and the loop.
* `skippedNote`: the note about what was not sent.
* `finishReported`: write the reports, and say how the command ends.
* `runReported`: the command.
-/

set_option autoImplicit false

namespace Gabriel.Cli

open Gabriel.Core Gabriel.Engine Text Fallible

/-- What a run needs to judge its requests. -/
structure Judging where
  json : JsonLib
  /-- The assertions of a request file. -/
  assertions : RequestEntry → List Assertion
  /-- How long the exchange of a target takes. -/
  totalMs : Nat → UInt64
  /-- What the system says about a file that cannot be read. -/
  osError : Text → Text
  startedMs : UInt64

/-- What a command returns when it does not fail. -/
inductive Outcome where
  | success
  | assertionsFailed
  deriving DecidableEq

/-- What became of a target. -/
inductive Fate where
  /-- It was sent, and whether its assertions hold. -/
  | sent (passed : Bool)
  | unsent
  | skipped
  /-- A dry run showed it. -/
  | shown
  deriving DecidableEq

/-- The state of a run with its results. -/
structure Ledger (Url : Type) where
  run : RunState Url
  allPassed : Bool
  cases : List CaseResult
  /-- The report, once it is put together. -/
  report : Option RunReport
  /-- The notes at the end. -/
  notes : List Text
  /-- What became of the targets so far, by their ids. -/
  fates : List (Text × Fate)

/-- A call that may fail, over a ledger. -/
abbrev LedgerM (Url α : Type) := Call CliError (Ledger Url) α

/-- A run that has not begun. -/
def Ledger.start {Url : Type} (stdin : List (Except Text Text)) : Ledger Url :=
  { run := .start stdin, allPassed := true, cases := [], report := none, notes := [], fates := [] }

variable {Url : Type}

/-- A call of the run. -/
def inRun {α : Type} (call : RunM Url α) : LedgerM Url α :=
  zoom (·.run) (fun run s => { s with run }) call

/-- Whether a report was asked for. -/
def RunArgs.wantsReport (args : RunArgs) : Bool := args.junit.isSome || args.html.isSome

/-! ### Entries -/

/-- A run with its assertions checked. -/
def judge (around : Surroundings Url) (judging : Judging) (target : Nat) (entry : RequestEntry)
    (outcome : RunOutcome) : FinishedRun :=
  { outcome with
    assertions := (judging.assertions entry).map
      (evaluate around.platform judging.json (judging.totalMs target) outcome.response)
    totalMs := judging.totalMs target }

/-- The entry of a request that was sent. -/
def sentCase (entry : RequestEntry) (outcome : FinishedRun) : CaseResult :=
  { id := entry.id, method := outcome.sent.method, url := outcome.sent.url
    status := some outcome.response.status, durationMs := outcome.totalMs
    outcome := if outcome.assertionsPassed then .passed else .failed
    assertions := outcome.assertions.map fun a => ⟨a.description, a.passed, a.actual⟩ }

/-- The entry of a request that could not be sent. -/
def erroredCase (judging : Judging) (spec : RequestSpec) (entry : RequestEntry)
    (error : EngineError) (used : List Text) : CaseResult :=
  { id := entry.id, method := spec.method, url := spec.url, status := none, durationMs := 0
    outcome := .errored ((Redactor.new used).apply
      (errorReport judging.osError (doing "running".toList entry.id) error))
    assertions := [] }

/-- Write down what became of a target, with its entry when a report was asked for. -/
def record (args : RunArgs) (id : Text) (fate : Fate) (case : Option CaseResult) :
    LedgerM Url Unit :=
  modify fun s => { s with
    allPassed := s.allPassed && fate != .sent false && fate != .unsent
    cases := if args.wantsReport then s.cases ++ case.toList else s.cases
    fates := s.fates ++ [(id, fate)] }

/-! ### One target after another -/

/-- One round of the loop over the targets. -/
def reportTarget (around : Surroundings Url) (judging : Judging) (collection : Collection)
    (ctx : RunContext) (args : RunArgs) (target : Nat) (entry : RequestEntry) :
    LedgerM Url Unit := do
  let spec := collection.applyDefaults entry.spec
  match ← inRun (confirmEffect around spec target entry.id args) with
  | .skipped => do
    inRun (modify fun s => { s with skipped := s.skipped + 1 })
    record args entry.id .skipped none
  | .send =>
    if args.dryRun then
      match ← inRun (onEngine target (prepare around.platform around.network ctx spec)) with
      | .error error => throw (.engine (doing "preparing".toList entry.id) error)
      | .ok _ => record args entry.id .shown none
    else
      match ← inRun (onEngine target (execute around.platform around.network ctx spec)) with
      | .ok outcome =>
        let outcome := judge around judging target entry outcome
        record args entry.id (.sent outcome.assertionsPassed) (some (sentCase entry outcome))
      | .error error =>
        if args.all then do
          inRun (modify fun s => { s with errors := s.errors + 1 })
          let used := (← get).run.engine.resolver.usedSecretList
          record args entry.id .unsent (some (erroredCase judging spec entry error used))
        else throw (.engine (doing "running".toList entry.id) error)

/-- The loop over the targets, from an index on. -/
def reportTargets (around : Surroundings Url) (judging : Judging) (collection : Collection)
    (ctx : RunContext) (args : RunArgs) : Nat → List RequestEntry → LedgerM Url Unit
  | _, [] => pure ()
  | target, entry :: rest => do
    reportTarget around judging collection ctx args target entry
    reportTargets around judging collection ctx args (target + 1) rest

/-! ### The end -/

/-- The name of the environment of a run. -/
def environmentName (environments : EnvironmentDir) (env : Option Text) : Option Text :=
  env.or (if environments.environmentNames.length = 1 then environments.environmentNames.head?
    else none)

/-- Put the report together. -/
def putReport (around : Surroundings Url) (judging : Judging) (collection : Collection)
    (args : RunArgs) : LedgerM Url Unit :=
  if args.wantsReport then
    modify fun s => { s with
      report := some
        { collection := collection.manifest.name.getD "collection".toList
          environment := environmentName around.environments args.env
          startedMs := judging.startedMs, cases := s.cases } }
  else pure ()

/-- The note about the requests that were not run. -/
def skippedNote (skipped targets : Nat) : List Text :=
  if 0 < skipped then
    ["note: ".toList ++ natText skipped ++ " of ".toList ++ natText targets
      ++ " request(s) were not run — you declined to repeat them".toList]
  else []

/-- What a run does after its requests. -/
def finishReported (around : Surroundings Url) (judging : Judging) (collection : Collection)
    (args : RunArgs) (targets : Nat) : LedgerM Url Outcome := do
  inRun (saveSessions around)
  putReport around judging collection args
  inRun (writeReport around args.junit)
  inRun (writeReport around args.html)
  modify fun s => { s with notes := s.notes ++ skippedNote s.run.skipped targets }
  let s ← get
  if 0 < s.run.errors then
    throw (.message (natText s.run.errors ++ " of ".toList ++ natText targets
      ++ " request(s) could not be sent".toList))
  else pure (if s.allPassed then .success else .assertionsFailed)

/-- The command, with what it says about its requests. -/
def runReported (around : Surroundings Url) (judging : Judging) (args : RunArgs) :
    LedgerM Url Outcome :=
  match openRun around args with
  | .error error => throw error
  | .ok opened => do
    inRun (modify fun s => { s with engine := opened.engine })
    match args.stream, opened.targets with
    | true, entry :: _ => do
      inRun (streamTarget around opened.collection opened.ctx entry)
      inRun (saveSessions around)
      pure .success
    | true, [] => pure .success
    | false, targets => do
      reportTargets around judging opened.collection opened.ctx args 0 targets
      finishReported around judging opened.collection args targets.length

end Gabriel.Cli
