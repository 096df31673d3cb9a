import Gabriel.Cli.KeptSessions
import Gabriel.Proofs.Consent
import Gabriel.Proofs.Report
import Gabriel.Proofs.SessionCookies
import Gabriel.Proofs.SessionFile

/-!
# `Gabriel.Proofs.KeptSessions`: are the cookies of a run kept?

The engine records the cookies of an answer before it follows the redirect; the comment at the
loop calls not losing them "the whole point of this engine". What was recorded reaches
`sessions.json` only when the run comes to its save. Two exits lie before it: the failure of a
named request, and an answer of the user that cannot be read.

`Turn.result` is what the redirect loop returns, as a function of its last turn, so that a chain
that breaks can be told from one that ends (`runReady_fails_iff`). A store changes by recording
alone, in a request (`execute_recorded`), in the loop (`runTargets_recorded`) and in the whole run
(`runWorld_recorded`), and a stream records nothing. So the store that a run leaves is compared
with the one after its last cookie (`storeAfter`). The theorems:

* `runTarget_loses_iff_of_named`: a named request ends the run with another store exactly when its
  chain breaks behind an answer that changed the store (`LosesChain`).
* `runTargets_loses_iff_of_all`: the loop of `--all` ends early with another store exactly at a
  prompt that cannot be read, behind a request that changed the store (`LosesPrompt`).
* `keepsSessions_iff`: a run leaves the store as it was after its last cookie, however it ends,
  exactly when it comes to neither of the two.
* `file_of_keepsSessions`: such a run leaves the file that a process of `Engine/SessionFile`
  leaves, which loads, records what the run recorded, and saves.

What the gate and the reports do to the state is taken from `Proofs/Consent` and `Proofs/Report`.
`cutOff` is a login whose last page breaks off: its cookie came on the redirect, and is lost.
-/

set_option autoImplicit false

namespace Gabriel.Engine

open Gabriel.Core Text Fallible Orbit

variable {Url : Type} {platform : Platform} {network : Network Url} {ctx : RunContext}
  {spec : RequestSpec}

/-! ### How a chain fails -/

/-- What the loop returns when it ends with this turn. -/
def Turn.result (network : Network Url) (ctx : RunContext) (spec : RequestSpec) (turn : Turn Url) :
    Except EngineError (RawResponse × FieldMap × Chain Url) :=
  match turn.answer network ctx spec with
  | .error error => .error error
  | .ok raw =>
    match turn.redirect network spec raw with
    | some (.error error) =>
      if turn.chain.hops.length < spec.settings.maxRedirects then .error error
      else .ok (raw, (readHeaders raw).1, (turn.absorb network ctx spec raw).chain)
    | _ => .ok (raw, (readHeaders raw).1, (turn.absorb network ctx spec raw).chain)

/-- A turn at which a run fails: it gets no answer, the answer redirects to a `Location` that is
no URL, or the body of the answer cannot be read. -/
def Turn.Breaks (network : Network Url) (ctx : RunContext) (spec : RequestSpec)
    (turn : Turn Url) : Prop :=
  match turn.result network ctx spec with
  | .error _ => True
  | .ok (raw, _, _) => ∃ described, raw.body = .error described

/-- The loop returns what its last turn gives. -/
theorem followChain_result (left : Nat) (turn : Turn Url)
    (hleft : turn.chain.hops.length + left = spec.settings.maxRedirects) :
    (exec (followChain network ctx spec left turn.chain) turn.engine).1
      = (lastTurn network ctx spec left turn).result network ctx spec := by
  induction left generalizing turn with
  | zero =>
    have hspent : ¬ turn.chain.hops.length < spec.settings.maxRedirects := by omega
    rw [followChain_round]
    show _ = turn.result network ctx spec
    unfold Turn.result
    cases turn.answer network ctx spec with
    | error error => rfl
    | ok raw =>
      dsimp only
      cases turn.redirect network spec raw with
      | none => rfl
      | some target =>
        cases target with
        | ok target => rfl
        | error error =>
          dsimp only
          rw [if_neg hspent]
  | succ left ih =>
    have hopen : turn.chain.hops.length < spec.settings.maxRedirects := by omega
    rw [followChain_round]
    cases hanswer : turn.answer network ctx spec with
    | error error =>
      rw [lastTurn_of_stop (next_of_error hanswer)]
      unfold Turn.result
      rw [hanswer]
    | ok raw =>
      have hnext := next_of_answer hanswer
      dsimp only
      cases hredirect : turn.redirect network spec raw with
      | none =>
        rw [hredirect] at hnext
        rw [lastTurn_of_stop hnext]
        unfold Turn.result
        rw [hanswer]
        dsimp only
        rw [hredirect]
      | some target =>
        rw [hredirect] at hnext
        cases target with
        | error error =>
          rw [lastTurn_of_stop hnext]
          unfold Turn.result
          rw [hanswer]
          dsimp only
          rw [hredirect]
          dsimp only
          rw [if_pos hopen]
        | ok target =>
          rw [lastTurn_of_next hnext]
          -- A redirect that is followed is one hop more.
          have hhops : (nextHop network.urls raw.status target
              (turn.absorb network ctx spec raw).chain).hops.length
                = turn.chain.hops.length + 1 := by
            unfold nextHop
            dsimp only
            split
            · exact List.length_append
            · exact List.length_append
          exact ih ⟨_, _⟩ ((congrArg (· + left) hhops).trans (by omega))

/-- A request that is ready fails exactly when its last turn breaks. -/
theorem runReady_fails_iff (ready : Ready Url) (s : EngineState Url) :
    (∃ error, (exec (runReady platform network ctx spec ready) s).1 = .error error) ↔
      (runLast network ctx spec ready s).Breaks network ctx spec := by
  have hresult := @followChain_result _ network ctx spec spec.settings.maxRedirects
    (firstTurn spec ready s) (Nat.zero_add _)
  change _ = (runLast network ctx spec ready s).result network ctx spec at hresult
  unfold runReady Turn.Breaks
  rw [exec_bind]
  change (exec (followChain network ctx spec spec.settings.maxRedirects (startChain spec ready))
    s).1 = _ at hresult
  -- The loop of the hops ended with the last turn's error, or with an answer whose body is still to
  -- be read.
  rcases hloop : exec (followChain network ctx spec spec.settings.maxRedirects
    (startChain spec ready)) s with ⟨error | ⟨raw, headers, chain⟩, t⟩
  all_goals
    rw [hloop] at hresult
    rw [← hresult]
  · exact ⟨fun _ => trivial, fun _ => ⟨error, rfl⟩⟩
  · dsimp only
    cases raw.body with
    | error described => exact ⟨fun _ => ⟨described, rfl⟩, fun _ => ⟨_, rfl⟩⟩
    | ok body =>
      constructor
      · rintro ⟨error, herror⟩
        exact absurd (show Except.ok _ = Except.error error from herror) (by simp)
      · rintro ⟨described, hdescribed⟩
        exact absurd hdescribed (by simp)

/-! ### What a run records -/

/-- The second store is the first one with cookies recorded under a session. -/
def Recorded (session : Text) (s t : SessionStore) : Prop :=
  ∃ records : List JarOp,
    (∀ op ∈ records, ∃ headers host path clock, op = .record session headers host path clock) ∧
      t = records.foldl SessionStore.applyOp s

/-- Nothing is recorded in a store that stays. -/
theorem recorded_refl (session : Text) (s : SessionStore) : Recorded session s s :=
  ⟨[], by simp, rfl⟩

/-- What is recorded in two steps is recorded in one. -/
theorem recorded_trans {session : Text} {s t u : SessionStore} (hst : Recorded session s t)
    (htu : Recorded session t u) : Recorded session s u := by
  obtain ⟨first, hfirst, rfl⟩ := hst
  obtain ⟨second, hsecond, rfl⟩ := htu
  refine ⟨first ++ second, ?_, (List.foldl_append ..).symm⟩
  intro op hop
  rcases List.mem_append.mp hop with hop | hop
  · exact hfirst op hop
  · exact hsecond op hop

/-- The answers of some turns are recorded one after the other. -/
theorem recorded_recordedAs (session : Text) (ts : List (Turn Url)) (store : SessionStore) :
    Recorded session store (recordedAs network ctx spec session ts store) := by
  induction ts generalizing store with
  | nil => exact recorded_refl session store
  | cons turn ts ih =>
    have hturn : Recorded session store (turn.recordAs network ctx spec session store) := by
      unfold Turn.recordAs
      cases turn.answer network ctx spec with
      | error error => exact recorded_refl session store
      | ok raw =>
        refine ⟨[.record session (readHeaders raw).2 (turn.host network) (turn.path network) _], ?_,
          rfl⟩
        intro op hop
        exact ⟨_, _, _, _, List.mem_singleton.mp hop⟩
    exact recorded_trans hturn (ih _)

/-- A request changes the sessions by recording alone. -/
theorem execute_recorded (hrecord : ctx.recordCookies = true) (s : EngineState Url) :
    Recorded ctx.session s.sessions (exec (execute platform network ctx spec) s).2.sessions := by
  rcases hready : exec (makeReady platform network ctx spec false) s with ⟨error | ready, s₁⟩
  · rw [execute_sessions_of_error hready]
    exact recorded_refl ctx.session s.sessions
  · rw [execute_sessions_of_ready hrecord hready]
    exact recorded_recordedAs ctx.session _ s.sessions

/-! ### Streams -/

/-- A call with a callback that leaves the sessions. -/
def SameSessions {Seen : Type} (w w' : Watched Url Seen) : Prop :=
  w'.engine.sessions = w.engine.sessions

/-- A state has its own sessions. -/
theorem sameSessions_refl {Seen : Type} (w : Watched Url Seen) : SameSessions w w := rfl

/-- Two calls that keep the sessions keep them together. -/
theorem sameSessions_trans {Seen : Type} (w w' w'' : Watched Url Seen) (h : SameSessions w w')
    (h' : SameSessions w' w'') : SameSessions w w'' := h'.trans h

/-- The head of a stream records nothing. -/
theorem executeStream_sessions (s : EngineState Url) :
    (exec (executeStream platform network ctx spec) s).2.sessions = s.sessions := by
  have hbefore := (makeReady_before platform network ctx spec true s).sessions
  rcases hready : exec (makeReady platform network ctx spec true) s with ⟨error | ready, t⟩
  all_goals
    rw [hready] at hbefore
  · unfold executeStream
    rw [exec_bind_error hready]
    exact hbefore
  · rw [(executeStream_state hready).2]
    exact hbefore

/-- Showing something keeps the sessions. -/
theorem emit_sessions {Seen : Type} (item : Seen) :
    Keeps SameSessions (emit item : WatchedM Url Seen PUnit) := fun _ => rfl

/-- So does delivering the events of a chunk. -/
theorem deliver_sessions (maxEvents : Nat) (events : List Sse.Event) :
    Keeps (@SameSessions Url Sse.Event) (deliver maxEvents events) := by
  induction events with
  | nil => exact keeps_pure sameSessions_refl _
  | cons event events ih =>
    unfold deliver
    refine keeps_bind sameSessions_trans (emit_sessions event) ?_
    intro _
    refine keeps_bind sameSessions_trans (keeps_get sameSessions_refl) ?_
    intro w
    split
    · exact keeps_pure sameSessions_refl _
    · exact ih

/-- Reading a stream records nothing, however it ends. -/
theorem readStream_sessions (maxEvents : Nat) (parser : Sse.Parser) (feed : List Arrival) :
    Keeps (@SameSessions Url Sse.Event) (readStream maxEvents parser feed) := by
  induction feed generalizing parser with
  | nil => exact keeps_pure sameSessions_refl _
  | cons arrival feed ih =>
    cases arrival with
    | closed =>
      unfold readStream
      split
      · exact keeps_bind sameSessions_trans (emit_sessions _) fun _ =>
          keeps_pure sameSessions_refl _
      · exact keeps_pure sameSessions_refl _
    | failed described => exact keeps_throw sameSessions_refl _
    | chunk bytes =>
      unfold readStream
      dsimp only
      refine keeps_bind sameSessions_trans (deliver_sessions maxEvents _) ?_
      intro full
      split
      · exact keeps_pure sameSessions_refl _
      · exact ih _

/-- Following a stream records nothing, however it ends. -/
theorem followStream_sessions (maxEvents : Nat) (feed : List (WireRequest Url) → List Arrival) :
    Keeps SameSessions (followStream platform network ctx spec maxEvents feed) := by
  unfold followStream
  refine keeps_bind sameSessions_trans
    (fun w => @executeStream_sessions _ platform network ctx spec w.engine) ?_
  intro head
  split
  · refine keeps_bind sameSessions_trans (keeps_get sameSessions_refl) ?_
    intro w
    refine keeps_bind sameSessions_trans (readStream_sessions maxEvents _ _) ?_
    intro ended
    refine keeps_bind sameSessions_trans (keeps_get sameSessions_refl) ?_
    intro w
    exact keeps_pure sameSessions_refl _
  · exact keeps_pure sameSessions_refl _

end Gabriel.Engine

namespace Gabriel.Cli

open Gabriel.Core Gabriel.Engine Text Fallible

variable {Url : Type}

/-! ### The promise -/

/-- The session store as it was after the last cookie that the run recorded: the store of the
engine, or what the file held when the run did not get as far as loading it. -/
def storeAfter (around : Surroundings Url) (args : RunArgs) (after : RunWorld Url) :
    Except Text SessionStore :=
  match openRun around args with
  | .error _ => around.sessions
  | .ok _ => .ok after.run.engine.sessions

/-- However the run ends, `sessions.json` holds the store as it was after the last cookie. -/
def KeepsSessions (around : Surroundings Url) (args : RunArgs) (streaming : Streaming Url)
    (stdin : List (Except Text Text)) : Prop :=
  let after := (exec (runWorld around args streaming) (.start around stdin)).2
  after.file = storeAfter around args after

/-! ### What decides it -/

/-- Whether a request needs an answer of the user. -/
def Asks (args : RunArgs) (spec : RequestSpec) : Prop :=
  spec.effect.needsConfirmation = true ∧ args.dryRun = false ∧ args.yes = false

/-- The gate lets a request through, with these lines to read. -/
def LetsThrough (around : Surroundings Url) (args : RunArgs) (spec : RequestSpec)
    (stdin : List (Except Text Text)) : Prop :=
  ¬ Asks args spec ∨
    (around.terminal = true ∧ ∃ line rest, stdin = .ok line :: rest ∧ saysYes line = true)

/-- The gate asks, and the answer cannot be read. -/
def CannotRead (around : Surroundings Url) (args : RunArgs) (spec : RequestSpec)
    (stdin : List (Except Text Text)) : Prop :=
  Asks args spec ∧ around.terminal = true ∧ ∃ message rest, stdin = .error message :: rest

/-- The states in which the loop comes to its requests. -/
def rounds (around : Surroundings Url) (collection : Collection) (ctx : RunContext)
    (args : RunArgs) : Nat → List RequestEntry → RunState Url → List (RunState Url × RequestEntry)
  | _, [], _ => []
  | target, entry :: rest, s =>
    (s, entry) :: match exec (runTarget around collection ctx args target entry) s with
      | (.ok _, t) => rounds around collection ctx args (target + 1) rest t
      | (.error _, _) => []

/-- A named request is sent, its chain breaks, and the answers before that changed the store. -/
def LosesChain (around : Surroundings Url) (args : RunArgs) (opened : Opened Url)
    (stdin : List (Except Text Text)) (entry : RequestEntry) : Prop :=
  let spec := opened.collection.applyDefaults entry.spec
  args.dryRun = false ∧ LetsThrough around args spec stdin ∧
    ∃ ready s, exec (makeReady around.platform around.network opened.ctx spec false) opened.engine
        = (.ok ready, s) ∧
      (runLast around.network opened.ctx spec ready s).Breaks around.network opened.ctx spec ∧
      recordedAs around.network opened.ctx spec opened.ctx.session
        (runTurns around.network opened.ctx spec ready s) opened.engine.sessions
          ≠ opened.engine.sessions

/-- A run of `--all` comes to a request whose prompt cannot be read, and the requests before it
changed the store. -/
def LosesPrompt (around : Surroundings Url) (args : RunArgs) (opened : Opened Url)
    (stdin : List (Except Text Text)) : Prop :=
  ∃ round ∈ rounds around opened.collection opened.ctx args 0 opened.targets
      { RunState.start stdin with engine := opened.engine },
    CannotRead around args (opened.collection.applyDefaults round.2.spec) round.1.stdin ∧
      round.1.engine.sessions ≠ opened.engine.sessions

/-! ### One request -/

section Target

variable (around : Surroundings Url) (args : RunArgs)

/-- What the gate can decide. It leaves the engine alone. -/
inductive Decided (spec : RequestSpec) (s t : RunState Url) : Except CliError Proceed → Prop where
  | send : LetsThrough around args spec s.stdin → Decided spec s t (.ok .send)
  | skipped : ¬ LetsThrough around args spec s.stdin → ¬ CannotRead around args spec s.stdin →
      Decided spec s t (.ok .skipped)
  | failed (error : CliError) : ¬ LetsThrough around args spec s.stdin →
      CannotRead around args spec s.stdin ∨ args.all = false → Decided spec s t (.error error)

/-- What reading a line gives. At the end of the input it is the empty line. -/
def firstLine : List (Except Text Text) → Except CliError Text
  | [] => .ok []
  | .error message :: _ => .error (.io "reading the answer".toList message)
  | .ok line :: _ => .ok line

/-- The first line is an error where reading the input fails. -/
theorem exists_of_firstLine_error {stdin : List (Except Text Text)} {error : CliError}
    (h : firstLine stdin = .error error) : ∃ message rest, stdin = .error message :: rest := by
  match stdin, h with
  | .error message :: rest, _ => exact ⟨message, rest, rfl⟩

/-- The first line is empty where the input has ended, and the first of the input otherwise. -/
theorem firstLine_eq_ok {stdin : List (Except Text Text)} {line : Text}
    (h : firstLine stdin = .ok line) :
    (stdin = [] ∧ line = []) ∨ ∃ rest, stdin = .ok line :: rest := by
  match stdin, h with
  | [], h => exact Or.inl ⟨rfl, (Except.ok.inj h).symm⟩
  | .ok read :: rest, h => exact Or.inr ⟨rest, by rw [Except.ok.inj h]⟩

/-- Reading a line leaves the engine alone. -/
theorem readLine_result (target : Nat) (s : RunState Url) :
    (exec (readLine target) s).2.engine = s.engine ∧
      (exec (readLine target) s).1 = firstLine s.stdin := by
  obtain ⟨engine, stdin, errors, skipped, events⟩ := s
  rcases stdin with _ | ⟨message | line, rest⟩
  · exact ⟨rfl, rfl⟩
  · exact ⟨rfl, rfl⟩
  · exact ⟨rfl, rfl⟩

/-- What the gate decides. -/
theorem confirmEffect_decides (spec : RequestSpec) (target : Nat) (id : Text) (s : RunState Url) :
    (exec (confirmEffect around spec target id args) s).2.engine = s.engine ∧
      Decided around args spec s (exec (confirmEffect around spec target id args) s).2
        (exec (confirmEffect around spec target id args) s).1 := by
  unfold confirmEffect
  -- The gate lets a request through without asking, or asks: in a terminal it reads a line, without
  -- one it stops or, with `--all`, skips.
  by_cases hfree : (!spec.effect.needsConfirmation || args.dryRun || args.yes) = true
  · rw [if_pos hfree]
    refine ⟨rfl, .send (Or.inl ?_)⟩
    rintro ⟨hneeds, hdry, hyes⟩
    rw [hneeds, hdry, hyes] at hfree
    exact absurd hfree (by decide)
  · rw [if_neg hfree]
    have hasks : Asks args spec := by
      rw [Bool.or_eq_true, Bool.or_eq_true, not_or, not_or] at hfree
      obtain ⟨⟨hneeds, hdry⟩, hyes⟩ := hfree
      exact ⟨by simpa using hneeds, by simpa using hdry, by simpa using hyes⟩
    by_cases hterminal : around.terminal = true
    · rw [if_pos hterminal]
      obtain ⟨hengine, hread⟩ := readLine_result target s
      rcases hrun : exec (readLine target) s with ⟨error | line, t⟩
      all_goals
        rw [hrun] at hengine hread
      · rw [exec_bind_error hrun]
        obtain ⟨message, rest, hstdin⟩ := exists_of_firstLine_error hread.symm
        refine ⟨hengine, .failed _ ?_ (Or.inl ⟨hasks, hterminal, message, rest, hstdin⟩)⟩
        rintro (hno | ⟨-, line, rest', hline, -⟩)
        · exact hno hasks
        · exact absurd (hstdin.symm.trans hline) (by simp)
      · rw [exec_bind_ok hrun]
        have hreads : ¬ CannotRead around args spec s.stdin := by
          rintro ⟨-, -, message, rest, hstdin⟩
          rw [hstdin] at hread
          exact absurd hread (by simp [firstLine])
        by_cases hyes : saysYes line = true
        · rw [if_pos hyes]
          refine ⟨hengine, .send (Or.inr ⟨hterminal, ?_⟩)⟩
          -- The answer is yes, so that it is not the empty line at the end of the input.
          rcases firstLine_eq_ok hread.symm with ⟨-, rfl⟩ | ⟨rest, hstdin⟩
          · exact absurd hyes (by decide)
          · exact ⟨line, rest, hstdin, hyes⟩
        · rw [if_neg hyes]
          refine ⟨hengine, .skipped ?_ hreads⟩
          rintro (hno | ⟨-, line', rest, hstdin, hyes'⟩)
          · exact hno hasks
          · rw [hstdin] at hread
            exact hyes (Except.ok.inj hread ▸ hyes')
    · rw [if_neg hterminal]
      have hclosed : ¬ LetsThrough around args spec s.stdin := by
        rintro (hno | ⟨hyes, -⟩)
        · exact hno hasks
        · exact hterminal hyes
      by_cases hall : args.all = true
      · rw [if_pos hall]
        exact ⟨rfl, .skipped hclosed fun hread => hterminal hread.2.1⟩
      · rw [if_neg hall]
        exact ⟨rfl, .failed _ hclosed (Or.inr (by simpa using hall))⟩

variable (collection : Collection) (ctx : RunContext) (target : Nat) (entry : RequestEntry)

/-- A request that is let through, in a run that sends. -/
theorem runTarget_of_send (hdry : args.dryRun = false) {s t : RunState Url}
    (h : exec (confirmEffect around (collection.applyDefaults entry.spec) target entry.id args) s
      = (.ok .send, t)) :
    (exec (runTarget around collection ctx args target entry) s).2.engine
        = (exec (execute around.platform around.network ctx (collection.applyDefaults entry.spec))
          t.engine).2 ∧
      ((∃ error, (exec (runTarget around collection ctx args target entry) s).1 = .error error) ↔
        args.all = false ∧ ∃ error, (exec (execute around.platform around.network ctx
          (collection.applyDefaults entry.spec)) t.engine).1 = .error error) := by
  unfold runTarget
  dsimp only
  rw [exec_bind_ok h]
  dsimp only
  rw [if_neg (by rw [hdry]; exact Bool.false_ne_true), exec_onEngine_bind]
  -- The engine after the request does not depend on how the round goes on from it.
  have hengine : (exec (onEngine target (execute around.platform around.network ctx
      (collection.applyDefaults entry.spec))) t).2.engine = (exec (execute around.platform
        around.network ctx (collection.applyDefaults entry.spec)) t.engine).2 := rfl
  cases hrun : (exec (execute around.platform around.network ctx
      (collection.applyDefaults entry.spec)) t.engine).1 with
  | ok outcome => exact ⟨hengine, by simp⟩
  | error error =>
    dsimp only
    -- With `--all` a failure is reported and the loop goes on; without it `?` ends the run.
    by_cases hall : args.all = true
    · rw [if_pos hall]
      refine ⟨hengine, ?_⟩
      constructor
      · rintro ⟨_, hfail⟩
        exact absurd hfail (by rw [exec_modify]; simp)
      · rintro ⟨hnamed, -⟩
        exact absurd (hall.symm.trans hnamed) (by decide)
    · rw [if_neg hall]
      exact ⟨hengine, fun _ => ⟨by simpa using hall, error, rfl⟩, fun _ => ⟨_, rfl⟩⟩

/-- A dry run leaves the sessions. -/
theorem runTarget_sessions_of_dry (hdry : args.dryRun = true) (s : RunState Url) :
    (exec (runTarget around collection ctx args target entry) s).2.engine.sessions
      = s.engine.sessions := by
  have hgate := (confirmEffect_decides around args (collection.applyDefaults entry.spec) target
    entry.id s).1
  unfold runTarget
  dsimp only
  rw [exec_bind]
  rcases hconfirm : exec (confirmEffect around (collection.applyDefaults entry.spec) target
    entry.id args) s with ⟨error | proceed, t⟩
  all_goals
    rw [hconfirm] at hgate
  -- The gate changes no session, and preparing a request without sending it does not either.
  · exact congrArg EngineState.sessions hgate
  · cases proceed with
    | skipped => exact congrArg EngineState.sessions hgate
    | send =>
      dsimp only
      rw [if_pos hdry, exec_onEngine_bind]
      have hsame := prepare_sessions around.platform around.network ctx
        (collection.applyDefaults entry.spec) t.engine
      rw [hgate] at hsame
      cases (exec (prepare around.platform around.network ctx
        (collection.applyDefaults entry.spec)) t.engine).1 with
      | ok prepared => rw [← hsame, ← hgate]; rfl
      | error error => rw [← hsame, ← hgate]; rfl

/-- A request of `--all` ends the run only when its prompt cannot be read, and then the engine is
as before. -/
theorem runTarget_fails_iff_of_all (hall : args.all = true) (hdry : args.dryRun = false)
    (s : RunState Url) :
    ((∃ error, (exec (runTarget around collection ctx args target entry) s).1 = .error error) ↔
        CannotRead around args (collection.applyDefaults entry.spec) s.stdin) ∧
      (CannotRead around args (collection.applyDefaults entry.spec) s.stdin →
        (exec (runTarget around collection ctx args target entry) s).2.engine = s.engine) := by
  have hnamed : ¬ args.all = false := by rw [hall]; decide
  obtain ⟨hengine, hdecided⟩ := confirmEffect_decides around args
    (collection.applyDefaults entry.spec) target entry.id s
  rcases hconfirm : exec (confirmEffect around (collection.applyDefaults entry.spec) target
    entry.id args) s with ⟨result, t⟩
  rw [hconfirm] at hengine hdecided
  dsimp only at hdecided
  -- One case for each decision of the gate; only a prompt that cannot be read fails.
  cases hdecided with
  | failed error hclosed hwhy =>
    have hread := hwhy.resolve_right hnamed
    have hrun : exec (runTarget around collection ctx args target entry) s = (.error error, t) :=
      exec_bind_error hconfirm
    rw [hrun]
    exact ⟨⟨fun _ => hread, fun _ => ⟨error, rfl⟩⟩, fun _ => hengine⟩
  | skipped hclosed hreads =>
    have hrun : exec (runTarget around collection ctx args target entry) s
        = (.ok (), { t with skipped := t.skipped + 1 }) := exec_bind_ok hconfirm
    rw [hrun]
    exact ⟨⟨by rintro ⟨_, ⟨⟩⟩, fun hread => absurd hread hreads⟩,
      fun hread => absurd hread hreads⟩
  | send hopen =>
    have hreads : ¬ CannotRead around args (collection.applyDefaults entry.spec) s.stdin := by
      rintro ⟨hasks, -, message, rest, hstdin⟩
      rcases hopen with hno | ⟨-, line, rest', hline, -⟩
      · exact hno hasks
      · exact absurd (hstdin.symm.trans hline) (by simp)
    have hsend := (runTarget_of_send around args collection ctx target entry hdry hconfirm).2
    exact ⟨⟨fun hfail => absurd (hsend.mp hfail).1 hnamed, fun hread => absurd hread hreads⟩,
      fun hread => absurd hread hreads⟩

/-- A named request ends the run with another store exactly when its chain loses it. -/
theorem runTarget_loses_iff_of_named {opened : Opened Url} (hnamed : args.all = false)
    (hrecord : opened.ctx.recordCookies = true) {s : RunState Url}
    (hengine : s.engine = opened.engine) :
    ((∃ error, (exec (runTarget around opened.collection opened.ctx args target entry) s).1
          = .error error) ∧
        (exec (runTarget around opened.collection opened.ctx args target entry) s).2.engine.sessions
          ≠ opened.engine.sessions) ↔
      LosesChain around args opened s.stdin entry := by
  -- A dry run sends nothing. Otherwise the gate decides, and a request that it stops leaves the
  -- sessions.
  by_cases hdry : args.dryRun = true
  · have hsame := runTarget_sessions_of_dry around args opened.collection opened.ctx target entry
      hdry s
    rw [hsame, hengine]
    exact ⟨fun h => absurd rfl h.2, fun h => absurd (hdry.symm.trans h.1) (by decide)⟩
  have hdry : args.dryRun = false := by simpa using hdry
  obtain ⟨hgate, hdecided⟩ := confirmEffect_decides around args
    (opened.collection.applyDefaults entry.spec) target entry.id s
  rcases hconfirm : exec (confirmEffect around (opened.collection.applyDefaults entry.spec) target
    entry.id args) s with ⟨result, t⟩
  rw [hconfirm] at hgate hdecided
  dsimp only at hdecided hgate
  have hclosed : ¬ LetsThrough around args (opened.collection.applyDefaults entry.spec) s.stdin →
      ¬ LosesChain around args opened s.stdin entry := fun hno hloses => hno hloses.2.1
  cases hdecided with
  | failed error hno _ =>
    have hrun : exec (runTarget around opened.collection opened.ctx args target entry) s
        = (.error error, t) := exec_bind_error hconfirm
    rw [hrun]
    refine ⟨fun h => absurd ?_ h.2, fun h => absurd h (hclosed hno)⟩
    rw [← hengine, ← hgate]
  | skipped hno _ =>
    have hrun : exec (runTarget around opened.collection opened.ctx args target entry) s
        = (.ok (), { t with skipped := t.skipped + 1 }) := exec_bind_ok hconfirm
    rw [hrun]
    exact ⟨fun ⟨⟨_, hfail⟩, _⟩ => absurd hfail (by simp), fun h => absurd h (hclosed hno)⟩
  | send hopen =>
    obtain ⟨hafter, hfails⟩ := runTarget_of_send around args opened.collection opened.ctx target
      entry hdry hconfirm
    rw [hgate, hengine] at hafter hfails
    rw [hafter, hfails]
    -- A request that is not ready has sent nothing; of one that is, `runReady_fails_iff` says when
    -- it fails.
    rcases hready : exec (makeReady around.platform around.network opened.ctx
      (opened.collection.applyDefaults entry.spec) false) opened.engine with ⟨error | ready, s₁⟩
    · rw [execute_sessions_of_error hready]
      refine ⟨fun h => absurd rfl h.2, ?_⟩
      rintro ⟨-, -, ready, s₂, hready', -⟩
      exact absurd (hready.symm.trans hready') (by simp)
    · rw [execute_sessions_of_ready hrecord hready, execute_of_ready hready, runReady_fails_iff]
      constructor
      · rintro ⟨⟨-, hbreaks⟩, hchanged⟩
        exact ⟨hdry, hopen, ready, s₁, hready, hbreaks, hchanged⟩
      · rintro ⟨-, -, ready', s₂, hready', hbreaks, hchanged⟩
        rw [hready, Prod.mk.injEq, Except.ok.injEq] at hready'
        obtain ⟨rfl, rfl⟩ := hready'
        exact ⟨⟨hnamed, hbreaks⟩, hchanged⟩

end Target

/-! ### The loop -/

section Loop

variable (around : Surroundings Url) (args : RunArgs) (collection : Collection) (ctx : RunContext)

/-- A dry run leaves the sessions. -/
theorem runTargets_sessions_of_dry (hdry : args.dryRun = true) (target : Nat)
    (targets : List RequestEntry) (s : RunState Url) :
    (exec (runTargets around collection ctx args target targets) s).2.engine.sessions
      = s.engine.sessions := by
  induction targets generalizing target s with
  | nil => rfl
  | cons entry rest ih =>
    have hround := runTarget_sessions_of_dry around args collection ctx target entry hdry s
    unfold runTargets
    rw [exec_bind]
    rcases hrun : exec (runTarget around collection ctx args target entry) s with ⟨error | done, t⟩
    all_goals
      rw [hrun] at hround
    · exact hround
    · exact (ih (target + 1) t).trans hround

/-- The loop of `--all` ends early with another store exactly at a prompt that cannot be read. -/
theorem runTargets_loses_iff_of_all (hall : args.all = true) (hdry : args.dryRun = false)
    (loaded : SessionStore) (target : Nat) (targets : List RequestEntry) (s : RunState Url) :
    ((∃ error, (exec (runTargets around collection ctx args target targets) s).1 = .error error) ∧
        (exec (runTargets around collection ctx args target targets) s).2.engine.sessions
          ≠ loaded) ↔
      ∃ round ∈ rounds around collection ctx args target targets s,
        CannotRead around args (collection.applyDefaults round.2.spec) round.1.stdin ∧
          round.1.engine.sessions ≠ loaded := by
  induction targets generalizing target s with
  | nil =>
    refine ⟨fun ⟨⟨_, hfail⟩, _⟩ => absurd hfail ?_, fun ⟨_, hround, _⟩ => absurd hround ?_⟩
    · simp [runTargets]
    · exact List.not_mem_nil
  | cons entry rest ih =>
    obtain ⟨hfails, hengine⟩ := runTarget_fails_iff_of_all around args collection ctx target entry
      hall hdry s
    unfold runTargets rounds
    rw [exec_bind]
    rcases hrun : exec (runTarget around collection ctx args target entry) s with ⟨error | done, t⟩
    -- The round failed, so no other round is left; or it did not, and the rest decides.
    all_goals
      rw [hrun] at hfails hengine
      dsimp only at hfails hengine ⊢
    · have hread := hfails.mp ⟨error, rfl⟩
      rw [hengine hread]
      constructor
      · intro h
        exact ⟨(s, entry), List.mem_singleton_self _, hread, h.2⟩
      · rintro ⟨round, hround, -, hchanged⟩
        rw [List.mem_singleton.mp hround] at hchanged
        exact ⟨⟨error, rfl⟩, hchanged⟩
    · have hreads : ¬ CannotRead around args (collection.applyDefaults entry.spec) s.stdin :=
        fun hread => absurd (hfails.mpr hread) (by simp)
      rw [ih (target + 1) t]
      constructor
      · rintro ⟨round, hround, hloses⟩
        exact ⟨round, List.mem_cons_of_mem _ hround, hloses⟩
      · rintro ⟨round, hround, hloses⟩
        rcases List.mem_cons.mp hround with rfl | hround
        · exact absurd hloses.1 hreads
        · exact ⟨round, hround, hloses⟩

end Loop

/-- The loop changes the sessions by recording alone. -/
theorem runTargets_recorded (around : Surroundings Url) (args : RunArgs) (collection : Collection)
    {ctx : RunContext} (hrecord : ctx.recordCookies = true) (target : Nat)
    (targets : List RequestEntry) (s : RunState Url) :
    Recorded ctx.session s.engine.sessions
      (exec (runTargets around collection ctx args target targets) s).2.engine.sessions := by
  induction targets generalizing target s with
  | nil => exact recorded_refl ctx.session _
  | cons entry rest ih =>
    -- One round: what the gate said decides whether anything is sent at all.
    have hround : Recorded ctx.session s.engine.sessions
        (exec (runTarget around collection ctx args target entry) s).2.engine.sessions := by
      by_cases hdry : args.dryRun = true
      · rw [runTarget_sessions_of_dry around args collection ctx target entry hdry]
        exact recorded_refl ctx.session _
      · have hgate := confirmEffect_decides around args (collection.applyDefaults entry.spec) target
          entry.id s
        rcases hconfirm : exec (confirmEffect around (collection.applyDefaults entry.spec) target
          entry.id args) s with ⟨error | proceed, t⟩
        all_goals
          rw [hconfirm] at hgate
          dsimp only at hgate
        · have hrun : exec (runTarget around collection ctx args target entry) s
              = (.error error, t) :=
            exec_bind_error hconfirm
          rw [hrun, hgate.1]
          exact recorded_refl ctx.session _
        · cases proceed with
          | skipped =>
            have hrun : exec (runTarget around collection ctx args target entry) s
                = (.ok (), { t with skipped := t.skipped + 1 }) := exec_bind_ok hconfirm
            rw [hrun]
            dsimp only
            rw [hgate.1]
            exact recorded_refl ctx.session _
          | send =>
            rw [(runTarget_of_send around args collection ctx target entry (by simpa using hdry)
              hconfirm).1, hgate.1]
            exact execute_recorded hrecord s.engine
    unfold runTargets
    -- The loop goes on after a round that ended well and stops after one that did not.
    rw [exec_bind]
    rcases hrun : exec (runTarget around collection ctx args target entry) s with ⟨error | done, t⟩
    all_goals
      rw [hrun] at hround
    · exact hround
    · exact recorded_trans hround (ih (target + 1) t)

/-! ### The run -/

section Run

variable (around : Surroundings Url) (args : RunArgs)

/-- What a run starts from: the sessions as loaded, cookies that are recorded, and one request
unless `--all` is given. -/
theorem openRun_opens {opened : Opened Url} (h : openRun around args = .ok opened) :
    around.sessions = .ok opened.engine.sessions ∧ opened.ctx.recordCookies = true ∧
      (args.all = false → ∃ entry, opened.targets = [entry]) := by
  unfold openRun at h
  obtain ⟨collection, -, h⟩ := bind_eq_ok h
  obtain ⟨environment, -, h⟩ := bind_eq_ok h
  obtain ⟨targets, htargets, h⟩ := bind_eq_ok h
  obtain ⟨assignments, -, h⟩ := bind_eq_ok h
  obtain ⟨sessions, hsessions, h⟩ := bind_eq_ok h
  split at h
  · exact absurd h (by simp)
  -- The store is the loaded one; without `--all` the query found one entry.
  · obtain rfl := Except.ok.inj h
    refine ⟨?_, rfl, ?_⟩
    · cases hload : around.sessions with
      | error message =>
        rw [hload] at hsessions
        exact absurd hsessions (by simp [Except.mapError])
      | ok loaded =>
        rw [hload] at hsessions
        exact congrArg Except.ok (Except.ok.inj hsessions)
    · intro hnamed
      unfold chooseTargets at htargets
      rw [if_neg (by rw [hnamed]; exact Bool.false_ne_true)] at htargets
      cases hfind : collection.find around.lower (args.request.getD []) with
      | error error =>
        rw [hfind] at htargets
        exact absurd htargets (by simp [Except.mapError, Except.map])
      | ok entry =>
        rw [hfind] at htargets
        exact ⟨entry, (Except.ok.inj htargets).symm⟩

/-- A call of the run, seen from around it. -/
theorem exec_onRun {α : Type} (call : RunM Url α) (w : RunWorld Url) :
    exec (onRun call) w = ((exec call w.run).1, { w with run := (exec call w.run).2 }) := rfl

/-- When writing succeeds, a save puts the store of the engine into the file. -/
theorem exec_saveFile (hsave : ∀ store, around.saveError store = none) (w : RunWorld Url) :
    exec (saveFile around) w = (.ok (), { w with file := .ok w.run.engine.sessions }) := by
  have hsaved : exec (saveSessions around) w.run = (.ok (), w.run) := by
    unfold saveSessions
    rw [exec_bind_ok (exec_get w.run), hsave]
    rfl
  unfold saveFile
  rw [exec_bind_ok (show exec (onRun (saveSessions around)) w = (.ok (), w) from by
    rw [exec_onRun, hsaved])]
  rfl

/-- Reports leave the engine alone. -/
theorem reportRun_settles (targets : Nat) : Keeps Settles (reportRun around args targets) := by
  unfold reportRun
  refine keeps_bind settles_trans (writeReport_settles around args.junit) ?_
  intro _
  refine keeps_bind settles_trans (writeReport_settles around args.html) ?_
  intro _
  refine keeps_bind settles_trans (keeps_get settles_refl) ?_
  intro s
  dsimp only
  split
  · exact keeps_throw settles_refl _
  · exact keeps_pure settles_refl _

/-- The request of a stream changes no session. -/
theorem followTarget_sessions (collection : Collection) (ctx : RunContext)
    (streaming : Streaming Url) (entry : RequestEntry) (s : RunState Url) :
    (exec (followTarget around collection ctx streaming entry) s).2.engine.sessions
      = s.engine.sessions := by
  have hfollow : (exec (followToEnd around ctx (collection.applyDefaults entry.spec) streaming)
      s.engine).2.sessions = s.engine.sessions :=
    followStream_sessions streaming.maxEvents streaming.feed (.start s.engine)
  unfold followTarget
  dsimp only
  rw [exec_onEngine_bind]
  cases (exec (followToEnd around ctx (collection.applyDefaults entry.spec) streaming)
    s.engine).1 with
  | ok _ => exact hfollow
  | error _ => exact hfollow

variable (streaming : Streaming Url) (stdin : List (Except Text Text))

/-- The run as it enters its loop, or its stream. -/
def entered (opened : Opened Url) : RunState Url :=
  { RunState.start stdin with engine := opened.engine }

/-- A run with a stream keeps what it loaded: it records nothing. -/
theorem keepsSessions_of_stream (hsave : ∀ store, around.saveError store = none)
    {opened : Opened Url} (hopen : openRun around args = .ok opened)
    (hstream : args.stream = true) :
    KeepsSessions around args streaming stdin := by
  obtain ⟨hloaded, -, -⟩ := openRun_opens around args hopen
  unfold KeepsSessions storeAfter runWorld
  rw [hopen]
  dsimp only
  rw [exec_bind_ok (exec_onRun _ _), hstream]
  -- Without a target nothing runs; otherwise following it records nothing.
  cases opened.targets with
  | nil => exact hloaded
  | cons entry rest =>
    dsimp only
    have hsessions := followTarget_sessions around opened.collection opened.ctx streaming entry
      (entered stdin opened)
    rw [exec_bind, exec_onRun]
    rcases hrun : exec (followTarget around opened.collection opened.ctx streaming entry)
      (entered stdin opened) with ⟨error | done, t⟩
    all_goals
      rw [hrun] at hsessions
      change t.engine.sessions = opened.engine.sessions at hsessions
      unfold entered at hrun
      dsimp only [exec_modify, RunWorld.start]
      rw [hrun]
    · exact hloaded.trans (congrArg Except.ok hsessions.symm)
    · dsimp only
      rw [exec_saveFile around hsave]

/-- A run with a loop keeps what it recorded, unless the loop ends early with another store. -/
theorem keepsSessions_iff_of_loop (hsave : ∀ store, around.saveError store = none)
    {opened : Opened Url} (hopen : openRun around args = .ok opened)
    (hstream : args.stream = false) :
    KeepsSessions around args streaming stdin ↔
      ¬ ((∃ error, (exec (runTargets around opened.collection opened.ctx args 0 opened.targets)
            (entered stdin opened)).1 = .error error) ∧
          (exec (runTargets around opened.collection opened.ctx args 0 opened.targets)
            (entered stdin opened)).2.engine.sessions ≠ opened.engine.sessions) := by
  obtain ⟨hloaded, -, -⟩ := openRun_opens around args hopen
  unfold KeepsSessions storeAfter runWorld
  rw [hopen]
  dsimp only
  rw [exec_bind_ok (exec_onRun _ _), hstream]
  dsimp only
  rw [exec_bind, exec_onRun]
  -- The loop ended with an error and `?` skips the save, or the save comes next.
  rcases hrun : exec (runTargets around opened.collection opened.ctx args 0 opened.targets)
    (entered stdin opened) with ⟨error | done, t⟩
  all_goals
    unfold entered at hrun
    dsimp only [exec_modify, RunWorld.start]
    rw [hrun]
  · show around.sessions = .ok t.engine.sessions ↔ _
    rw [hloaded, Except.ok.injEq]
    constructor
    · rintro hsame ⟨-, hchanged⟩
      exact hchanged hsame.symm
    · intro h
      by_contra hchanged
      exact h ⟨⟨error, rfl⟩, fun hsame => hchanged hsame.symm⟩
  · refine ⟨fun _ => by rintro ⟨⟨_, ⟨⟩⟩, -⟩, fun _ => ?_⟩
    dsimp only
    rw [exec_bind_ok (exec_saveFile around hsave _), exec_onRun]
    have hsettled := (reportRun_settles around args opened.targets.length t).2
    exact congrArg (fun engine => Except.ok engine.sessions) hsettled.symm

/-- However a run ends, `sessions.json` holds the store as it was after the last cookie, unless a
named request breaks off after a cookie, or a run of `--all` cannot read the answer to a prompt
after a cookie. Writing the file succeeds. -/
theorem keepsSessions_iff (hsave : ∀ store, around.saveError store = none) :
    KeepsSessions around args streaming stdin ↔
      ∀ opened, openRun around args = .ok opened → args.stream = false →
        (args.all = false → ∀ entry ∈ opened.targets,
          ¬ LosesChain around args opened stdin entry) ∧
        (args.all = true → ¬ LosesPrompt around args opened stdin) := by
  -- A command that does not open leaves the file as it was, and so does a stream.
  rcases hopen : openRun around args with error | opened
  · refine ⟨fun _ opened hopened => absurd hopened (by simp), fun _ => ?_⟩
    unfold KeepsSessions storeAfter runWorld
    rw [hopen]
    rfl
  cases hstream : args.stream with
  | true =>
    exact ⟨fun _ _ _ h => absurd h (by decide), fun _ =>
      keepsSessions_of_stream around args streaming stdin hsave hopen hstream⟩
  | false =>
    rw [keepsSessions_iff_of_loop around args streaming stdin hsave hopen hstream]
    obtain ⟨-, hrecord, hone⟩ := openRun_opens around args hopen
    -- `opened` is the only one there is, so the quantifier over it can go.
    have hquantified : ∀ {P : Opened Url → Prop},
        (∀ opened', Except.ok opened = (.ok opened' : Except CliError (Opened Url)) →
          false = false → P opened') ↔ P opened :=
      ⟨fun h => h opened rfl rfl, fun h opened' heq _ => Except.ok.inj heq ▸ h⟩
    rw [hquantified]
    cases hall : args.all with
    | false =>
      -- A named request: the loop is one round, and `LosesChain` is said of that round.
      obtain ⟨entry, htargets⟩ := hone hall
      have hloses := runTarget_loses_iff_of_named around args 0 entry hall hrecord
        (show (entered stdin opened).engine = opened.engine from rfl)
      have hsingle : exec (runTargets around opened.collection opened.ctx args 0 [entry])
          (entered stdin opened) = exec (runTarget around opened.collection opened.ctx args 0 entry)
            (entered stdin opened) := by
        unfold runTargets
        rw [exec_bind]
        rcases exec (runTarget around opened.collection opened.ctx args 0 entry)
          (entered stdin opened) with ⟨error | done, t⟩ <;> rfl
      rw [htargets, hsingle, hloses]
      constructor
      · intro hkeeps
        refine ⟨fun _ other hother => ?_, fun h => absurd h (by decide)⟩
        rw [List.mem_singleton.mp hother]
        exact hkeeps
      · intro h
        exact h.1 rfl entry (List.mem_singleton_self entry)
    | true =>
      -- With `--dry-run` no round changes a session, and no prompt is asked.
      by_cases hdry : args.dryRun = true
      · have hsame := runTargets_sessions_of_dry around args opened.collection opened.ctx hdry 0
          opened.targets (entered stdin opened)
        rw [hsame]
        refine ⟨fun _ => ⟨fun h => absurd h (by decide), fun _ => ?_⟩,
          fun _ h => h.2 rfl⟩
        rintro ⟨round, -, ⟨⟨-, hwet, -⟩, -⟩, -⟩
        exact absurd (hdry.symm.trans hwet) (by decide)
      · rw [runTargets_loses_iff_of_all around args opened.collection opened.ctx hall
          (by simpa using hdry) opened.engine.sessions 0 opened.targets (entered stdin opened)]
        exact ⟨fun h => ⟨fun h => absurd h (by decide), fun _ => h⟩, fun h => h.2 rfl⟩

end Run

/-- A process that loads, records and saves leaves what it loaded after its records. -/
theorem content_runSteps (file : Option SessionStore) (process : Nat) (records : List JarOp) :
    ((SessionFile.start file).run (runSteps process records)).content
      = records.foldl SessionStore.applyOp (file.getD .new) := by
  -- The copy of the process follows its records one by one.
  have hcopy : ∀ (world : SessionFile) (store : SessionStore), world.copy process = some store →
      (world.run (records.map (.update process))).copy process
        = some (records.foldl SessionStore.applyOp store) := by
    induction records with
    | nil => exact fun world store h => h
    | cons op records ih =>
      intro world store h
      refine ih _ _ ?_
      show Function.update world.copy process _ process = _
      rw [Function.update_self, h]
      rfl
  have hloaded := hcopy ((SessionFile.start file).step (.load process)) (file.getD .new)
    (Function.update_self ..)
  have hsave : ∀ (world : SessionFile) (store : SessionStore), world.copy process = some store →
      (world.step (.save process)).content = store := by
    intro world store h
    unfold SessionFile.step SessionFile.content
    dsimp only
    rw [h]
    rfl
  -- The run is a load, the records and a save.
  have hrun : (SessionFile.start file).run (runSteps process records)
      = (((SessionFile.start file).step (.load process)).run (records.map (.update process))).step
        (.save process) := by
    unfold SessionFile.run runSteps
    rw [List.foldl_append, List.foldl_cons, List.foldl_cons, List.foldl_nil]
  rw [hrun]
  exact hsave _ _ hloaded

/-- The second world's sessions are the first one's with cookies recorded. -/
def RecordsIn (session : Text) (w w' : RunWorld Url) : Prop :=
  Recorded session w.run.engine.sessions w'.run.engine.sessions

/-- Two steps that only record in the session do so together. -/
theorem recordsIn_trans (session : Text) (w w' w'' : RunWorld Url) (h : RecordsIn session w w')
    (h' : RecordsIn session w' w'') : RecordsIn session w w'' := recorded_trans h h'

/-- Saving records nothing, also when it fails. -/
theorem saveFile_records (around : Surroundings Url) (session : Text) :
    Keeps (RecordsIn session) (saveFile around) := by
  unfold saveFile
  refine keeps_bind (recordsIn_trans session) ?_ ?_
  · intro w
    have hsettled := (saveSessions_settles around w.run).2
    show Recorded session w.run.engine.sessions (exec (saveSessions around) w.run).2.engine.sessions
    rw [hsettled]
    exact recorded_refl session _
  · exact fun _ w => recorded_refl session _

/-- After it is opened, a run changes the sessions by recording alone. -/
theorem runWorld_recorded (around : Surroundings Url) (args : RunArgs) (streaming : Streaming Url)
    (stdin : List (Except Text Text)) {opened : Opened Url}
    (hopen : openRun around args = .ok opened) :
    Recorded opened.ctx.session opened.engine.sessions
      (exec (runWorld around args streaming) (.start around stdin)).2.run.engine.sessions := by
  obtain ⟨-, hrecord, -⟩ := openRun_opens around args hopen
  -- `Keeps` of the rest of the run, entered at the opened state, is the whole statement.
  have hkeeps : ∀ {rest : WorldM Url Unit}, Keeps (RecordsIn opened.ctx.session) rest →
      Recorded opened.ctx.session opened.engine.sessions
        (exec rest
          { RunWorld.start around stdin with run := entered stdin opened }).2.run.engine.sessions :=
    fun hrest => hrest _
  unfold runWorld
  rw [hopen]
  dsimp only
  rw [exec_bind_ok (exec_onRun _ _)]
  refine hkeeps ?_
  cases args.stream with
  | true =>
    cases opened.targets with
    | nil => exact fun w => recorded_refl _ _
    | cons entry rest =>
      -- Following a stream records nothing.
      refine keeps_bind (recordsIn_trans _) (fun w => ?_) fun _ => saveFile_records around _
      show Recorded _ w.run.engine.sessions (exec (followTarget around opened.collection opened.ctx
        streaming entry) w.run).2.engine.sessions
      rw [followTarget_sessions]
      exact recorded_refl _ _
  | false =>
    -- The loop records; the file and the report leave the sessions of the run.
    refine keeps_bind (recordsIn_trans _) (fun w => ?_) fun _ =>
      keeps_bind (recordsIn_trans _) (saveFile_records around _) fun _ w => ?_
    · exact runTargets_recorded around args opened.collection hrecord 0 opened.targets w.run
    · show Recorded _ w.run.engine.sessions (exec (reportRun around args _) w.run).2.engine.sessions
      rw [(reportRun_settles around args _ w.run).2]
      exact recorded_refl _ _

/-- A run that keeps its sessions leaves the file of a process that loads, records what the run
recorded, and saves. -/
theorem file_of_keepsSessions (around : Surroundings Url) (args : RunArgs)
    (streaming : Streaming Url) (stdin : List (Except Text Text)) {opened : Opened Url}
    (hopen : openRun around args = .ok opened)
    (hkeeps : KeepsSessions around args streaming stdin) :
    ∃ records : List JarOp,
      (∀ op ∈ records, ∃ headers host path clock,
        op = .record opened.ctx.session headers host path clock) ∧
      (exec (runWorld around args streaming) (.start around stdin)).2.file
        = .ok ((SessionFile.start (some opened.engine.sessions)).run
            (runSteps 0 records)).content := by
  obtain ⟨records, hrecords, hsessions⟩ := runWorld_recorded around args streaming stdin hopen
  refine ⟨records, hrecords, ?_⟩
  rw [content_runSteps]
  have hkept : _ = storeAfter around args _ := hkeeps
  unfold storeAfter at hkept
  rw [hopen] at hkept
  exact hkept.trans (congrArg Except.ok hsessions)

/-! ### A login that breaks off -/

/-- A request to the login page. -/
def loginEntry : RequestEntry :=
  { path := "gabriel/requests/login.toml".toList, id := "login".toList
    spec := RequestSpec.new id "GET".toList "https://app.test/login".toList }

/-- `run login`. -/
def loginRun : RunArgs :=
  { request := some "login".toList, named := fun _ => rfl, single := by simp }

/-- The collection with the login, on a network. -/
def loginSurroundings (network : Network (Text × Text)) : Surroundings (Text × Text) :=
  { plainSurroundings (plainCollection [loginEntry]) with network }

/-- The login sets its cookie on a redirect, and the page it leads to is cut off. -/
def cutOff : Network (Text × Text) :=
  scriptedNetwork
    [plainResponse 302 [("set-cookie".toList, "sid=abc".toList),
        ("location".toList, "/home".toList)],
      { plainResponse 200 [] with body := .error "connection closed".toList }]

/-- A stream that is not followed. -/
def noStream : Streaming (Text × Text) := { maxEvents := 0, feed := fun _ => [] }

/-- A login that is answered to its end is kept. -/
theorem keepsSessions_iff_login :
    KeepsSessions (loginSurroundings setsCookie) loginRun noStream [] := by
  refine (keepsSessions_iff _ _ _ _ fun _ => rfl).mpr ?_
  intro opened hopen _
  refine ⟨?_, fun h => absurd h (by decide)⟩
  rintro - entry hentry ⟨-, -, ready, s, hready, hbreaks, -⟩
  have hruns : ((openRun (loginSurroundings setsCookie) loginRun).toOption.map fun opened =>
      opened.targets.all fun entry => okWith (fun _ _ => true) (exec (execute
        (loginSurroundings setsCookie).platform (loginSurroundings setsCookie).network opened.ctx
          (opened.collection.applyDefaults entry.spec)) opened.engine)) = some true := by
    decide +kernel
  rw [hopen] at hruns
  have hok := List.all_eq_true.mp (Option.some.inj hruns) entry hentry
  obtain ⟨outcome, t, hrun, -⟩ := exists_of_okWith hok
  obtain ⟨error, hfail⟩ := @runReady_fails_iff _ (loginSurroundings setsCookie).platform
    _ _ _ ready s |>.mpr hbreaks
  rw [← execute_of_ready hready, hrun] at hfail
  exact absurd hfail (by simp)

/-- The cookie of a login that breaks off is lost. -/
theorem not_keepsSessions_cutOff :
    ¬ KeepsSessions (loginSurroundings cutOff) loginRun noStream [] := by
  intro hkeeps
  unfold KeepsSessions at hkeeps
  have hfile : ((exec (runWorld (loginSurroundings cutOff) loginRun noStream)
      (.start (loginSurroundings cutOff) [])).2.file.toOption.map fun store =>
        (store.jar "default".toList).length) = some 0 := by decide +kernel
  have hstore : ((storeAfter (loginSurroundings cutOff) loginRun
      (exec (runWorld (loginSurroundings cutOff) loginRun noStream)
        (.start (loginSurroundings cutOff) [])).2).toOption.map fun store =>
          (store.jar "default".toList).length) = some 1 := by decide +kernel
  rw [hkeeps, hstore] at hfile
  exact absurd hfile (by decide)

end Gabriel.Cli
