import Gabriel.Engine.Executor
import Gabriel.Lib.Orbit

/-!
# `Gabriel.Proofs.Chain`: the redirect loop as an orbit

A `Turn` is the state at the top of the redirect loop of `execute`: the loop state and the
engine state. Its request, the state after the response and the next turn are functions of it
(`Turn.request`, `Turn.absorb`, `Turn.next`), so that the turns of a chain are an orbit,
`turns`. What a claim says about a chain is then an invariant of `Turn.next`.

The loop of the source has a limit on its redirects, which is the fuel of the orbit. The theorems:

* `sendHop_exec`: what one hop does.
* `followChain_round`: one round of the loop is one step of the orbit.
* `followChain_endsWith`: the loop leaves the state that its last turn leaves, and returns what was
  answered there; by induction on the redirects left.
* `redirects_of_next`: everything that a step of the loop means.
* `followChain_wire`: what the loop puts on the wire: the request of every turn, without the last
  one when the client refuses to build it.
* `runReady_ok`, `runReady_wire`: the same for a request that is ready; `execute_of_ready` for a
  run.
-/

set_option autoImplicit false

namespace Gabriel.Engine

open Gabriel.Core Text Fallible Orbit

variable {Url : Type}

/-- The state at the top of the redirect loop. -/
structure Turn (Url : Type) where
  chain : Chain Url
  engine : EngineState Url

namespace Turn

variable (network : Network Url) (ctx : RunContext) (spec : RequestSpec)

/-- The `Cookie` of this turn's request. -/
def cookie (turn : Turn Url) : Option Text :=
  hopCookieText network.urls ctx spec.auth turn.engine.sessions turn.chain.chainJar
    (network.clock turn.engine.ticks) (network.clock (turn.engine.ticks + 1)) turn.chain.url

/-- The request of this turn. -/
def request (turn : Turn Url) : WireRequest Url :=
  hopRequest turn.chain (turn.cookie network ctx spec)

/-- The engine state after the clock readings of the cookies. -/
def clocked (turn : Turn Url) : EngineState Url :=
  { turn.engine with ticks := turn.engine.ticks + 2 }

/-- The engine state after the request is on the wire. -/
def sent (turn : Turn Url) : EngineState Url :=
  { turn.clocked with wire := turn.engine.wire ++ [turn.request network ctx spec] }

/-- The host whose cookies the response sets. -/
def host (turn : Turn Url) : Text := (network.urls.hostStr turn.chain.url).getD []

/-- The path that the response answers. -/
def path (turn : Turn Url) : Text := network.urls.path turn.chain.url

/-- The jar of the chain after a response. -/
def chainJarAfter (turn : Turn Url) (raw : RawResponse) : SessionStore :=
  (turn.chain.chainJar.recordSetCookies chainSession (turn.host network) (turn.path network)
    (fun n => network.clock (turn.engine.ticks + 2 + n)) (readHeaders raw).2).1

/-- The sessions after a response. -/
def sessionsAfter (turn : Turn Url) (raw : RawResponse) : SessionStore :=
  if ctx.recordCookies then
    (turn.engine.sessions.recordSetCookies ctx.session (turn.host network) (turn.path network)
      (fun n => network.clock (turn.engine.ticks + 2 + 2 * (readHeaders raw).2.length + n))
      (readHeaders raw).2).1
  else turn.engine.sessions

/-- Both states after a response was recorded. -/
def absorb (turn : Turn Url) (raw : RawResponse) : Turn Url :=
  { chain := { turn.chain with chainJar := turn.chainJarAfter network raw }
    engine := { turn.sent network ctx spec with
      sessions := turn.sessionsAfter network ctx raw
      ticks := turn.engine.ticks + 2 + 2 * (readHeaders raw).2.length
        + if ctx.recordCookies then 2 * (readHeaders raw).2.length else 0 } }

/-- The response to this turn's request. -/
def answer (turn : Turn Url) : Except EngineError RawResponse :=
  match network.requestError (turn.request network ctx spec) with
  | some message => .error (.transport message)
  | none => (network.respond (turn.sent network ctx spec).wire).mapError fun error =>
      .transport error.described

/-- The engine state when the loop ends with this turn. -/
def final (turn : Turn Url) : EngineState Url :=
  match turn.answer network ctx spec with
  | .ok raw => (turn.absorb network ctx spec raw).engine
  | .error _ =>
    match network.requestError (turn.request network ctx spec) with
    | some _ => turn.clocked
    | none => turn.sent network ctx spec

/-- The redirect that a response asks for, if the loop may follow it. -/
def redirect (spec : RequestSpec) (turn : Turn Url) (raw : RawResponse) :
    Option (Except EngineError Url) :=
  match (readHeaders raw).1.getFirst "location".toList with
  | some location =>
    if isRedirect raw.status ∧ spec.settings.followRedirects then
      some ((network.urls.join turn.chain.url location).mapError (.badUrl location))
    else none
  | none => none

/-- The next turn, when the response to this one redirects. -/
def next (turn : Turn Url) : Option (Turn Url) :=
  match turn.answer network ctx spec with
  | .error _ => none
  | .ok raw =>
    match turn.redirect network spec raw with
    | some (.ok target) =>
      let absorbed := turn.absorb network ctx spec raw
      some ⟨nextHop network.urls raw.status target absorbed.chain, absorbed.engine⟩
    | _ => none

end Turn

section Loop

variable (network : Network Url) (ctx : RunContext) (spec : RequestSpec)

/-- Sending: refused by the client, or put on the wire and answered. -/
theorem send_exec (request : WireRequest Url) (s : EngineState Url) :
    exec (send network request) s = (network.requestError request).elim
      ((network.respond (s.wire ++ [request])).mapError fun error =>
        EngineError.transport error.described, { s with wire := s.wire ++ [request] })
      (fun message => (.error (.transport message), s)) := by
  unfold send
  cases network.requestError request with
  | some message => rfl
  | none =>
    dsimp only
    rw [exec_bind_ok (exec_modify _ s), exec_bind_ok (exec_get _)]
    cases network.respond (s.wire ++ [request]) <;> rfl

/-- What the cookie of a hop is, and that it only reads the clock. -/
theorem hopCookie_exec (turn : Turn Url) :
    exec (hopCookie network ctx spec turn.chain.chainJar turn.chain.url) turn.engine
      = (.ok (turn.cookie network ctx spec), turn.clocked) := rfl

/-- A response that sets no cookie changes neither jar. -/
theorem absorb_of_no_cookies (turn : Turn Url) {raw : RawResponse}
    (h : (readHeaders raw).2 = []) :
    turn.absorb network ctx spec raw = ⟨turn.chain, turn.sent network ctx spec⟩ := by
  unfold Turn.absorb Turn.chainJarAfter Turn.sessionsAfter
  rw [h]
  cases ctx.recordCookies <;> rfl

/-- One hop: the answer to the turn's request, and the states after it. -/
theorem sendHop_exec (turn : Turn Url) :
    exec (sendHop network ctx spec turn.chain) turn.engine
      = match turn.answer network ctx spec with
        | .ok raw => (.ok (raw, (readHeaders raw).1, (turn.absorb network ctx spec raw).chain),
            (turn.absorb network ctx spec raw).engine)
        | .error error => (.error error, turn.final network ctx spec) := by
  unfold sendHop
  -- The cookie header, the client and the request, in the order of the source.
  rw [exec_bind_ok (hopCookie_exec network ctx spec turn)]
  show exec (send network (turn.request network ctx spec) >>= _) turn.clocked = _
  rw [exec_bind, send_exec]
  unfold Turn.final Turn.answer
  -- A request that cannot be built is not on the wire.
  cases network.requestError (turn.request network ctx spec) with
  | some message => rfl
  | none =>
    have hwire : turn.clocked.wire ++ [turn.request network ctx spec]
        = (turn.sent network ctx spec).wire := rfl
    simp only [hwire]
    cases network.respond (turn.sent network ctx spec).wire with
    | error error => rfl
    | ok raw =>
      show exec (if (readHeaders raw).2 = [] then _ else _) (turn.sent network ctx spec) = _
      -- Cookies are only recorded when the response has some.
      by_cases hnone : (readHeaders raw).2 = []
      · rw [if_pos hnone]
        show (Except.ok (raw, (readHeaders raw).1, turn.chain), turn.sent network ctx spec)
          = (.ok (raw, (readHeaders raw).1, (turn.absorb network ctx spec raw).chain),
            (turn.absorb network ctx spec raw).engine)
        rw [absorb_of_no_cookies network ctx spec turn hnone]
      · rw [if_neg hnone]
        unfold Turn.absorb Turn.sessionsAfter
        cases hrec : ctx.recordCookies <;> rfl

/-- One round of the loop. -/
theorem followChain_round (left : Nat) (turn : Turn Url) :
    exec (followChain network ctx spec left turn.chain) turn.engine
      = match turn.answer network ctx spec with
        | .error error => (.error error, turn.final network ctx spec)
        | .ok raw =>
          let absorbed := turn.absorb network ctx spec raw
          match left, turn.redirect network spec raw with
          | left + 1, some (.ok target) =>
            exec (followChain network ctx spec left
              (nextHop network.urls raw.status target absorbed.chain)) absorbed.engine
          | _ + 1, some (.error error) => (.error error, absorbed.engine)
          | _, _ => (.ok (raw, (readHeaders raw).1, absorbed.chain), absorbed.engine) := by
  -- With no redirect left the hop is the whole round.
  cases left with
  | zero =>
    rw [followChain, sendHop_exec]
    cases turn.answer network ctx spec <;> rfl
  | succ left =>
    rw [followChain, exec_bind, sendHop_exec]
    cases turn.answer network ctx spec with
    | error error => rfl
    | ok raw =>
      dsimp only
      unfold Turn.redirect
      cases (readHeaders raw).1.getFirst "location".toList with
      | none => rfl
      | some location =>
        dsimp only
        -- Only a redirect status with a `Location` goes on, and only when the settings allow it.
        by_cases hfollow : isRedirect raw.status ∧ spec.settings.followRedirects
        · rw [if_pos hfollow, if_pos hfollow]
          have hurl : (turn.absorb network ctx spec raw).chain.url = turn.chain.url := rfl
          rw [hurl]
          cases network.urls.join turn.chain.url location <;> rfl
        · rw [if_neg hfollow, if_neg hfollow]
          rfl

/-- The turns of a chain. -/
def turns (left : Nat) (turn : Turn Url) : List (Turn Url) :=
  orbit (Turn.next network ctx spec) left turn

/-- The last turn of a chain. -/
def lastTurn (left : Nat) (turn : Turn Url) : Turn Url :=
  (turns network ctx spec left turn).getLast (orbit_ne_nil _ _ _)

variable {network ctx spec}

/-- A chain that stops at once. -/
theorem lastTurn_of_stop {left : Nat} {turn : Turn Url}
    (h : turn.next network ctx spec = none) : lastTurn network ctx spec left turn = turn := by
  unfold lastTurn turns
  simp only [orbit_of_none h, List.getLast_singleton]

/-- A chain that goes on ends where its rest ends. -/
theorem lastTurn_of_next {left : Nat} {turn turn' : Turn Url}
    (h : turn.next network ctx spec = some turn') :
    lastTurn network ctx spec (left + 1) turn = lastTurn network ctx spec left turn' := by
  unfold lastTurn turns
  simp only [orbit_succ_some h, List.getLast_cons (orbit_ne_nil _ _ _)]

/-- A turn without an answer is the last one. -/
theorem next_of_error {turn : Turn Url} {error : EngineError}
    (h : turn.answer network ctx spec = .error error) : turn.next network ctx spec = none := by
  unfold Turn.next
  rw [h]

/-- A turn whose answer does not redirect is the last one. -/
theorem next_of_answer {turn : Turn Url} {raw : RawResponse}
    (h : turn.answer network ctx spec = .ok raw) :
    turn.next network ctx spec = match turn.redirect network spec raw with
      | some (.ok target) => some ⟨nextHop network.urls raw.status target
          (turn.absorb network ctx spec raw).chain, (turn.absorb network ctx spec raw).engine⟩
      | _ => none := by
  unfold Turn.next
  rw [h]

/-- A turn that was answered leaves the state in which the answer was recorded. -/
theorem final_of_answer {turn : Turn Url} {raw : RawResponse}
    (h : turn.answer network ctx spec = .ok raw) :
    turn.final network ctx spec = (turn.absorb network ctx spec raw).engine := by
  unfold Turn.final
  rw [h]

variable (network ctx spec)

/-- What the loop leaves and returns when it ends with the turn `last`. -/
def EndsWith (last : Turn Url)
    (outcome : Except EngineError (RawResponse × FieldMap × Chain Url) × EngineState Url) : Prop :=
  outcome.2 = last.final network ctx spec ∧
    ∀ out, outcome.1 = .ok out → ∃ raw, last.answer network ctx spec = .ok raw ∧
      out = (raw, (readHeaders raw).1, (last.absorb network ctx spec raw).chain)

/-- The loop leaves the state that its last turn leaves, and returns what was answered there. -/
theorem followChain_endsWith (left : Nat) (turn : Turn Url) :
    EndsWith network ctx spec (lastTurn network ctx spec left turn)
      (exec (followChain network ctx spec left turn.chain) turn.engine) := by
  -- Induction on the redirects that are left, one turn for each.
  induction left generalizing turn with
  | zero =>
    rw [followChain_round]
    show EndsWith network ctx spec turn _
    cases hanswer : turn.answer network ctx spec with
    | error error => exact ⟨rfl, by simp⟩
    | ok raw =>
      exact ⟨(final_of_answer hanswer).symm, fun out hout =>
        ⟨raw, hanswer, (Except.ok.inj hout).symm⟩⟩
  | succ left ih =>
    rw [followChain_round]
    cases hanswer : turn.answer network ctx spec with
    | error error =>
      rw [lastTurn_of_stop (next_of_error hanswer)]
      exact ⟨rfl, by simp⟩
    | ok raw =>
      have hnext := next_of_answer hanswer
      have hfinal := final_of_answer hanswer
      dsimp only
      -- A response that does not redirect is the last one, and so is one whose target does not
      -- parse.
      cases hredirect : turn.redirect network spec raw with
      | none =>
        rw [hredirect] at hnext
        rw [lastTurn_of_stop hnext]
        exact ⟨hfinal.symm, fun out hout => ⟨raw, hanswer, (Except.ok.inj hout).symm⟩⟩
      | some target =>
        rw [hredirect] at hnext
        cases target with
        | error error =>
          rw [lastTurn_of_stop hnext]
          exact ⟨hfinal.symm, by simp⟩
        | ok target =>
          rw [lastTurn_of_next hnext]
          exact ih _

/-- Whether the client builds a request. -/
def builds (request : WireRequest Url) : Bool := (network.requestError request).isNone

/-- The requests of a chain: one for each turn, without one that the client refuses to build. -/
def chainRequests (left : Nat) (turn : Turn Url) : List (WireRequest Url) :=
  ((turns network ctx spec left turn).map fun t => t.request network ctx spec).filter
    (builds network)

variable {network ctx spec}

/-- A request with an answer is on the wire. -/
theorem answer_eq_ok {turn : Turn Url} {raw : RawResponse} :
    turn.answer network ctx spec = .ok raw ↔
      builds network (turn.request network ctx spec) = true ∧
        network.respond (turn.sent network ctx spec).wire = .ok raw := by
  unfold Turn.answer builds
  cases network.requestError (turn.request network ctx spec) with
  | some message => simp
  | none =>
    cases network.respond (turn.sent network ctx spec).wire with
    | error error => simp [Except.mapError]
    | ok answered => simp [Except.mapError]

/-- A turn without an answer leaves the sessions. -/
theorem final_sessions_of_error {turn : Turn Url} {error : EngineError}
    (h : turn.answer network ctx spec = .error error) :
    (turn.final network ctx spec).sessions = turn.engine.sessions := by
  unfold Turn.final
  rw [h]
  cases network.requestError (turn.request network ctx spec) <;> rfl

/-- Everything that a step of the loop means. -/
structure Redirects (network : Network Url) (ctx : RunContext) (spec : RequestSpec)
    (turn turn' : Turn Url) (raw : RawResponse) (target : Url) : Prop where
  sent : builds network (turn.request network ctx spec) = true
  answered : turn.answer network ctx spec = .ok raw
  status : isRedirect raw.status = true
  follow : spec.settings.followRedirects = true
  located : ∃ location, (readHeaders raw).1.getFirst "location".toList = some location ∧
    network.urls.join turn.chain.url location = .ok target
  chain : turn'.chain
    = nextHop network.urls raw.status target (turn.absorb network ctx spec raw).chain
  engine : turn'.engine = (turn.absorb network ctx spec raw).engine

/-- A turn is followed by another one when its response redirects. -/
theorem redirects_of_next {turn turn' : Turn Url} (h : turn.next network ctx spec = some turn') :
    ∃ raw target, Redirects network ctx spec turn turn' raw target := by
  -- A turn ends on an error, without a `Location`, and when redirects are not followed.
  cases hanswer : turn.answer network ctx spec with
  | error error =>
    rw [next_of_error hanswer] at h
    exact absurd h (by simp)
  | ok raw =>
    rw [next_of_answer hanswer] at h
    unfold Turn.redirect at h
    cases hlocation : (readHeaders raw).1.getFirst "location".toList with
    | none =>
      rw [hlocation] at h
      exact absurd h (by simp)
    | some location =>
      rw [hlocation] at h
      dsimp only at h
      by_cases hfollow : isRedirect raw.status ∧ spec.settings.followRedirects
      · rw [if_pos hfollow] at h
        cases hjoin : network.urls.join turn.chain.url location with
        | error message => simp [hjoin, Except.mapError] at h
        | ok target =>
          rw [hjoin] at h
          have hturn := (Option.some.inj h).symm
          exact ⟨raw, target, (answer_eq_ok.mp hanswer).1, hanswer, hfollow.1, hfollow.2,
            ⟨location, hlocation, hjoin⟩, by rw [hturn], by rw [hturn]⟩
      · rw [if_neg hfollow] at h
        exact absurd h (by simp)

/-- A step puts the turn's request on the wire. -/
theorem Redirects.wire {turn turn' : Turn Url} {raw : RawResponse} {target : Url}
    (h : Redirects network ctx spec turn turn' raw target) :
    turn'.engine.wire = turn.engine.wire ++ [turn.request network ctx spec] := by
  rw [h.engine]
  rfl

/-- The last turn puts its request on the wire, unless the client refuses to build it. -/
theorem final_wire (turn : Turn Url) :
    (turn.final network ctx spec).wire
      = turn.engine.wire ++ [turn.request network ctx spec].filter (builds network) := by
  unfold Turn.final Turn.answer
  cases hbuild : network.requestError (turn.request network ctx spec) with
  | some message => simp [builds, hbuild, Turn.clocked]
  | none =>
    rw [List.filter_cons_of_pos (by simp [builds, hbuild])]
    cases network.respond (turn.sent network ctx spec).wire <;> rfl

variable (network ctx spec)

/-- What the loop puts on the wire. -/
theorem followChain_wire (left : Nat) (turn : Turn Url) :
    (exec (followChain network ctx spec left turn.chain) turn.engine).2.wire
      = turn.engine.wire ++ chainRequests network ctx spec left turn := by
  rw [(followChain_endsWith network ctx spec left turn).1, final_wire]
  unfold chainRequests
  induction left generalizing turn with
  | zero => rfl
  | succ left ih =>
    cases hnext : turn.next network ctx spec with
    | none =>
      rw [lastTurn_of_stop hnext]
      unfold turns
      rw [orbit_of_none hnext]
      rfl
    | some turn' =>
      rw [lastTurn_of_next hnext, ih turn']
      obtain ⟨raw, target, hredirects⟩ := redirects_of_next hnext
      unfold turns
      rw [hredirects.wire, orbit_succ_some hnext, List.map_cons,
        List.filter_cons_of_pos hredirects.sent, List.append_assoc, List.singleton_append]

variable {network ctx spec}

/-- A chain whose last turn was answered puts the request of every turn on the wire. -/
theorem builds_of_answered {left : Nat} {first : Turn Url} {raw : RawResponse}
    (h : (lastTurn network ctx spec left first).answer network ctx spec = .ok raw) :
    ∀ turn ∈ turns network ctx spec left first,
      builds network (turn.request network ctx spec) = true := by
  intro turn hturn
  rcases step_or_last hturn with hlast | ⟨turn', hnext⟩
  · rw [hlast]
    exact (answer_eq_ok.mp h).1
  · obtain ⟨raw', target, hstep⟩ := redirects_of_next hnext
    exact hstep.sent

end Loop

/-! ### A whole run -/

section Run

variable {platform : Platform} {network : Network Url} {ctx : RunContext} {spec : RequestSpec}

/-- The first turn of a request that is ready. -/
def firstTurn (spec : RequestSpec) (ready : Ready Url) (s : EngineState Url) : Turn Url :=
  ⟨startChain spec ready, s⟩

/-- The turns of a request that is ready. -/
def runTurns (network : Network Url) (ctx : RunContext) (spec : RequestSpec) (ready : Ready Url)
    (s : EngineState Url) : List (Turn Url) :=
  turns network ctx spec spec.settings.maxRedirects (firstTurn spec ready s)

/-- The last turn of a request that is ready. -/
def runLast (network : Network Url) (ctx : RunContext) (spec : RequestSpec) (ready : Ready Url)
    (s : EngineState Url) : Turn Url :=
  lastTurn network ctx spec spec.settings.maxRedirects (firstTurn spec ready s)

variable (network ctx spec) in
/-- The first turn is the first of the turns. -/
theorem runTurns_eq_cons (ready : Ready Url) (s : EngineState Url) :
    ∃ rest, runTurns network ctx spec ready s = firstTurn spec ready s :: rest :=
  orbit_eq_cons _ _ _

variable (network ctx spec) in
/-- The loop of a ready request ends with its last turn. -/
theorem runLoop_endsWith (ready : Ready Url) (s : EngineState Url) :
    EndsWith network ctx spec (runLast network ctx spec ready s)
      (exec (followChain network ctx spec spec.settings.maxRedirects (startChain spec ready)) s) :=
  followChain_endsWith network ctx spec spec.settings.maxRedirects (firstTurn spec ready s)

variable (platform network ctx spec) in
/-- After the loop, only the resolver changes. -/
theorem runReady_state (ready : Ready Url) (s : EngineState Url) :
    ∃ resolver, (exec (runReady platform network ctx spec ready) s).2
      = { (runLast network ctx spec ready s).final network ctx spec with resolver } := by
  have hends := (runLoop_endsWith network ctx spec ready s).1
  unfold runReady
  rw [exec_bind]
  rcases hloop : exec (followChain network ctx spec spec.settings.maxRedirects
    (startChain spec ready)) s with ⟨result, s'⟩
  rw [hloop] at hends
  simp only at hends
  rw [hends]
  cases result with
  | error error => exact ⟨_, rfl⟩
  | ok out =>
    obtain ⟨raw, headers, chain⟩ := out
    dsimp only
    cases raw.body with
    | error described => exact ⟨_, rfl⟩
    | ok body => exact ⟨_, rfl⟩

variable (platform network ctx spec) in
/-- The requests that a ready request puts on the wire. -/
theorem runReady_wire (ready : Ready Url) (s : EngineState Url) :
    (exec (runReady platform network ctx spec ready) s).2.wire = s.wire
      ++ ((runTurns network ctx spec ready s).map fun t => t.request network ctx spec).filter
        (builds network) := by
  obtain ⟨resolver, hstate⟩ := runReady_state platform network ctx spec ready s
  rw [hstate]
  show ((runLast network ctx spec ready s).final network ctx spec).wire = _
  rw [← (runLoop_endsWith network ctx spec ready s).1]
  exact followChain_wire network ctx spec _ (firstTurn spec ready s)

/-- A run that succeeds reports the request as it was before the loop, and the hops of the last
turn; the last turn was answered. -/
theorem runReady_ok {ready : Ready Url} {s s' : EngineState Url} {outcome : RunOutcome}
    (h : exec (runReady platform network ctx spec ready) s = (.ok outcome, s')) :
    ∃ raw, (runLast network ctx spec ready s).answer network ctx spec = .ok raw ∧
      outcome.sent = sentRequest network spec ready.url ready.headerList ready.parts.body ∧
      outcome.redirects = (runLast network ctx spec ready s).chain.hops := by
  unfold runReady at h
  obtain ⟨out, t, hloop, hrest⟩ := exec_bind_eq_ok.mp h
  have hends := (runLoop_endsWith network ctx spec ready s).2 out
  rw [hloop] at hends
  obtain ⟨raw, hanswer, rfl⟩ := hends rfl
  dsimp only at hrest
  cases hbody : raw.body with
  | error described =>
    rw [hbody] at hrest
    exact absurd (congrArg Prod.fst hrest) (by simp)
  | ok body =>
    rw [hbody] at hrest
    -- What is left reads the state and binds the captures.
    have hout := congrArg Prod.fst hrest
    have houtcome := Except.ok.inj hout
    exact ⟨raw, hanswer, by rw [← houtcome], by rw [← houtcome]; rfl⟩

/-- A run starts with the steps that make the request ready. -/
theorem execute_of_ready {ready : Ready Url} {s s' : EngineState Url}
    (h : exec (makeReady platform network ctx spec false) s = (.ok ready, s')) :
    exec (execute platform network ctx spec) s
      = exec (runReady platform network ctx spec ready) s' := exec_bind_ok h

/-- A run whose request does not get ready fails there. -/
theorem execute_of_error {error : EngineError} {s s' : EngineState Url}
    (h : exec (makeReady platform network ctx spec false) s = (.error error, s')) :
    exec (execute platform network ctx spec) s = (.error error, s') := exec_bind_error h

end Run

/-- A request with this authentication. -/
def requestWithAuth (auth : Auth) : RequestSpec :=
  { RequestSpec.new id "GET".toList "https://app.test/".toList with auth := some auth }

/-- An engine whose default session is logged in. -/
def loggedIn : EngineState (Text × Text) :=
  { EngineState.fresh with
    sessions := SessionStore.new.insert 0 "default".toList
      { name := "sid".toList, value := "abc".toList, domain := "app.test".toList,
        path := "/".toList, hostOnly := true, secure := true, httpOnly := true,
        expiresMs := none } }

end Gabriel.Engine
