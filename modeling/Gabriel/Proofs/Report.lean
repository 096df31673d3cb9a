import Gabriel.Proofs.Chain
import Gabriel.Proofs.Preparation

/-!
# `Gabriel.Proofs.Report`: what a run, a dry run and a stream say and send

A run, a dry run and a stream walk through the same steps before the first send. So a first request
on the wire comes from a ready request (`ready_of_sent`), and the other two are run next to it, from
the same state. What differs is the session's cookie: `prepare` reports it, and `execute` sends it
without reporting it, since it copies the headers before the loop adds the cookie.

`executeStream` sends the first request of the chain and stops there. The theorems:

* `prepare_of_ready`: next to a ready request, the dry run succeeds and reports its first turn.
* `prepare_reports_first`: the dry run leaves the sessions alone, and reports what a real run sends
  first.
* `reportsFirst_iff`: a run reports its first request exactly when no cookie of a session goes with
  it.
* `makeReady_stream`: a request that gets ready plainly and as a stream is the same but for one
  header (`SameButAccept`).
* `streamAgrees_iff`: a stream agrees with the plain run exactly when the chain has one exchange and
  records nothing (`SingleExchange`).
-/

set_option autoImplicit false

namespace Gabriel.Engine

open Gabriel.Core Text Fallible Orbit

variable {Url : Type} {platform : Platform} {network : Network Url} {ctx : RunContext}
  {spec : RequestSpec}

/-- What a request on the wire looks like in a report. -/
def reportOf (network : Network Url) (request : WireRequest Url) : SentRequest :=
  { method := request.method, url := network.urls.toText request.url, headers := request.headers,
    body := request.body.bind Utf8.decode? }

/-- Cookies merged with none. -/
theorem mergeCookieHeaders_none (base : Option Text) : mergeCookieHeaders base none = base := by
  cases base <;> rfl

/-- The first hop has the session's cookies only. -/
theorem hopCookieText_new (urls : UrlLib Url) (auth : Option Auth) (sessions : SessionStore)
    (now chainNow : UInt64) (url : Url) :
    hopCookieText urls ctx auth sessions .new now chainNow url
      = sessionCookie urls ctx auth sessions now url := mergeCookieHeaders_none _

/-- The request of the first turn. -/
theorem firstTurn_request (ready : Ready Url) (s : EngineState Url) :
    (firstTurn spec ready s).request network ctx spec
      = { method := spec.method, url := ready.url
          headers := ready.headerList
            ++ ((sessionCookie network.urls ctx spec.auth s.sessions (network.clock s.ticks)
              ready.url).map fun c => ("Cookie".toList, c)).toList
          body := ready.bodyBytes } := by
  rw [← hopCookieText_new network.urls spec.auth s.sessions (network.clock s.ticks)
    (network.clock (s.ticks + 1)) ready.url]
  rfl

/-- The first request that a chain puts on the wire is that of its first turn. -/
theorem firstTurn_of_sent {ready : Ready Url} {s : EngineState Url} {first : WireRequest Url}
    {rest : List (WireRequest Url)}
    (h : ((runTurns network ctx spec ready s).map fun t => t.request network ctx spec).filter
      (builds network) = first :: rest) :
    first = (firstTurn spec ready s).request network ctx spec := by
  obtain ⟨more, hturns⟩ := runTurns_eq_cons network ctx spec ready s
  rw [hturns, List.map_cons] at h
  by_cases hbuild : builds network ((firstTurn spec ready s).request network ctx spec) = true
  · rw [List.filter_cons_of_pos hbuild, List.cons.injEq] at h
    exact h.1.symm
  · -- A request that was not built has no turn after it.
    have hstop : (firstTurn spec ready s).next network ctx spec = none := by
      cases hnext : (firstTurn spec ready s).next network ctx spec with
      | none => rfl
      | some turn =>
        obtain ⟨raw, target, hstep⟩ := redirects_of_next hnext
        exact absurd hstep.sent hbuild
    have hone : runTurns network ctx spec ready s = [firstTurn spec ready s] := orbit_of_none hstop
    rw [hone, List.cons.injEq] at hturns
    rw [← hturns.2, List.map_nil, List.filter_cons_of_neg hbuild] at h
    exact absurd h (by simp)

/-- Without a token to fetch, the first request on the wire is that of a ready request. -/
theorem ready_of_sent (hauth : NoToken spec) {s : EngineState Url} {first : WireRequest Url}
    {rest : List (WireRequest Url)}
    (hsent : (exec (execute platform network ctx spec) s).2.wire = s.wire ++ first :: rest) :
    ∃ ready s₁, exec (makeReady platform network ctx spec false) s = (.ok ready, s₁) ∧
      Offline s s₁ ∧ first = (firstTurn spec ready s₁).request network ctx spec := by
  have hoffline := makeReady_offline platform network ctx hauth false s
  rcases hready : exec (makeReady platform network ctx spec false) s with ⟨_ | ready, s₁⟩
  all_goals
    rw [hready] at hoffline
    have hwire : s₁.wire = s.wire := Offline.wire hoffline
  · rw [execute_of_error hready] at hsent
    simp [hwire] at hsent
  · rw [execute_of_ready hready, runReady_wire, hwire] at hsent
    exact ⟨ready, s₁, rfl, hoffline, firstTurn_of_sent (List.append_cancel_left hsent)⟩

/-! ### The dry run -/

variable (network ctx) in
/-- The cookies of the dry run are those of the session. -/
theorem prepareCookie_exec (url : Url) (auth : Option Auth) (s : EngineState Url) :
    ∃ s', exec (prepareCookie network ctx url auth) s
      = (.ok (sessionCookie network.urls ctx auth s.sessions (network.clock s.ticks) url), s') := by
  unfold prepareCookie sessionCookie
  split <;> exact ⟨_, rfl⟩

/-- Next to a ready request, the dry run succeeds and reports the first turn. -/
theorem prepare_of_ready (hauth : NoToken spec) {s s₁ : EngineState Url} {ready : Ready Url}
    (hready : exec (makeReady platform network ctx spec false) s = (.ok ready, s₁)) :
    ∃ s₂, exec (prepare platform network ctx spec) s = (.ok (reportOf network
      ((firstTurn spec ready s₁).request network ctx spec), false), s₂) := by
  have hoffline := makeReady_offline platform network ctx hauth false s
  rw [hready] at hoffline
  unfold makeReady at hready
  obtain ⟨parts, t, hparts, hready⟩ := exec_bind_eq_ok.mp hready
  rw [applyAuth_of_noToken platform network hauth] at hready
  obtain ⟨⟨url, authHeaders⟩, u, hknown, hready⟩ := exec_bind_eq_ok.mp hready
  obtain ⟨identity, v, hidentity, hready⟩ := exec_bind_eq_ok.mp hready
  obtain ⟨client, w, hclient, hready⟩ := exec_bind_eq_ok.mp hready
  have hu : Offline s u := by
    have hst := prepareParts_keeps platform network ctx spec false s
    have htu := applyKnownAuth_keeps platform network parts.url spec.auth t
    rw [hparts] at hst
    rw [hknown] at htu
    exact offline_trans s t u hst htu
  have hout : ready = { parts, url, authHeaders } := by
    split at hready
    · exact absurd (congrArg Prod.fst hready) (by simp)
    · exact (Except.ok.inj (congrArg Prod.fst hready)).symm
  -- Both read the clock for the session's cookies first, and see the same sessions.
  have hsessions : s₁.sessions = u.sessions := hoffline.sessions.trans hu.sessions.symm
  have hticks : s₁.ticks = u.ticks := hoffline.ticks.trans hu.ticks.symm
  rw [firstTurn_request, hout, hsessions, hticks]
  obtain ⟨s₂, hcookie⟩ := prepareCookie_exec network ctx url spec.auth u
  have hpending : oauthPending spec.auth = false := by
    unfold oauthPending
    split
    · rename_i config hoauth
      exact absurd hoauth (hauth config)
    · rfl
  refine ⟨s₂, ?_⟩
  unfold prepare
  rw [exec_bind_ok hparts, exec_bind_ok hknown]
  show exec (prepareCookie network ctx url spec.auth >>= _) u = _
  rw [exec_bind_ok hcookie]
  dsimp only
  rw [hpending, exec_pure]
  unfold sentRequest reportOf Ready.bodyBytes
  rw [Option.bind_map]
  rfl

/-- The dry run leaves the sessions alone. -/
theorem prepare_sessions (platform : Platform) (network : Network Url) (ctx : RunContext)
    (spec : RequestSpec) (s : EngineState Url) :
    (exec (prepare platform network ctx spec) s).2.sessions = s.sessions := by
  have hcookie : ∀ url, Keeps Before (prepareCookie network ctx url spec.auth) := by
    intro url
    unfold prepareCookie
    split
    · exact fun s => ⟨rfl, List.prefix_refl s.wire⟩
    · exact keeps_pure before_refl _
  have hkeeps : Keeps Before (prepare platform network ctx spec) := by
    unfold prepare
    refine keeps_bind before_trans
      (keeps_before_of_offline (prepareParts_keeps platform network ctx spec false)) ?_
    intro parts
    refine keeps_bind before_trans
      (keeps_before_of_offline (applyKnownAuth_keeps platform network _ _)) ?_
    intro auth
    refine keeps_bind before_trans (hcookie auth.1) ?_
    intro cookie
    exact keeps_pure before_refl _
  exact (hkeeps s).sessions

/-- The dry run leaves the sessions alone, whatever the authentication and however it ends. When
the real run gets as far as sending its first request, the dry run reports that request, which is
the first one on the wire unless the client refuses to build it. -/
theorem prepare_reports_first (platform : Platform) (network : Network Url) (ctx : RunContext)
    (spec : RequestSpec) (s : EngineState Url) :
    (exec (prepare platform network ctx spec) s).2.sessions = s.sessions ∧
    (NoToken spec → ∀ ready s₁,
      exec (makeReady platform network ctx spec false) s = (.ok ready, s₁) →
        (exec (prepare platform network ctx spec) s).1
          = .ok (reportOf network ((firstTurn spec ready s₁).request network ctx spec), false)) ∧
    (NoToken spec → ∀ first rest,
      (exec (execute platform network ctx spec) s).2.wire = s.wire ++ first :: rest →
        (exec (prepare platform network ctx spec) s).1 = .ok (reportOf network first, false)) := by
  refine ⟨prepare_sessions platform network ctx spec s, ?_, ?_⟩
  · intro hauth ready s₁ hready
    obtain ⟨s₂, hprepare⟩ := prepare_of_ready hauth hready
    rw [hprepare]
  · intro hauth first rest hsent
    obtain ⟨ready, s₁, hready, -, hfirst⟩ := ready_of_sent hauth hsent
    obtain ⟨s₂, hprepare⟩ := prepare_of_ready hauth hready
    rw [hprepare, hfirst]

/-- The request that a logged-in session sends. -/
def loggedInRequest : WireRequest (Text × Text) :=
  { method := "GET".toList, url := ("app.test".toList, "/".toList),
    headers := [("Cookie".toList, "sid=abc".toList)], body := none }

/-- The dry run of a request with a session shows the session's cookie. -/
theorem prepare_reports_first_session :
    (exec (prepare emptyPlatform (scriptedNetwork []) defaultContext
      (requestWithAuth (.session none))) loggedIn).1
        = .ok (reportOf (scriptedNetwork []) loggedInRequest, false) := by
  have hauth : NoToken (requestWithAuth (.session none)) := by
    intro config h
    exact absurd (Option.some.inj h) (by simp)
  have hsent : (exec (execute emptyPlatform (scriptedNetwork []) defaultContext
      (requestWithAuth (.session none))) loggedIn).2.wire
        = loggedIn.wire ++ loggedInRequest :: [] := by decide +kernel
  exact (prepare_reports_first _ _ _ _ _).2.2 hauth _ _ hsent

/-! ### The report of a run -/

/-- The outcome of a run reports the first request of its chain. -/
def ReportsFirst (platform : Platform) (network : Network Url) (ctx : RunContext)
    (spec : RequestSpec) (s : EngineState Url) (outcome : RunOutcome) (s' : EngineState Url) :
    Prop :=
  ∀ ready s₁ first rest, exec (makeReady platform network ctx spec false) s = (.ok ready, s₁) →
    s'.wire = s₁.wire ++ first :: rest → outcome.sent = reportOf network first

/-- The request asks for no session, or the session has no cookie for its URL. -/
def NoSessionCookie (platform : Platform) (network : Network Url) (ctx : RunContext)
    (spec : RequestSpec) (s : EngineState Url) : Prop :=
  ∀ ready s₁, exec (makeReady platform network ctx spec false) s = (.ok ready, s₁) →
    sessionCookie network.urls ctx spec.auth s.sessions (network.clock s₁.ticks) ready.url = none

/-- A run that succeeds got ready, and put the request of its first turn on the wire. -/
theorem ready_of_execute {s s' : EngineState Url} {outcome : RunOutcome}
    (hrun : exec (execute platform network ctx spec) s = (.ok outcome, s')) :
    ∃ ready s₁, exec (makeReady platform network ctx spec false) s = (.ok ready, s₁) ∧
      exec (runReady platform network ctx spec ready) s₁ = (.ok outcome, s') ∧
      ∃ rest, s'.wire
        = s₁.wire ++ (firstTurn spec ready s₁).request network ctx spec :: rest := by
  rcases hready : exec (makeReady platform network ctx spec false) s with ⟨_ | ready, s₁⟩
  · rw [execute_of_error hready] at hrun
    exact absurd (congrArg Prod.fst hrun) (by simp)
  · rw [execute_of_ready hready] at hrun
    refine ⟨ready, s₁, rfl, hrun, ?_⟩
    -- The run succeeded, so every request of its turns could be built and went on the wire.
    obtain ⟨raw, hanswer, -⟩ := runReady_ok hrun
    have hall : ((runTurns network ctx spec ready s₁).map fun t =>
        t.request network ctx spec).filter
        (builds network)
          = (runTurns network ctx spec ready s₁).map fun t => t.request network ctx spec := by
      refine List.filter_eq_self.mpr ?_
      intro request hrequest
      obtain ⟨turn, hturn, rfl⟩ := List.mem_map.mp hrequest
      exact builds_of_answered hanswer turn hturn
    have hwire := runReady_wire platform network ctx spec ready s₁
    rw [hrun, hall] at hwire
    -- The first of these turns is the one the request got ready for.
    obtain ⟨more, hturns⟩ := runTurns_eq_cons network ctx spec ready s₁
    rw [hturns, List.map_cons] at hwire
    exact ⟨_, hwire⟩

variable (network ctx spec) in
/-- The report before the loop is that of the first turn, less its cookies. -/
theorem sentRequest_eq_iff (ready : Ready Url) (s : EngineState Url) :
    sentRequest network spec ready.url ready.headerList ready.parts.body
        = reportOf network ((firstTurn spec ready s).request network ctx spec)
      ↔ sessionCookie network.urls ctx spec.auth s.sessions (network.clock s.ticks) ready.url
        = none := by
  rw [firstTurn_request]
  unfold sentRequest reportOf Ready.bodyBytes
  rw [Option.bind_map, SentRequest.mk.injEq]
  constructor
  · rintro ⟨-, -, hheaders, -⟩
    rw [List.self_eq_append_right, Option.toList_eq_nil_iff, Option.map_eq_none_iff] at hheaders
    exact hheaders
  · intro hnone
    rw [hnone]
    exact ⟨rfl, rfl, (List.append_nil _).symm, rfl⟩

/-- A run that succeeds reports the request it sent first exactly when no cookie of a session
goes with it. -/
theorem reportsFirst_iff (platform : Platform) (network : Network Url) (ctx : RunContext)
    (spec : RequestSpec) (s s' : EngineState Url) (outcome : RunOutcome)
    (hrun : exec (execute platform network ctx spec) s = (.ok outcome, s')) :
    ReportsFirst platform network ctx spec s outcome s'
      ↔ NoSessionCookie platform network ctx spec s := by
  -- The prepared request is on the wire, and the report has it without the cookie.
  obtain ⟨ready, s₁, hready, hloop, rest, hwire⟩ := ready_of_execute hrun
  obtain ⟨raw, -, hsent, -⟩ := runReady_ok hloop
  have hiff := sentRequest_eq_iff network ctx spec ready s₁
  -- Getting ready records no cookies, so both sides speak of the same sessions.
  have hsessions : s₁.sessions = s.sessions := by
    have hbefore := makeReady_before platform network ctx spec false s
    rw [hready] at hbefore
    exact hbefore.sessions
  rw [hsessions] at hiff
  constructor
  -- The report is compared with the first request that the wire gained.
  · intro hreports ready' s₁' hready'
    rw [hready] at hready'
    obtain ⟨hr, rfl⟩ := Prod.mk.inj hready'
    rw [← Except.ok.inj hr]
    have hfirst := hreports ready s₁ _ rest hready hwire
    rw [hsent] at hfirst
    exact hiff.mp hfirst
  · intro hnone ready' s₁' first rest' hready' hwire'
    rw [hready] at hready'
    obtain ⟨hr, rfl⟩ := Prod.mk.inj hready'
    rw [hwire] at hwire'
    have hfirst := (List.cons.inj (List.append_cancel_left hwire')).1
    rw [← hfirst, hsent]
    exact hiff.mpr (hnone ready s₁ hready)

/-- A run with a bearer token is reported as it was sent. -/
theorem reportsFirst_iff_bearer : ∃ outcome s',
    exec (execute emptyPlatform (scriptedNetwork []) defaultContext
      (requestWithAuth (.bearer "t-1".toList))) loggedIn = (.ok outcome, s') ∧
    (ReportsFirst emptyPlatform (scriptedNetwork []) defaultContext
        (requestWithAuth (.bearer "t-1".toList)) loggedIn outcome s'
      ↔ NoSessionCookie emptyPlatform (scriptedNetwork []) defaultContext
        (requestWithAuth (.bearer "t-1".toList)) loggedIn) := by
  have hok : okWith (fun _ _ => true) (exec (execute emptyPlatform (scriptedNetwork [])
      defaultContext (requestWithAuth (.bearer "t-1".toList))) loggedIn) = true := by
    decide +kernel
  obtain ⟨outcome, s', hrun, -⟩ := exists_of_okWith hok
  exact ⟨outcome, s', hrun, reportsFirst_iff _ _ _ _ _ _ _ hrun⟩

/-- The report of a run with a session leaves out the cookie that was sent. -/
theorem not_reportsFirst_session : ¬ ∀ outcome s',
    exec (execute emptyPlatform (scriptedNetwork []) defaultContext
      (requestWithAuth (.session none))) loggedIn = (.ok outcome, s') →
    ReportsFirst emptyPlatform (scriptedNetwork []) defaultContext
      (requestWithAuth (.session none)) loggedIn outcome s' := by
  intro hreports
  have hreport : okWith
      (fun outcome s' => outcome.sent.headers == [] && s'.wire == [loggedInRequest])
      (exec (execute emptyPlatform (scriptedNetwork []) defaultContext
        (requestWithAuth (.session none))) loggedIn) = true := by decide +kernel
  have hmade : okWith (fun _ s₁ => s₁.wire == [])
      (exec (makeReady emptyPlatform (scriptedNetwork []) defaultContext
        (requestWithAuth (.session none)) false) loggedIn) = true := by decide +kernel
  obtain ⟨outcome, s', hrun, hboth⟩ := exists_of_okWith hreport
  obtain ⟨ready, s₁, hmake, hready⟩ := exists_of_okWith hmade
  obtain ⟨hheaders, hwire⟩ := Bool.and_eq_true_iff.mp hboth
  have hsplit : s'.wire = s₁.wire ++ loggedInRequest :: [] := by
    rw [eq_of_beq hwire, eq_of_beq hready]
    rfl
  have hsent := hreports outcome s' hrun ready s₁ loggedInRequest [] hmake hsplit
  have hsame := congrArg SentRequest.headers hsent
  rw [eq_of_beq hheaders] at hsame
  exact absurd hsame (by decide)

/-! ### The stream -/

/-- The header that a stream adds. -/
def acceptHeader : Text × Text := ("Accept".toList, "text/event-stream".toList)

/-- The second request is the first one, or that with the header of a stream put in. -/
def SameButAccept (a b : WireRequest Url) : Prop :=
  b.method = a.method ∧ b.url = a.url ∧ b.body = a.body ∧
    ∃ pre post accept, (accept = [] ∨ accept = [acceptHeader]) ∧
      a.headers = pre ++ post ∧ b.headers = pre ++ accept ++ post

/-- A request is itself up to `Accept`. -/
theorem sameButAccept_refl (a : WireRequest Url) : SameButAccept a a :=
  ⟨rfl, rfl, rfl, a.headers, [], [], Or.inl rfl, by simp, by simp⟩

/-- The parts of a stream's request: the plain ones, with one header more at most. -/
def StreamParts (plain stream : Parts Url) : Prop :=
  ∃ accept, (accept = [] ∨ accept = [acceptHeader]) ∧
    stream = { plain with headers := plain.headers ++ accept }

variable (platform network ctx spec) in
/-- The steps from the URL template to the body, for a plain request and for a stream. -/
theorem prepareParts_stream :
    Lockstep Eq StreamParts (prepareParts platform network ctx spec false)
      (prepareParts platform network ctx spec true) := by
  unfold prepareParts
  refine lockstep_bind (lockstep_self _) ?_
  rintro resolved _ rfl
  cases network.urls.parse resolved with
  | error message => exact lockstep_throw _ _
  | ok url =>
    refine lockstep_bind (lockstep_self _) ?_
    rintro query _ rfl
    refine lockstep_bind (lockstep_self _) ?_
    rintro headers _ rfl
    refine lockstep_bind (lockstep_self _) ?_
    rintro body _ rfl
    refine lockstep_pure ?_
    by_cases haccept : headers.containsKey "accept".toList = true
    · refine ⟨[], Or.inl rfl, ?_⟩
      simp only [haccept, Bool.false_eq_true, not_true_eq_false, and_false, if_false,
        List.append_nil]
    · refine ⟨[acceptHeader], Or.inr rfl, ?_⟩
      simp only [haccept, Bool.false_eq_true, not_false_eq_true, and_true, if_true, if_false,
        List.append_nil]
      rfl

/-- A request that gets ready plainly and as a stream is the same but for one header. -/
theorem makeReady_stream {s s₁ t₁ : EngineState Url} {ready readyStream : Ready Url}
    (hplain : exec (makeReady platform network ctx spec false) s = (.ok ready, s₁))
    (hstream : exec (makeReady platform network ctx spec true) s = (.ok readyStream, t₁)) :
    StreamParts ready.parts readyStream.parts ∧ readyStream.url = ready.url ∧
      readyStream.authHeaders = ready.authHeaders ∧
        ∃ clients, t₁ = { s₁ with clients := clients } := by
  unfold makeReady at hplain hstream
  -- Both are taken apart bind by bind; only the headers of the parts differ.
  obtain ⟨parts, t, hparts, hplain⟩ := exec_bind_eq_ok.mp hplain
  obtain ⟨partsS, tS, hpartsS, hstream⟩ := exec_bind_eq_ok.mp hstream
  have hagree := prepareParts_stream platform network ctx spec s s rfl
  rw [hparts, hpartsS] at hagree
  obtain ⟨hsame, rfl⟩ := hagree
  have hurl : partsS.url = parts.url := by
    obtain ⟨accept, -, rfl⟩ := hsame
    rfl
  -- The URL decides about the authentication and the identity, so both get the same.
  rw [hurl] at hstream
  obtain ⟨auth, u, hauth, hplain⟩ := exec_bind_eq_ok.mp hplain
  rw [exec_bind_ok hauth] at hstream
  obtain ⟨identity, v, hidentity, hplain⟩ := exec_bind_eq_ok.mp hplain
  rw [exec_bind_ok hidentity] at hstream
  obtain ⟨client, w, hclient, hplain⟩ := exec_bind_eq_ok.mp hplain
  obtain ⟨clientS, wS, hclientS, hstream⟩ := exec_bind_eq_ok.mp hstream
  -- The two clients have different keys, and the rest of the state is the same.
  have hw : OnlyClients v w := by
    have hkeeps := clientForMode_keeps network spec identity false v
    rwa [hclient] at hkeeps
  have hwS : OnlyClients v wS := by
    have hkeeps := clientForMode_keeps network spec identity true v
    rwa [hclientS] at hkeeps
  cases hmethod : network.methodError spec.method with
  | some message =>
    rw [hmethod] at hplain
    exact absurd (congrArg Prod.fst hplain) (by simp)
  | none =>
    rw [hmethod] at hplain hstream
    obtain ⟨hready, rfl⟩ := Prod.mk.inj hplain
    obtain ⟨hreadyS, rfl⟩ := Prod.mk.inj hstream
    rw [← Except.ok.inj hready, ← Except.ok.inj hreadyS]
    refine ⟨hsame, rfl, rfl, wS.clients, ?_⟩
    exact hwS.trans (by rw [hw])

/-- The first turns of the two are the same but for one header. -/
theorem firstTurn_stream {s₁ t₁ : EngineState Url} {ready readyStream : Ready Url}
    (hparts : StreamParts ready.parts readyStream.parts) (hurl : readyStream.url = ready.url)
    (hauth : readyStream.authHeaders = ready.authHeaders)
    (hclients : ∃ clients, t₁ = { s₁ with clients := clients }) :
    SameButAccept ((firstTurn spec ready s₁).request network ctx spec)
      ((firstTurn spec readyStream t₁).request network ctx spec) := by
  obtain ⟨clients, rfl⟩ := hclients
  obtain ⟨accept, haccept, hparts⟩ := hparts
  rw [firstTurn_request, firstTurn_request]
  unfold Ready.headerList Ready.bodyBytes
  rw [hparts, hurl, hauth]
  refine ⟨rfl, rfl, rfl, ready.parts.headers, ready.parts.contentType ++ ready.authHeaders
    ++ ((sessionCookie network.urls ctx spec.auth s₁.sessions (network.clock s₁.ticks)
      ready.url).map fun c => ("Cookie".toList, c)).toList, accept, haccept, ?_, ?_⟩
  · simp only [List.append_assoc]
  · simp only [List.append_assoc]

/-- A stream puts one request on the wire, unless the client refuses to build it, and records
nothing. -/
theorem executeStream_state {s t₁ : EngineState Url} {readyStream : Ready Url}
    (hstream : exec (makeReady platform network ctx spec true) s = (.ok readyStream, t₁)) :
    (exec (executeStream platform network ctx spec) s).2.wire = t₁.wire
        ++ [(firstTurn spec readyStream t₁).request network ctx spec].filter (builds network) ∧
      (exec (executeStream platform network ctx spec) s).2.sessions = t₁.sessions := by
  have hcookie : exec (hopCookie network ctx spec .new readyStream.url) t₁
      = (.ok ((firstTurn spec readyStream t₁).cookie network ctx spec),
        (firstTurn spec readyStream t₁).clocked) := rfl
  -- The last state is that of the request, or of the clock alone when it is not built.
  have hstate : (exec (executeStream platform network ctx spec) s).2
      = (network.requestError ((firstTurn spec readyStream t₁).request network ctx spec)).elim
        ((firstTurn spec readyStream t₁).sent network ctx spec)
        (fun _ => (firstTurn spec readyStream t₁).clocked) := by
    unfold executeStream
    rw [exec_bind_ok hstream, exec_bind_ok hcookie, exec_bind, send_exec]
    have hrequest : hopRequest (startChain spec readyStream)
        ((firstTurn spec readyStream t₁).cookie network ctx spec)
          = (firstTurn spec readyStream t₁).request network ctx spec := rfl
    rw [hrequest]
    cases network.requestError ((firstTurn spec readyStream t₁).request network ctx spec) with
    | some message => rfl
    | none =>
      dsimp only
      cases network.respond ((firstTurn spec readyStream t₁).clocked.wire
        ++ [(firstTurn spec readyStream t₁).request network ctx spec]) <;> rfl
  -- The filter keeps the request exactly when it can be built.
  rw [hstate]
  unfold builds
  cases hbuild : network.requestError
      ((firstTurn spec readyStream t₁).request network ctx spec) with
  | some message =>
    rw [List.filter_cons_of_neg (by simp [hbuild])]
    exact ⟨(List.append_nil _).symm, rfl⟩
  | none =>
    rw [List.filter_cons_of_pos (by simp [hbuild])]
    exact ⟨rfl, rfl⟩

/-- The stream and the plain run agree: they send the same requests, but for the header of the
stream, and leave the same sessions. -/
def StreamAgrees (platform : Platform) (network : Network Url) (ctx : RunContext)
    (spec : RequestSpec) (s : EngineState Url) : Prop :=
  ∃ plain stream,
    (exec (execute platform network ctx spec) s).2.wire = s.wire ++ plain ∧
    (exec (executeStream platform network ctx spec) s).2.wire = s.wire ++ stream ∧
    List.Forall₂ SameButAccept plain stream ∧
    (exec (executeStream platform network ctx spec) s).2.sessions
      = (exec (execute platform network ctx spec) s).2.sessions

/-- The chain of a ready request has one exchange and records nothing: the answer to its first
request, if there is one, leads to no second request on the wire and leaves the sessions as they
are. -/
def SingleExchange (network : Network Url) (ctx : RunContext) (spec : RequestSpec)
    (ready : Ready Url) (s : EngineState Url) : Prop :=
  ∀ raw, (firstTurn spec ready s).answer network ctx spec = .ok raw →
    (∀ turn, (firstTurn spec ready s).next network ctx spec = some turn →
      spec.settings.maxRedirects ≠ 0 → builds network (turn.request network ctx spec) = false) ∧
    (firstTurn spec ready s).sessionsAfter network ctx raw = s.sessions

/-- The requests of a run that is ready. -/
def runRequests (network : Network Url) (ctx : RunContext) (spec : RequestSpec)
    (ready : Ready Url) (s : EngineState Url) : List (WireRequest Url) :=
  ((runTurns network ctx spec ready s).map fun t => t.request network ctx spec).filter
    (builds network)

/-- A chain that reaches no second request sends the first one, and ends as its first turn
does. -/
theorem chain_of_single {ready : Ready Url} {s : EngineState Url}
    (hstop : ∀ turn, (firstTurn spec ready s).next network ctx spec = some turn →
      spec.settings.maxRedirects ≠ 0 → builds network (turn.request network ctx spec) = false) :
    runRequests network ctx spec ready s
        = [(firstTurn spec ready s).request network ctx spec].filter (builds network) ∧
      ((runLast network ctx spec ready s).final network ctx spec).sessions
        = ((firstTurn spec ready s).final network ctx spec).sessions := by
  unfold runRequests runTurns runLast
  cases hnext : (firstTurn spec ready s).next network ctx spec with
  | none =>
    rw [lastTurn_of_stop hnext]
    unfold turns
    rw [orbit_of_none hnext]
    exact ⟨rfl, rfl⟩
  | some turn =>
    cases hmax : spec.settings.maxRedirects with
    | zero => exact ⟨rfl, rfl⟩
    | succ left =>
      have hrefused : builds network (turn.request network ctx spec) = false :=
        hstop turn hnext (by rw [hmax]; exact Nat.succ_ne_zero left)
      obtain ⟨raw, target, hstep⟩ := redirects_of_next hnext
      -- The second turn is refused, so it is the last one and changes nothing.
      have herror : ∃ error, turn.answer network ctx spec = .error error ∧
          turn.final network ctx spec = turn.clocked := by
        unfold builds at hrefused
        unfold Turn.final Turn.answer
        cases hbuild : network.requestError (turn.request network ctx spec) with
        | none => simp [hbuild] at hrefused
        | some message => exact ⟨_, rfl, rfl⟩
      obtain ⟨error, hanswer, hfinal⟩ := herror
      have hend := next_of_error hanswer
      rw [lastTurn_of_next hnext, lastTurn_of_stop hend, hfinal, final_of_answer hstep.answered]
      unfold turns
      rw [orbit_succ_some hnext, orbit_of_none hend]
      refine ⟨?_, ?_⟩
      · rw [List.map_cons, List.map_singleton, List.filter_cons_of_pos hstep.sent,
          List.filter_cons_of_neg (by simp [hrefused]), List.filter_cons_of_pos hstep.sent]
      · show turn.engine.sessions = _
        rw [hstep.engine]

/-- A chain that reaches a second request sends two at least. -/
theorem two_le_runRequests {ready : Ready Url} {s : EngineState Url} {turn : Turn Url}
    (hnext : (firstTurn spec ready s).next network ctx spec = some turn)
    (hmax : spec.settings.maxRedirects ≠ 0)
    (hbuild : builds network (turn.request network ctx spec) = true) :
    2 ≤ (runRequests network ctx spec ready s).length := by
  obtain ⟨raw, target, hstep⟩ := redirects_of_next hnext
  obtain ⟨left, hleft⟩ := Nat.exists_eq_succ_of_ne_zero hmax
  obtain ⟨rest, hrest⟩ := orbit_eq_cons (Turn.next network ctx spec) left turn
  unfold runRequests runTurns turns
  rw [hleft, Nat.succ_eq_add_one, orbit_succ_some hnext, hrest, List.map_cons, List.map_cons,
    List.filter_cons_of_pos hstep.sent, List.filter_cons_of_pos hbuild, List.length_cons,
    List.length_cons]
  exact Nat.le_add_left 2 _

/-- Lists of requests that are the same but for one header. -/
theorem forall₂_sameButAccept_refl (requests : List (WireRequest Url)) :
    List.Forall₂ SameButAccept requests requests := by
  induction requests with
  | nil => exact List.Forall₂.nil
  | cons request requests ih => exact List.Forall₂.cons (sameButAccept_refl request) ih

/-- A stream agrees with the plain run exactly when the plain run has one exchange and records
nothing. -/
theorem streamAgrees_iff (platform : Platform) (network : Network Url) (ctx : RunContext)
    (spec : RequestSpec) (s s₁ t₁ : EngineState Url) (ready readyStream : Ready Url)
    (hbuilds : ∀ a b, SameButAccept a b → builds network a = builds network b)
    (hplain : exec (makeReady platform network ctx spec false) s = (.ok ready, s₁))
    (hstream : exec (makeReady platform network ctx spec true) s = (.ok readyStream, t₁)) :
    StreamAgrees platform network ctx spec s ↔ SingleExchange network ctx spec ready s₁ := by
  obtain ⟨hparts, hurl, hauth, clients, hclients⟩ := makeReady_stream hplain hstream
  have hfirst : SameButAccept ((firstTurn spec ready s₁).request network ctx spec)
      ((firstTurn spec readyStream t₁).request network ctx spec) :=
    firstTurn_stream hparts hurl hauth ⟨clients, hclients⟩
  have hbefore : Before s s₁ := by
    have hkeeps := makeReady_before platform network ctx spec false s
    rwa [hplain] at hkeeps
  obtain ⟨tokens, htokens⟩ := hbefore.wire
  -- Both wires start with the token requests.
  have hplainWire : (exec (execute platform network ctx spec) s).2.wire
      = s.wire ++ (tokens ++ runRequests network ctx spec ready s₁) := by
    rw [execute_of_ready hplain, runReady_wire, ← htokens, List.append_assoc]
    rfl
  have hplainSessions : (exec (execute platform network ctx spec) s).2.sessions
      = ((runLast network ctx spec ready s₁).final network ctx spec).sessions := by
    obtain ⟨resolver, hstate⟩ := runReady_state platform network ctx spec ready s₁
    rw [execute_of_ready hplain, hstate]
  obtain ⟨hstreamWire, hstreamSessions⟩ := executeStream_state hstream
  have hsame : t₁.wire = s₁.wire ∧ t₁.sessions = s₁.sessions := by
    rw [hclients]
    exact ⟨rfl, rfl⟩
  rw [hsame.1, ← htokens, List.append_assoc] at hstreamWire
  rw [hsame.2] at hstreamSessions
  constructor
  · rintro ⟨plain, stream, hp, hs, hforall, hsessions⟩ raw hanswer
    rw [hplainWire] at hp
    rw [hstreamWire] at hs
    rw [← List.append_cancel_left hp, ← List.append_cancel_left hs] at hforall
    have hsent := (answer_eq_ok.mp hanswer).1
    have hone : (runRequests network ctx spec ready s₁).length = 1 := by
      have hlength := hforall.length_eq
      rw [List.filter_cons_of_pos (by rw [← hbuilds _ _ hfirst]; exact hsent)] at hlength
      simpa using hlength
    have hstop : ∀ turn, (firstTurn spec ready s₁).next network ctx spec = some turn →
        spec.settings.maxRedirects ≠ 0 →
        builds network (turn.request network ctx spec) = false := by
      intro turn hnext hmax
      rw [← Bool.not_eq_true]
      intro hbuild
      have htwo := two_le_runRequests hnext hmax hbuild
      omega
    refine ⟨hstop, ?_⟩
    rw [hstreamSessions, hplainSessions, (chain_of_single hstop).2, final_of_answer hanswer]
      at hsessions
    exact hsessions.symm
  · intro hsingle
    have hstop : ∀ turn, (firstTurn spec ready s₁).next network ctx spec = some turn →
        spec.settings.maxRedirects ≠ 0 →
        builds network (turn.request network ctx spec) = false := by
      intro turn hnext
      obtain ⟨raw, target, hstep⟩ := redirects_of_next hnext
      exact (hsingle raw hstep.answered).1 turn hnext
    obtain ⟨hrequests, hfinal⟩ := chain_of_single hstop
    refine ⟨_, _, hplainWire, hstreamWire, ?_, ?_⟩
    · refine List.rel_append (forall₂_sameButAccept_refl tokens) ?_
      rw [hrequests]
      by_cases hsent : builds network ((firstTurn spec ready s₁).request network ctx spec) = true
      · rw [List.filter_cons_of_pos hsent,
          List.filter_cons_of_pos (by rw [← hbuilds _ _ hfirst]; exact hsent)]
        exact List.Forall₂.cons hfirst List.Forall₂.nil
      · rw [List.filter_cons_of_neg hsent,
          List.filter_cons_of_neg (by rw [← hbuilds _ _ hfirst]; exact hsent)]
        exact List.Forall₂.nil
    · rw [hstreamSessions, hplainSessions, hfinal]
      cases hanswer : (firstTurn spec ready s₁).answer network ctx spec with
      | error error => exact (final_sessions_of_error hanswer).symm
      | ok raw =>
        rw [final_of_answer hanswer]
        exact ((hsingle raw hanswer).2).symm

/-- A request for events. -/
def eventsRequest : RequestSpec :=
  RequestSpec.new id "GET".toList "https://app.test/events".toList

/-- A stream from a server that answers at once. -/
theorem streamAgrees_iff_events : ∃ ready s₁,
    exec (makeReady emptyPlatform (scriptedNetwork []) defaultContext eventsRequest false)
      EngineState.fresh = (.ok ready, s₁) ∧
    (StreamAgrees emptyPlatform (scriptedNetwork []) defaultContext eventsRequest .fresh
      ↔ SingleExchange (scriptedNetwork []) defaultContext eventsRequest ready s₁) := by
  have hok : ∀ streaming, okWith (fun _ _ => true) (exec (makeReady emptyPlatform
      (scriptedNetwork []) defaultContext eventsRequest streaming) EngineState.fresh) = true := by
    decide +kernel
  obtain ⟨ready, s₁, hready, -⟩ := exists_of_okWith (hok false)
  obtain ⟨readyStream, t₁, hreadyStream, -⟩ := exists_of_okWith (hok true)
  exact ⟨ready, s₁, hready, streamAgrees_iff _ _ _ _ _ _ _ _ _ (fun _ _ _ => rfl)
      hready hreadyStream⟩

/-- A stream does not follow the redirect that the plain run follows. -/
theorem not_streamAgrees_moved :
    ¬ StreamAgrees emptyPlatform
      (scriptedNetwork [plainResponse 302 [("location".toList, "/v2/events".toList)]])
      defaultContext eventsRequest .fresh := by
  rintro ⟨plain, stream, hplain, hstream, hforall, -⟩
  have htwo : (exec (execute emptyPlatform
      (scriptedNetwork [plainResponse 302 [("location".toList, "/v2/events".toList)]])
      defaultContext eventsRequest) EngineState.fresh).2.wire.length = 2 := by decide +kernel
  have hone : (exec (executeStream emptyPlatform
      (scriptedNetwork [plainResponse 302 [("location".toList, "/v2/events".toList)]])
      defaultContext eventsRequest) EngineState.fresh).2.wire.length = 1 := by decide +kernel
  rw [hplain, List.length_append] at htwo
  rw [hstream, List.length_append] at hone
  have hlength := hforall.length_eq
  omega

end Gabriel.Engine
