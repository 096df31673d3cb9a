import Gabriel.Proofs.Chain
import Gabriel.Proofs.Jar
import Gabriel.Proofs.Preparation

/-!
# `Gabriel.Proofs.SessionCookies`: where a run puts the cookies it receives

`recordedAs` is the store that a list of turns makes of a store when the `Set-Cookie` headers of
their answers are recorded under one session. The engine does this with the session of the context,
and reads the cookies of a request from the session that the request names. The theorems:

* `lastTurn_sessions`: the sessions at the end of a chain are the answers of its turns, recorded
  under the session of the context; by induction along the chain.
* `execute_sessions_of_ready`, `execute_sessions_of_error`: the sessions after a run.
* `get?_recordedAs_of_ne`: recorded answers leave every other session.
* `cookiesComeBack_of_recordsNamed`: the cookies come back to the session that the request names
  when the run records into it, or has nothing to record (`RecordsNamed`).
-/

set_option autoImplicit false

namespace Gabriel.Engine

open Gabriel.Core Text Fallible Orbit

variable {Url : Type} {platform : Platform} {network : Network Url} {ctx : RunContext}
  {spec : RequestSpec}

/-! ### Recording -/

/-- The store after the answer to a turn is recorded under a session, at the readings of the
clock that the engine takes for it. -/
def Turn.recordAs (network : Network Url) (ctx : RunContext) (spec : RequestSpec) (session : Text)
    (store : SessionStore) (turn : Turn Url) : SessionStore :=
  match turn.answer network ctx spec with
  | .ok raw => (store.recordSetCookies session (turn.host network) (turn.path network)
      (fun n => network.clock (turn.engine.ticks + 2 + 2 * (readHeaders raw).2.length + n))
      (readHeaders raw).2).1
  | .error _ => store

/-- The store after the answers to some turns are recorded under a session. -/
def recordedAs (network : Network Url) (ctx : RunContext) (spec : RequestSpec) (session : Text)
    (ts : List (Turn Url)) (store : SessionStore) : SessionStore :=
  ts.foldl (Turn.recordAs network ctx spec session) store

/-- The sessions after a turn was answered. -/
theorem sessionsAfter_eq {turn : Turn Url} {raw : RawResponse}
    (h : turn.answer network ctx spec = .ok raw) :
    turn.sessionsAfter network ctx raw
      = if ctx.recordCookies then turn.recordAs network ctx spec ctx.session turn.engine.sessions
        else turn.engine.sessions := by
  unfold Turn.sessionsAfter Turn.recordAs
  rw [h]

/-- The sessions at the end of a turn. -/
theorem final_sessions (turn : Turn Url) :
    (turn.final network ctx spec).sessions
      = if ctx.recordCookies then turn.recordAs network ctx spec ctx.session turn.engine.sessions
        else turn.engine.sessions := by
  cases hanswer : turn.answer network ctx spec with
  | ok raw =>
    rw [final_of_answer hanswer]
    exact sessionsAfter_eq hanswer
  | error error =>
    unfold Turn.recordAs
    rw [final_sessions_of_error hanswer, hanswer]
    exact (ite_self _).symm

/-- The sessions at the end of a chain: the answers of its turns, recorded under the session of
the context. -/
theorem lastTurn_sessions (left : Nat) (turn : Turn Url) :
    ((lastTurn network ctx spec left turn).final network ctx spec).sessions
      = if ctx.recordCookies then
          recordedAs network ctx spec ctx.session (turns network ctx spec left turn)
            turn.engine.sessions
        else turn.engine.sessions := by
  induction left generalizing turn with
  | zero => exact final_sessions turn
  | succ left ih =>
    cases hnext : turn.next network ctx spec with
    | none =>
      rw [lastTurn_of_stop hnext, final_sessions]
      unfold turns
      rw [orbit_of_none hnext]
      rfl
    | some turn' =>
      obtain ⟨raw, target, hstep⟩ := redirects_of_next hnext
      have hengine : turn'.engine.sessions = turn.sessionsAfter network ctx raw := by
        rw [hstep.engine]
        rfl
      rw [lastTurn_of_next hnext, ih turn', hengine, sessionsAfter_eq hstep.answered]
      unfold turns
      rw [orbit_succ_some hnext]
      cases ctx.recordCookies <;> rfl

/-- The sessions after a run whose request gets ready. -/
theorem execute_sessions_of_ready {s s₁ : EngineState Url} {ready : Ready Url}
    (hrecord : ctx.recordCookies = true)
    (hready : exec (makeReady platform network ctx spec false) s = (.ok ready, s₁)) :
    (exec (execute platform network ctx spec) s).2.sessions
      = recordedAs network ctx spec ctx.session (runTurns network ctx spec ready s₁)
        s.sessions := by
  have hsessions : s₁.sessions = s.sessions := by
    have hbefore := makeReady_before platform network ctx spec false s
    rw [hready] at hbefore
    exact hbefore.sessions
  obtain ⟨resolver, hstate⟩ := runReady_state platform network ctx spec ready s₁
  rw [execute_of_ready hready, hstate]
  show ((runLast network ctx spec ready s₁).final network ctx spec).sessions = _
  unfold runLast
  rw [lastTurn_sessions, if_pos hrecord, ← hsessions]
  rfl

/-- A run whose request does not get ready leaves the sessions. -/
theorem execute_sessions_of_error {s s₁ : EngineState Url} {error : EngineError}
    (hready : exec (makeReady platform network ctx spec false) s = (.error error, s₁)) :
    (exec (execute platform network ctx spec) s).2.sessions = s.sessions := by
  have hbefore := makeReady_before platform network ctx spec false s
  rw [hready] at hbefore
  rw [execute_of_error hready]
  exact hbefore.sessions

/-- A call of `recordSetCookies` leaves every other session. -/
theorem get?_recordSetCookies_of_ne {session other : Text} (h : other ≠ session)
    (store : SessionStore) (host path : Text) (clock : Nat → UInt64) (headers : List Text) :
    (store.recordSetCookies session host path clock headers).1.sessions.get? other
      = store.sessions.get? other := by
  induction headers generalizing store clock with
  | nil => rfl
  | cons header headers ih =>
    rw [SessionStore.recordSetCookies]
    cases Cookie.parse (clock 0) header host path with
    | none => exact ih store _
    | some cookie =>
      show ((store.insert (clock 1) session cookie).recordSetCookies session host path _
        headers).1.sessions.get? other = _
      rw [ih, SessionStore.insert, SortedMap.get?_insert, if_neg h]

/-- Recorded answers leave every other session. -/
theorem get?_recordedAs_of_ne {session other : Text} (h : other ≠ session) (ts : List (Turn Url))
    (store : SessionStore) :
    (recordedAs network ctx spec session ts store).sessions.get? other
      = store.sessions.get? other := by
  induction ts generalizing store with
  | nil => rfl
  | cons turn ts ih =>
    show (recordedAs network ctx spec session ts
      (turn.recordAs network ctx spec session store)).sessions.get? other = _
    rw [ih]
    unfold Turn.recordAs
    cases turn.answer network ctx spec with
    | error error => rfl
    | ok raw => exact get?_recordSetCookies_of_ne h store _ _ _ _

/-- The parser refuses every cookie that the answer to a turn sets. -/
def AcceptsNone (network : Network Url) (ctx : RunContext) (spec : RequestSpec)
    (turn : Turn Url) : Prop :=
  ∀ raw, turn.answer network ctx spec = .ok raw → ∀ header ∈ (readHeaders raw).2, ∀ nowMs,
    Cookie.parse nowMs header (turn.host network) (turn.path network) = none

/-- Headers that are refused record nothing. -/
theorem recordSetCookies_of_refused (store : SessionStore) (session host path : Text)
    (clock : Nat → UInt64) {headers : List Text}
    (h : ∀ header ∈ headers, ∀ nowMs, Cookie.parse nowMs header host path = none) :
    (store.recordSetCookies session host path clock headers).1 = store := by
  induction headers generalizing clock with
  | nil => rfl
  | cons header headers ih =>
    rw [SessionStore.recordSetCookies, h header List.mem_cons_self]
    exact ih _ fun later hlater => h later (List.mem_cons_of_mem _ hlater)

/-- Turns whose cookies are refused record nothing. -/
theorem recordedAs_of_acceptsNone (session : Text) {ts : List (Turn Url)}
    (h : ∀ turn ∈ ts, AcceptsNone network ctx spec turn) (store : SessionStore) :
    recordedAs network ctx spec session ts store = store := by
  induction ts generalizing store with
  | nil => rfl
  | cons turn ts ih =>
    have hone : turn.recordAs network ctx spec session store = store := by
      unfold Turn.recordAs
      cases hanswer : turn.answer network ctx spec with
      | error error => rfl
      | ok raw =>
        exact recordSetCookies_of_refused store session _ _ _
          (h turn List.mem_cons_self raw hanswer)
    show recordedAs network ctx spec session ts (turn.recordAs network ctx spec session store) = _
    rw [hone]
    exact ih (fun later hlater => h later (List.mem_cons_of_mem _ hlater)) store

/-! ### The session a request names -/

/-- Cookies come back to the session they were sent from: the session that the request names holds
what the answers of the run set, and every other session is as before. -/
def CookiesComeBack (platform : Platform) (network : Network Url) (ctx : RunContext)
    (spec : RequestSpec) (s : EngineState Url) : Prop :=
  ∀ name ready s₁, spec.auth = some (.session (some name)) →
    exec (makeReady platform network ctx spec false) s = (.ok ready, s₁) →
      (exec (execute platform network ctx spec) s).2.sessions.sessions.get? name
        = (recordedAs network ctx spec name (runTurns network ctx spec ready s₁)
          s.sessions).sessions.get? name ∧
      ∀ other ≠ name, (exec (execute platform network ctx spec) s).2.sessions.sessions.get? other
        = s.sessions.sessions.get? other

/-- The run records into the session that the request names, or has nothing to record. -/
def RecordsNamed (platform : Platform) (network : Network Url) (ctx : RunContext)
    (spec : RequestSpec) (s : EngineState Url) : Prop :=
  spec.auth = some (.session (some ctx.session)) ∨
    ∀ ready s₁, exec (makeReady platform network ctx spec false) s = (.ok ready, s₁) →
      ∀ turn ∈ runTurns network ctx spec ready s₁, AcceptsNone network ctx spec turn

/-- Cookies come back to the session they were sent from in every run that records into it, or
records nothing. -/
theorem cookiesComeBack_of_recordsNamed (platform : Platform) (network : Network Url)
    (ctx : RunContext) (spec : RequestSpec) (s : EngineState Url)
    (hrecord : ctx.recordCookies = true)
    (hnamed : RecordsNamed platform network ctx spec s) :
    CookiesComeBack platform network ctx spec s := by
  intro name ready s₁ hauth hready
  have hend := execute_sessions_of_ready hrecord hready
  rw [hend]
  rcases hnamed with hsame | hnone
  · rw [hauth, Option.some.injEq, Auth.session.injEq, Option.some.injEq] at hsame
    rw [← hsame]
    exact ⟨rfl, fun other hother => get?_recordedAs_of_ne hother _ _⟩
  · have hrefused := hnone ready s₁ hready
    rw [recordedAs_of_acceptsNone _ hrefused, recordedAs_of_acceptsNone _ hrefused]
    exact ⟨rfl, fun _ _ => rfl⟩

/-- A server that sets a cookie. -/
def setsCookie : Network (Text × Text) :=
  scriptedNetwork [plainResponse 200 [("set-cookie".toList, "sid=abc".toList)]]

/-- A run that names the session it records into. -/
theorem cookiesComeBack_of_recordsNamed_default :
    CookiesComeBack emptyPlatform setsCookie defaultContext
      (requestWithAuth (.session (some "default".toList))) .fresh :=
  cookiesComeBack_of_recordsNamed _ _ _ _ _ rfl (Or.inl rfl)

/-- A request with the session `alice`, run from the session `default`, does not get its cookie
back. -/
theorem not_cookiesComeBack_alice :
    ¬ CookiesComeBack emptyPlatform setsCookie defaultContext
      (requestWithAuth (.session (some "alice".toList))) .fresh := by
  intro hback
  have hmake : okWith (fun _ _ => true) (exec (makeReady emptyPlatform setsCookie defaultContext
      (requestWithAuth (.session (some "alice".toList))) false) EngineState.fresh) = true := by
    decide +kernel
  have hjar : ((exec (execute emptyPlatform setsCookie defaultContext
      (requestWithAuth (.session (some "alice".toList))))
          EngineState.fresh).2.sessions.sessions.get?
        "default".toList).isSome = true := by decide +kernel
  obtain ⟨ready, s₁, hready, -⟩ := exists_of_okWith hmake
  have hother := (hback "alice".toList ready s₁ rfl hready).2 "default".toList (by decide)
  rw [hother] at hjar
  exact absurd hjar (by decide)

end Gabriel.Engine
