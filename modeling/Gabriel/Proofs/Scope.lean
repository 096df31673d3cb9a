import Gabriel.Proxy.Serve

/-!
# `Gabriel.Proofs.Scope`: what the proxy records, and the hosts it was told to leave alone

The scope test stands in `handleConnect` alone. A request inside an intercepted tunnel goes to
the host that was tested, provided the URL library reads the URL that `innerUrl` builds as that
host. A request with an absolute URI is dispatched without the test.

`Scoped` is the condition on an event under which the scope is kept, and `InScope` the invariant:
every intercepted tunnel, every answered relay and every capture is of a host in scope. A relay has
two parts with other events between them, so the invariant also speaks of those under way. The
theorems:

* `intercepts_of_handleConnect`: a new tunnel is intercepted only for a host in scope.
* `dispatchHead_cases`, `dispatchRest_cases`: what each part of a relay can do.
* `inScope_begin`, `inScope_deliver`, `inScope_step`: one scoped event keeps the invariant.
* `captures_keep_scope`: after every run of scoped events, no capture and no cookie is of a host out
  of scope.
-/

set_option autoImplicit false

namespace Gabriel.Proxy

open Gabriel.Core Gabriel.Engine Text

variable {Url : Type} (lib : HttpLib Url) (config : ProxyConfig)

/-- The host that a request with this URL goes to. -/
def hostOf (url : Text) : Option Text := (lib.urls.parse url).toOption.bind lib.urls.hostStr

/-- The upstream answers the request. -/
def Encounter.Answers (encounter : Encounter) : Prop := ∃ response, encounter.answer = .ok response

/-- The host of the request that an event serves. -/
def System.target (system : System) : Event → Option Text
  | .request request _ =>
    if request.method = "CONNECT".toList then none else hostOf lib request.uri.text
  | .through tunnel request _ =>
    match system.tunnels[tunnel]? with
    | some (.intercepted host) => hostOf lib (innerUrl host request)
    | some (.blind authority) => some (connectHost authority)
    | none => none
  | .finish index _ => system.pending[index]?.bind fun exchange => hostOf lib exchange.url

/-- An event of a host out of scope leaves the log and the sessions as they are. -/
def KeepsToScope (system : System) (event : Event) : Prop :=
  ∀ host, system.target lib event = some host → config.intercepts host = false →
    (system.step lib config event).state.captures = system.state.captures ∧
    (system.step lib config event).state.sessions = system.state.sessions

/-- The condition: an absolute URI names a host in scope, and inside a tunnel the library reads
the asked host as itself, or as another one in scope. Without an answer neither matters. -/
def Scoped (system : System) : Event → Prop
  | .request request encounter => request.method ≠ "CONNECT".toList → encounter.Answers →
      ∀ host, hostOf lib request.uri.text = some host → config.intercepts host = true
  | .through tunnel request encounter => ∀ asked,
      system.tunnels[tunnel]? = some (.intercepted asked) → encounter.Answers →
      ∀ host, hostOf lib (innerUrl asked request) = some host →
        eqIgnoreAsciiCase host asked = true ∨ config.intercepts host = true
  | .finish _ _ => True

/-- A URL goes to a host in scope, or nowhere. -/
def Allowed (url : Text) : Prop :=
  ∀ host, hostOf lib url = some host → config.intercepts host = true

/-- What a run of scoped events keeps. -/
structure InScope (system : System) : Prop where
  tunnels : ∀ host, .intercepted host ∈ system.tunnels → config.intercepts host = true
  pending : ∀ exchange ∈ system.pending, ∀ head, exchange.head = .ok head →
    Allowed lib config exchange.url ∧
    ∀ forwarded, head = .forwarded forwarded → forwarded.url = exchange.url
  captures : ∀ capture ∈ system.state.captures, Allowed lib config capture.request.url

variable {lib config}

/-- The scope does not look at the case of letters. -/
theorem intercepts_congr {host asked : Text} (h : eqIgnoreAsciiCase host asked = true) :
    config.intercepts host = config.intercepts asked := by
  unfold ProxyConfig.intercepts
  rw [eqIgnoreAsciiCase_iff.mp h]

/-- A new tunnel is intercepted only for a host in scope. -/
theorem intercepts_of_handleConnect {request : BrowserRequest} {host : Text}
    (h : (handleConnect config request).2 = some (.intercepted host)) :
    config.intercepts host = true := by
  unfold handleConnect at h
  split at h
  · exact absurd h (by simp)
  · rename_i authority _
    by_cases hscope : config.intercepts (connectHost authority) = true
    · dsimp only at h
      rw [if_pos hscope, Option.some.injEq, Tunnel.intercepted.injEq] at h
      rw [← h]
      exact hscope
    · dsimp only at h
      rw [if_neg hscope] at h
      exact absurd h (by simp)

/-- Recording cookies appends no capture. -/
theorem captures_recordCookies (state : ProxyState) (url : Text) (cookies : List Text)
    (clock : Nat → UInt64) :
    (recordCookies lib config state url cookies clock).captures = state.captures := by
  unfold recordCookies
  split
  · rfl
  · split <;> rfl

/-- What the first part of a relay can do: fail and record nothing, or reach the upstream of the
URL, get its answer, and record at most a capture of that URL. -/
theorem dispatchHead_cases (state : ProxyState) (request : BrowserRequest) (url : Text)
    (encounter : Encounter) :
    ((∃ e, (dispatchHead lib config state request url encounter).2 = .error e) ∧
      (dispatchHead lib config state request url encounter).1.captures = state.captures ∧
      (dispatchHead lib config state request url encounter).1.sessions = state.sessions) ∨
    ∃ host head, hostOf lib url = some host ∧ encounter.Answers ∧
      (dispatchHead lib config state request url encounter).2 = .ok head ∧
      (∀ forwarded, head = .forwarded forwarded → forwarded.url = url) ∧
      ∀ capture ∈ (dispatchHead lib config state request url encounter).1.captures,
        capture ∈ state.captures ∨ capture.request.url = url := by
  unfold dispatchHead
  split
  · -- An upgrade.
    unfold relayUpgradeHead
    split
    -- The handshake fails at the URL, the host, the connection, the request or the answer.
    · exact Or.inl ⟨⟨_, rfl⟩, rfl, rfl⟩
    rename_i parsed hparse
    split
    · exact Or.inl ⟨⟨_, rfl⟩, rfl, rfl⟩
    rename_i host hhost
    dsimp only
    split
    · exact Or.inl ⟨⟨_, rfl⟩, rfl, rfl⟩
    split
    · exact Or.inl ⟨⟨_, rfl⟩, rfl, rfl⟩
    split
    · exact Or.inl ⟨⟨_, rfl⟩, rfl, rfl⟩
    rename_i response hanswer
    -- Otherwise the capture that the answer leaves is of this very URL.
    refine Or.inr ⟨host, .upgraded response, ?_, ⟨response, hanswer⟩, rfl, ?_, ?_⟩
    · unfold hostOf
      rw [hparse]
      exact hhost
    · intro forwarded hforwarded
      cases hforwarded
    · intro capture hcapture
      rcases List.mem_append.mp hcapture with hold | hnew
      · exact Or.inl hold
      · rw [List.mem_singleton.mp hnew]
        exact Or.inr rfl
  · -- Everything else.
    unfold forwardHead
    split
    -- Forwarding fails at the body, the intercept, the URL, the host or the answer.
    · exact Or.inl ⟨⟨_, rfl⟩, rfl, rfl⟩
    split
    · exact Or.inl ⟨⟨_, rfl⟩, rfl, rfl⟩
    split
    · exact Or.inl ⟨⟨_, rfl⟩, rfl, rfl⟩
    rename_i parsed hparse
    split
    · exact Or.inl ⟨⟨_, rfl⟩, rfl, rfl⟩
    rename_i host hhost
    dsimp only
    split
    · exact Or.inl ⟨⟨_, rfl⟩, rfl, rfl⟩
    rename_i response hanswer
    -- Nothing is captured before the body of the answer is read.
    refine Or.inr ⟨host, .forwarded _, ?_, ⟨response, hanswer⟩, rfl, ?_, ?_⟩
    · unfold hostOf
      rw [hparse]
      exact hhost
    · intro forwarded hforwarded
      rw [← Head.forwarded.inj hforwarded]
    · intro capture hcapture
      rw [captures_recordCookies] at hcapture
      exact Or.inl hcapture

/-- What the second part of a relay can do: deliver and record nothing, or record a capture of a
forwarded request. -/
theorem dispatchRest_cases (state : ProxyState) (head : Except Text Head) (readings : Readings) :
    (dispatchRest lib config state head readings).1.sessions = state.sessions ∧
    ((dispatchRest lib config state head readings).1.captures = state.captures ∨
      ∃ forwarded capture, head = .ok (.forwarded forwarded) ∧
        capture.request.url = forwarded.url ∧
        (dispatchRest lib config state head readings).1.captures
          = state.captures ++ [capture]) := by
  unfold dispatchRest
  split
  · exact ⟨rfl, Or.inl rfl⟩
  · exact ⟨rfl, Or.inl rfl⟩
  · rename_i forwarded
    unfold forwardRest
    dsimp only
    by_cases hstream : streamsIndefinitely forwarded.response.headers.toFieldMap
        config.maxBodyBytes = true
    · rw [if_pos hstream]
      exact ⟨rfl, Or.inr ⟨forwarded, forwardCapture lib config state forwarded none readings,
        rfl, rfl, rfl⟩⟩
    · rw [if_neg hstream]
      cases forwarded.response.body with
      | error e => exact ⟨rfl, Or.inl rfl⟩
      | ok bytes => exact ⟨rfl, Or.inr ⟨forwarded, forwardCapture lib config state forwarded
          (some bytes) readings, rfl, rfl, rfl⟩⟩

/-- A request that is dispatched to a URL in scope, or gets no answer. -/
theorem inScope_begin {system : System} (hscope : InScope lib config system)
    {request : BrowserRequest} {url : Text} {encounter : Encounter}
    (hallowed : encounter.Answers → Allowed lib config url) :
    (∀ host, hostOf lib url = some host → config.intercepts host = false →
      (system.begin lib config request url encounter).state.captures = system.state.captures ∧
      (system.begin lib config request url encounter).state.sessions = system.state.sessions) ∧
    InScope lib config (system.begin lib config request url encounter) := by
  rcases @dispatchHead_cases _ lib config system.state request url encounter
    with ⟨⟨e, herror⟩, hcaptures, hsessions⟩ | ⟨host, head, hhost, hanswers, hok, hurl, hcaptures⟩
  -- A failed dispatch adds a relay that has no head, and no capture.
  · refine ⟨fun _ _ _ => ⟨hcaptures, hsessions⟩, hscope.tunnels, ?_, ?_⟩
    · intro exchange hmem head hhead
      rcases List.mem_append.mp hmem with hold | hnew
      · exact hscope.pending exchange hold head hhead
      · rw [List.mem_singleton.mp hnew] at hhead
        rw [show (dispatchHead lib config system.state request url encounter).2 = .ok head
          from hhead] at herror
        cases herror
    · intro capture hcapture
      rw [show (system.begin lib config request url encounter).state.captures
        = system.state.captures from hcaptures] at hcapture
      exact hscope.captures capture hcapture
  -- An answered one is in scope by the hypothesis, so there is nothing to show out of scope.
  · have hin := hallowed hanswers
    refine ⟨?_, hscope.tunnels, ?_, ?_⟩
    · intro host' hhost' hout
      rw [hin host' hhost'] at hout
      cases hout
    · intro exchange hmem head' hhead'
      rcases List.mem_append.mp hmem with hold | hnew
      · exact hscope.pending exchange hold head' hhead'
      · rw [List.mem_singleton.mp hnew] at hhead' ⊢
        have hsame : Except.ok head' = Except.ok head := hhead'.symm.trans hok
        rw [Except.ok.inj hsame]
        exact ⟨hin, hurl⟩
    · intro capture hcapture
      rcases hcaptures capture hcapture with hold | hnew
      · exact hscope.captures capture hold
      · rw [hnew]
        exact hin

/-- A relay that ends. -/
theorem inScope_deliver {system : System} (hscope : InScope lib config system) {index : Nat}
    {exchange : Exchange} (hexchange : system.pending[index]? = some exchange)
    (readings : Readings) :
    (∀ host, hostOf lib exchange.url = some host → config.intercepts host = false →
      (system.deliver lib config index exchange readings).state.captures = system.state.captures ∧
      (system.deliver lib config index exchange readings).state.sessions
        = system.state.sessions) ∧
    InScope lib config (system.deliver lib config index exchange readings) := by
  -- The relays that stay were there before.
  have hmem : exchange ∈ system.pending := List.mem_of_getElem? hexchange
  have hpending : ∀ other ∈ (system.deliver lib config index exchange readings).pending,
      ∀ head, other.head = .ok head → Allowed lib config other.url ∧
        ∀ forwarded, head = .forwarded forwarded → forwarded.url = other.url := by
    intro other hother
    exact hscope.pending other (List.mem_of_mem_eraseIdx hother)
  obtain ⟨hsessions, hunchanged | ⟨forwarded, capture, hhead, hurl, hcaptures⟩⟩ :=
    @dispatchRest_cases _ lib config system.state exchange.head readings
  -- Nothing was recorded, so the captures are the old ones.
  · refine ⟨fun _ _ _ => ⟨hunchanged, hsessions⟩, hscope.tunnels, hpending, ?_⟩
    intro capture hcapture
    rw [show (system.deliver lib config index exchange readings).state.captures
      = system.state.captures from hunchanged] at hcapture
    exact hscope.captures capture hcapture
  · -- The capture is of the URL of the relay, which was answered.
    have hin := hscope.pending exchange hmem _ hhead
    refine ⟨?_, hscope.tunnels, hpending, ?_⟩
    · intro host hhost hout
      rw [hin.1 host hhost] at hout
      cases hout
    · intro capture' hcapture'
      rw [show (system.deliver lib config index exchange readings).state.captures
        = system.state.captures ++ [capture] from hcaptures] at hcapture'
      rcases List.mem_append.mp hcapture' with hold | hnew
      · exact hscope.captures capture' hold
      · rw [List.mem_singleton.mp hnew, hurl, hin.2 forwarded rfl]
        exact hin.1

/-- One scoped event keeps to the scope, and keeps the invariant. -/
theorem inScope_step (system : System) (event : Event) (hscope : InScope lib config system)
    (hevent : Scoped lib config system event) :
    KeepsToScope lib config system event ∧ InScope lib config (system.step lib config event) := by
  unfold KeepsToScope System.step System.target
  cases event with
  | request request encounter =>
    -- A `CONNECT` opens a tunnel, to an intercepted host or to a blind one.
    by_cases hconnect : request.method = "CONNECT".toList
    · simp only [if_pos hconnect]
      refine ⟨fun _ h => absurd h (by simp), ?_, hscope.pending, hscope.captures⟩
      intro host hhost
      rcases List.mem_append.mp hhost with hold | hnew
      · exact hscope.tunnels host hold
      · exact intercepts_of_handleConnect (Option.mem_toList.mp hnew)
    · simp only [if_neg hconnect]
      exact inScope_begin hscope (hevent hconnect)
  | through tunnel request encounter =>
    dsimp only
    -- A tunnel that does not exist and a blind tunnel dispatch nothing.
    cases htunnel : system.tunnels[tunnel]? with
    | none => exact ⟨fun _ _ _ => ⟨rfl, rfl⟩, hscope⟩
    | some kind =>
      cases kind with
      | blind authority => exact ⟨fun _ _ _ => ⟨rfl, rfl⟩, hscope⟩
      | intercepted asked =>
        -- An intercepted tunnel dispatches for its own host, or for another one in scope.
        refine inScope_begin hscope ?_
        intro hanswers host hhost
        rcases hevent asked htunnel hanswers host hhost with hsame | hin
        · rw [intercepts_congr hsame]
          exact hscope.tunnels asked (List.mem_of_getElem? htunnel)
        · exact hin
  | finish index readings =>
    dsimp only
    -- A relay ends at most once.
    cases hexchange : system.pending[index]? with
    | none => exact ⟨fun _ h => absurd h (by simp), hscope⟩
    | some exchange => exact inScope_deliver hscope hexchange readings

/-- **The proxy keeps to its scope** in every run whose absolute URIs are of hosts in scope and
whose tunnels are read as the hosts they were asked for: no event of a host out of scope changes
the log or the sessions, and every capture is of a host in scope. -/
theorem captures_keep_scope (lib : HttpLib Url) (config : ProxyConfig) (sessions : SessionStore)
    (events : List Event)
    (hscoped : (System.start sessions).Always lib config (Scoped lib config) events) :
    (System.start sessions).Always lib config (KeepsToScope lib config) events ∧
    ∀ capture ∈ ((System.start sessions).run lib config events).state.captures,
      ∀ host, hostOf lib capture.request.url = some host → config.intercepts host = true := by
  have hinit : InScope lib config (System.start sessions) :=
    ⟨fun _ h => absurd h List.not_mem_nil, fun _ h => absurd h List.not_mem_nil,
      fun _ h => absurd h List.not_mem_nil⟩
  have hrun := @System.always_of_invariant _ lib config (Scoped lib config)
    (KeepsToScope lib config) (InScope lib config) inScope_step _ _ hinit hscoped
  exact ⟨hrun.1, hrun.2.captures⟩

/-- A proxy that is to leave a bank alone. -/
def bankConfig : ProxyConfig := { session := "default".toList, exclude := ["bank.test".toList] }

/-- A page with a cookie. -/
def loginPage : UpstreamResponse where
  status := 200
  headers := ⟨[("set-cookie".toList, Utf8.encode "sid=1".toList)], by decide⟩
  body := .ok (Utf8.encode "hello".toList)

/-- A tunnel to a host in scope is asked for. -/
def askApi : Event :=
  .request (bareRequest "CONNECT".toList (authorityUri "API.test:443".toList))
      (answeredBy loginPage)

/-- A request for a page. -/
def getLogin : BrowserRequest := bareRequest "GET".toList (pathUri "login".toList)

/-- A request inside the tunnel. -/
def tunnelledRun : List Event :=
  [askApi, .through 0 getLogin (answeredBy loginPage), .finish 0 noReadings]

/-- The tunnelled run keeps to the scope. -/
theorem captures_keep_scope_tunnelled :
    (System.start .new).Always plainLib bankConfig (KeepsToScope plainLib bankConfig)
      tunnelledRun := by
  refine (captures_keep_scope plainLib bankConfig .new tunnelledRun
    ⟨fun hconnect => absurd rfl hconnect, ?_, trivial, trivial⟩).1
  intro asked hasked _ host hhost
  have htunnels : ((System.start .new).step plainLib bankConfig askApi).tunnels
      = [.intercepted "API.test".toList] := by decide +kernel
  rw [htunnels] at hasked
  rw [← Tunnel.intercepted.inj (Option.some.inj hasked)] at hhost ⊢
  have hread : hostOf plainLib (innerUrl "API.test".toList getLogin)
      = some "api.test".toList := by decide +kernel
  rw [hread] at hhost
  rw [← Option.some.inj hhost]
  exact Or.inl (by decide)

/-- A plain request to the bank is recorded all the same. -/
theorem not_captures_keep_scope_plain :
    ¬ ∀ (config : ProxyConfig) (sessions : SessionStore) (events : List Event),
      (System.start sessions).Always plainLib config (KeepsToScope plainLib config) events := by
  intro h
  have hplain := (h bankConfig .new [.request (bareRequest "GET".toList
      (absoluteUri "bank.test".toList [])) (answeredBy loginPage)]).1 "bank.test".toList
          (by decide +kernel) (by decide +kernel)
  have hjar := congrArg (fun store : SessionStore => (store.jar "default".toList).length) hplain.2
  revert hjar
  decide +kernel

end Gabriel.Proxy
