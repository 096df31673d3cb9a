import Gabriel.Proofs.Chain

/-!
# `Gabriel.Proofs.Redirects`: credentials, methods and hops along a redirect chain

Each result here is an invariant of `Turn.next`, carried along the turns of a run by
`orbit_invariant` or `orbit_invariant_from`.

`Stripped` says that a header list carries nothing of the four names that `strip_credentials`
drops. A step to another origin makes it true and every step keeps it, so that it holds from
that hop on. The names on that list are not all the names under which a credential travels:
`StripListCovers` is the condition under which the list suffices. The theorems:

* `nextHop_headers_sublist`: a redirect drops headers and adds none.
* `stripped_of_crossing`: a hop to another origin strips the headers of every turn from there on.
* `credentialsStay_of_covered`: credentials stay on their origin along every chain, if they travel
  under the names that are stripped.
* `execute_chainRules`: the rules of every chain, for its methods, bodies, hops and limit.
-/

set_option autoImplicit false

namespace Gabriel.Engine

open Gabriel.Core Text Fallible Orbit

variable {Url : Type} {network : Network Url} {ctx : RunContext} {spec : RequestSpec}

/-! ### Credentials -/

/-- No header has one of the names that `strip_credentials` drops. -/
def Stripped (headers : List (Text × Text)) : Prop :=
  ∀ e ∈ headers, asciiLower e.1 ∉ sensitiveHeaders

/-- What `strip_credentials` leaves. -/
theorem stripped_stripCredentials (headers : List (Text × Text)) :
    Stripped (stripCredentials headers) := by
  intro e he
  have hkept := (List.mem_filter.mp he).2
  simpa using hkept

/-- A redirect drops headers and adds none. -/
theorem nextHop_headers_sublist (urls : UrlLib Url) (status : UInt16) (target : Url)
    (chain : Chain Url) :
    (nextHop urls status target chain).headers.Sublist chain.headers := by
  have hstrip : (if sameOrigin urls target chain.url then chain.headers
      else stripCredentials chain.headers).Sublist chain.headers := by
    split
    · exact List.Sublist.refl chain.headers
    · exact List.filter_sublist
  unfold nextHop
  dsimp only
  split
  · exact List.filter_sublist.trans hstrip
  · exact hstrip

/-- A redirect to another origin strips the header list. -/
theorem nextHop_stripped {urls : UrlLib Url} {status : UInt16} {target : Url} {chain : Chain Url}
    (h : sameOrigin urls target chain.url = false) :
    Stripped (nextHop urls status target chain).headers := by
  unfold nextHop
  simp only [h, Bool.false_eq_true, if_false]
  split
  · intro e he
    exact stripped_stripCredentials chain.headers e (List.mem_filter.mp he).1
  · exact stripped_stripCredentials chain.headers

/-- The headers of a turn are among those of the turn before. -/
theorem Redirects.headers_sublist {turn turn' : Turn Url} {raw : RawResponse} {target : Url}
    (h : Redirects network ctx spec turn turn' raw target) :
    turn'.chain.headers.Sublist turn.chain.headers := by
  rw [h.chain]
  exact nextHop_headers_sublist network.urls raw.status target _

/-- A redirect goes to its target. -/
theorem Redirects.url {turn turn' : Turn Url} {raw : RawResponse} {target : Url}
    (h : Redirects network ctx spec turn turn' raw target) : turn'.chain.url = target := by
  rw [h.chain]
  unfold nextHop
  dsimp only
  split <;> rfl

/-- A hop to another origin strips the header list of every turn from there on. -/
theorem stripped_of_crossing {left : Nat} {first a b : Turn Url} {pre post : List (Turn Url)}
    (h : turns network ctx spec left first = pre ++ a :: b :: post)
    (hcross : sameOrigin network.urls b.chain.url a.chain.url = false) :
    ∀ turn ∈ b :: post, Stripped turn.chain.headers := by
  have hb : Stripped b.chain.headers := by
    obtain ⟨raw, target, hstep⟩ := redirects_of_next (step_of_orbit h)
    rw [hstep.chain]
    rw [hstep.url] at hcross
    exact nextHop_stripped hcross
  have hsplit : turns network ctx spec left first = (pre ++ [a]) ++ b :: post := by
    rw [h, List.append_assoc, List.singleton_append]
  refine orbit_invariant_from hsplit hb ?_
  intro turn turn' hturn hnext e he
  obtain ⟨raw, target, hstep⟩ := redirects_of_next hnext
  exact hturn e (hstep.headers_sublist.subset he)

/-- The headers of a run whose names say that they are credentials: those that the
authentication adds, and those of the request that `isCredentialHeader` knows. -/
def credentialEntries (ready : Ready Url) : List (Text × Text) :=
  ready.authHeaders ++ ready.parts.headers.filter fun e => isCredentialHeader e.1

/-- Credentials stay on their origin: from a hop to another origin on, no request carries a
credential of the run, and the only cookies are the ones for the hop's own URL. -/
def CredentialsStay (platform : Platform) (network : Network Url) (ctx : RunContext)
    (spec : RequestSpec) (s : EngineState Url) : Prop :=
  ∀ ready s₁, exec (makeReady platform network ctx spec false) s = (.ok ready, s₁) →
    (exec (execute platform network ctx spec) s).2.wire = s₁.wire
        ++ ((runTurns network ctx spec ready s₁).map fun t => t.request network ctx spec).filter
          (builds network) ∧
    ∀ pre a b post, runTurns network ctx spec ready s₁ = pre ++ a :: b :: post →
      sameOrigin network.urls b.chain.url a.chain.url = false →
        ∀ turn ∈ b :: post,
          (turn.request network ctx spec).headers = turn.chain.headers
            ++ ((turn.cookie network ctx spec).map fun c => ("Cookie".toList, c)).toList ∧
          ∀ e ∈ turn.chain.headers,
            e ∉ credentialEntries ready ∧ asciiLower e.1 ≠ "cookie".toList

/-- The list of `strip_credentials` has the name of every credential of the run. -/
def StripListCovers (platform : Platform) (network : Network Url) (ctx : RunContext)
    (spec : RequestSpec) (s : EngineState Url) : Prop :=
  ∀ ready s₁, exec (makeReady platform network ctx spec false) s = (.ok ready, s₁) →
    ∀ e ∈ credentialEntries ready, asciiLower e.1 ∈ sensitiveHeaders

/-- Credentials stay on their origin along every chain, if they travel under the names that are
stripped. -/
theorem credentialsStay_of_covered (platform : Platform) (network : Network Url)
    (ctx : RunContext) (spec : RequestSpec) (s : EngineState Url)
    (hcovers : StripListCovers platform network ctx spec s) :
    CredentialsStay platform network ctx spec s := by
  intro ready s₁ hready
  constructor
  · rw [execute_of_ready hready]
    exact runReady_wire platform network ctx spec ready s₁
  · intro pre a b post hsplit hcross turn hturn
    refine ⟨rfl, ?_⟩
    intro e he
    have hname := stripped_of_crossing hsplit hcross turn hturn e he
    refine ⟨fun hcredential => hname (hcovers ready s₁ hready e hcredential), ?_⟩
    intro hcookie
    rw [hcookie] at hname
    exact hname (by decide)

/-- A server that redirects to another host. -/
def elsewhere : Network (Text × Text) :=
  scriptedNetwork [plainResponse 302 [("location".toList, "https://evil.test/".toList)]]

/-- A bearer token does not follow a redirect to another host. -/
theorem credentialsStay_of_covered_bearer :
    CredentialsStay emptyPlatform elsewhere defaultContext
      (requestWithAuth (.bearer "t-1".toList)) .fresh := by
  refine credentialsStay_of_covered _ _ _ _ _ ?_
  intro ready s₁ hready
  have hnames : okWith
      (fun ready _ =>
        decide (∀ e ∈ credentialEntries ready, asciiLower e.1 ∈ sensitiveHeaders))
      (exec (makeReady emptyPlatform elsewhere defaultContext
        (requestWithAuth (.bearer "t-1".toList)) false) .fresh) = true := by decide +kernel
  have hcovered := test_of_okWith hnames hready
  exact of_decide_eq_true hcovered

/-- An API key in a header of its own follows a redirect to another host. -/
theorem not_credentialsStay_apiKey :
    ¬ CredentialsStay emptyPlatform elsewhere defaultContext
      (requestWithAuth (.apiKey "X-Api-Key".toList "k-live-1".toList .header)) .fresh := by
  intro hstay
  have hleak : okWith
      (fun ready s₁ => pairWith
        (fun a b => !sameOrigin httpsUrls b.chain.url a.chain.url
          && b.chain.headers.any fun e => e ∈ credentialEntries ready)
        (runTurns elsewhere defaultContext
          (requestWithAuth (.apiKey "X-Api-Key".toList "k-live-1".toList .header)) ready s₁))
      (exec (makeReady emptyPlatform elsewhere defaultContext
        (requestWithAuth (.apiKey "X-Api-Key".toList "k-live-1".toList .header)) false) .fresh)
      = true := by decide +kernel
  obtain ⟨ready, s₁, hready, hpair⟩ := exists_of_okWith hleak
  obtain ⟨a, b, hturns, hboth⟩ := exists_of_pairWith hpair
  rw [Bool.and_eq_true, List.any_eq_true] at hboth
  obtain ⟨hcross, e, he, hcredential⟩ := hboth
  have hother : sameOrigin httpsUrls b.chain.url a.chain.url = false := by simpa using hcross
  -- The second request goes to another host, and still has the entry.
  have hkept := ((hstay ready s₁ hready).2 [] a b [] hturns hother b List.mem_cons_self).2 e he
  exact hkept.1 (by simpa using hcredential)

/-! ### Methods, bodies and hops -/

/-- The headers that name a content type. -/
def contentTypes (headers : List (Text × Text)) : List (Text × Text) :=
  headers.filter fun e => eqIgnoreAsciiCase e.1 "content-type".toList

/-- What a redirect with this status makes of a request. A request that is a GET already goes on
as it is. -/
structure HopRule (status : UInt16) (a b : WireRequest Url) : Prop where
  becomesGet : status ∈ ([301, 302, 303] : List UInt16) → b.method = "GET".toList
  drops : status ∈ ([301, 302, 303] : List UInt16) → a.method ≠ "GET".toList →
    b.body = none ∧ contentTypes b.headers = []
  keepsGet : status ∈ ([301, 302, 303] : List UInt16) → a.method = "GET".toList →
    b.body = a.body ∧ contentTypes b.headers = contentTypes a.headers
  preserves : status ∈ ([307, 308] : List UInt16) →
    b.method = a.method ∧ b.body = a.body ∧ contentTypes b.headers = contentTypes a.headers

/-- A cookie is no content type. -/
theorem contentTypes_hopRequest (chain : Chain Url) (cookie : Option Text) :
    contentTypes (hopRequest chain cookie).headers = contentTypes chain.headers := by
  unfold hopRequest contentTypes
  rw [List.filter_append]
  cases cookie with
  | none => exact List.append_nil _
  | some cookie => exact List.append_nil _

/-- The stripped headers name no content type. -/
theorem contentTypes_stripCredentials (headers : List (Text × Text)) :
    contentTypes (stripCredentials headers) = contentTypes headers := by
  unfold contentTypes stripCredentials
  rw [List.filter_filter]
  refine List.filter_congr ?_
  intro e _
  by_cases hname : eqIgnoreAsciiCase e.1 "content-type".toList = true
  · have hkept : asciiLower e.1 ∉ sensitiveHeaders := by
      rw [eqIgnoreAsciiCase_iff.mp hname]
      decide
    rw [hname, Bool.true_and, decide_eq_true hkept]
  · rw [Bool.not_eq_true] at hname
    rw [hname, Bool.false_and]

/-- What a redirect does to the loop state. -/
theorem nextHop_rule {urls : UrlLib Url} {status : UInt16} {target : Url} {chain : Chain Url}
    (cookie cookie' : Option Text) :
    HopRule status (hopRequest chain cookie)
      (hopRequest (nextHop urls status target chain) cookie') := by
  have hheaders : contentTypes (if sameOrigin urls target chain.url then chain.headers
      else stripCredentials chain.headers) = contentTypes chain.headers := by
    split
    · rfl
    · exact contentTypes_stripCredentials chain.headers
  by_cases hget : 301 ≤ status.toNat ∧ status.toNat ≤ 303 ∧ chain.method ≠ "GET".toList
  · -- The loop state becomes that of a GET.
    have hnext : hopRequest (nextHop urls status target chain) cookie' = hopRequest
        { chain with
          method := "GET".toList, url := target, body := none
          hops := chain.hops ++ [⟨status, urls.toText chain.url, urls.toText target⟩]
          headers := (if sameOrigin urls target chain.url then chain.headers
            else stripCredentials chain.headers).filter
              fun e => !eqIgnoreAsciiCase e.1 "content-type".toList } cookie' := by
      unfold nextHop
      rw [if_pos hget]
    rw [hnext]
    refine ⟨fun _ => rfl, fun _ _ => ⟨rfl, ?_⟩, fun _ h => absurd h hget.2.2, ?_⟩
    · rw [contentTypes_hopRequest]
      unfold contentTypes
      rw [List.filter_filter]
      simp
    · intro hstatus
      have h := hget.2.1
      simp only [List.mem_cons, List.not_mem_nil, or_false] at hstatus
      rcases hstatus with rfl | rfl <;> exact absurd h (by decide)
  · have hnext : hopRequest (nextHop urls status target chain) cookie' = hopRequest
        { chain with
          url := target
          hops := chain.hops ++ [⟨status, urls.toText chain.url, urls.toText target⟩]
          headers := if sameOrigin urls target chain.url then chain.headers
            else stripCredentials chain.headers } cookie' := by
      unfold nextHop
      rw [if_neg hget]
    have htypes : contentTypes (hopRequest (nextHop urls status target chain) cookie').headers
        = contentTypes (hopRequest chain cookie).headers := by
      rw [hnext, contentTypes_hopRequest, contentTypes_hopRequest]
      exact hheaders
    -- A status from 301 to 303 leaves the state alone only when the method is GET.
    have hmethod : status ∈ ([301, 302, 303] : List UInt16) → chain.method = "GET".toList := by
      intro hstatus
      by_contra hother
      refine hget ⟨?_, ?_, hother⟩
      all_goals
        simp only [List.mem_cons, List.not_mem_nil, or_false] at hstatus
        rcases hstatus with rfl | rfl | rfl <;> decide
    rw [hnext] at htypes ⊢
    exact ⟨hmethod, fun h hother => absurd (hmethod h) hother, fun _ _ => ⟨rfl, htypes⟩,
      fun _ => ⟨rfl, rfl, htypes⟩⟩

/-- The texts of a redirect's ends: where it came from and where it went. -/
def hopEnds (hops : List Hop) : List (Text × Text) := hops.map fun hop => (hop.url, hop.location)

/-- The URLs of the turns, as texts. -/
def turnUrls (urls : UrlLib Url) (ts : List (Turn Url)) : List Text :=
  ts.map fun turn => urls.toText turn.chain.url

/-- A redirect is recorded with its two ends. -/
theorem Redirects.hopEnds {turn turn' : Turn Url} {raw : RawResponse} {target : Url}
    (h : Redirects network ctx spec turn turn' raw target) :
    hopEnds turn'.chain.hops = hopEnds turn.chain.hops
      ++ [(network.urls.toText turn.chain.url, network.urls.toText turn'.chain.url)] := by
  rw [h.url, h.chain]
  unfold nextHop Gabriel.Engine.hopEnds
  dsimp only
  split <;> exact List.map_append

/-- The last turn has recorded every step of the chain. -/
theorem lastTurn_hopEnds (left : Nat) (turn : Turn Url) :
    hopEnds (lastTurn network ctx spec left turn).chain.hops = hopEnds turn.chain.hops
      ++ (turnUrls network.urls (turns network ctx spec left turn)).zip
        (turnUrls network.urls (turns network ctx spec left turn)).tail := by
  induction left generalizing turn with
  | zero =>
    show hopEnds turn.chain.hops = hopEnds turn.chain.hops ++ []
    rw [List.append_nil]
  | succ left ih =>
    cases hnext : turn.next network ctx spec with
    | none =>
      rw [lastTurn_of_stop hnext]
      unfold turns
      rw [orbit_of_none hnext]
      exact (List.append_nil _).symm
    | some turn' =>
      obtain ⟨raw, target, hstep⟩ := redirects_of_next hnext
      rw [lastTurn_of_next hnext, ih turn', hstep.hopEnds]
      unfold turns
      rw [orbit_succ_some hnext]
      obtain ⟨rest, hrest⟩ := orbit_eq_cons (Turn.next network ctx spec) left turn'
      rw [hrest, List.append_assoc]
      rfl

/-- A request that does not follow redirects has one turn. -/
theorem turns_of_not_follow (left : Nat) (turn : Turn Url)
    (h : spec.settings.followRedirects = false) : turns network ctx spec left turn = [turn] := by
  cases hnext : turn.next network ctx spec with
  | none => exact orbit_of_none hnext
  | some turn' =>
    obtain ⟨raw, target, hstep⟩ := redirects_of_next hnext
    have hfollow := hstep.follow
    rw [h] at hfollow
    exact absurd hfollow (by simp)

/-- The redirect semantics of a run whose request got ready with `ready` in the state `s₁`. -/
structure ChainRules (platform : Platform) (network : Network Url) (ctx : RunContext)
    (spec : RequestSpec) (s : EngineState Url) (ready : Ready Url) (s₁ : EngineState Url) :
    Prop where
  /-- The run sends the requests of its turns, all but a last one that the client refuses. -/
  wire : (exec (execute platform network ctx spec) s).2.wire = s₁.wire
    ++ ((runTurns network ctx spec ready s₁).map fun t => t.request network ctx spec).filter
      (builds network)
  atMost : (runTurns network ctx spec ready s₁).length ≤ spec.settings.maxRedirects + 1
  exactlyOne : spec.settings.followRedirects = false →
    (runTurns network ctx spec ready s₁).length = 1
  /-- A run that succeeds was not refused any request, and reports the ends of every step. -/
  hops : ∀ outcome s', exec (execute platform network ctx spec) s = (.ok outcome, s') →
    (∀ t ∈ runTurns network ctx spec ready s₁, builds network (t.request network ctx spec) = true) ∧
    hopEnds outcome.redirects = (turnUrls network.urls (runTurns network ctx spec ready s₁)).zip
      (turnUrls network.urls (runTurns network ctx spec ready s₁)).tail
  /-- What a request becomes after its answer. -/
  rule : ∀ pre a b post, runTurns network ctx spec ready s₁ = pre ++ a :: b :: post →
    ∃ raw, a.answer network ctx spec = .ok raw ∧ isRedirect raw.status = true ∧
      HopRule raw.status (a.request network ctx spec) (b.request network ctx spec)

/-- The redirect semantics of every run. -/
theorem execute_chainRules (platform : Platform) (network : Network Url) (ctx : RunContext)
    (spec : RequestSpec) (s s₁ : EngineState Url) (ready : Ready Url)
    (hready : exec (makeReady platform network ctx spec false) s = (.ok ready, s₁)) :
    ChainRules platform network ctx spec s ready s₁ where
  wire := by
    rw [execute_of_ready hready]
    exact runReady_wire platform network ctx spec ready s₁
  atMost := length_orbit_le
  exactlyOne := by
    intro hfollow
    unfold runTurns
    rw [turns_of_not_follow _ _ hfollow]
    rfl
  hops := by
    intro outcome s' hrun
    rw [execute_of_ready hready] at hrun
    obtain ⟨raw, hanswer, -, hredirects⟩ := runReady_ok hrun
    refine ⟨builds_of_answered hanswer, ?_⟩
    rw [hredirects]
    exact lastTurn_hopEnds _ _
  rule := by
    intro pre a b post hsplit
    obtain ⟨raw, target, hstep⟩ := redirects_of_next (step_of_orbit hsplit)
    refine ⟨raw, hstep.answered, hstep.status, ?_⟩
    have hrule : HopRule raw.status
        (hopRequest (a.absorb network ctx spec raw).chain (a.cookie network ctx spec))
        (hopRequest (nextHop network.urls raw.status target (a.absorb network ctx spec raw).chain)
          (b.cookie network ctx spec)) := nextHop_rule _ _
    unfold Turn.request
    rw [hstep.chain]
    exact hrule

/-- A GET that carries a body. -/
def getWithBody : RequestSpec :=
  { RequestSpec.new id "GET".toList "https://app.test/search".toList with
    body := some (.json "\x7b\x7d".toList) }

/-- A server that moves the search. -/
def moved : Network (Text × Text) :=
  scriptedNetwork [plainResponse 302 [("location".toList, "/v2/search".toList)]]

/-- The rules of a chain with one redirect. -/
theorem execute_chainRules_moved : ∃ ready s₁,
    exec (makeReady emptyPlatform moved defaultContext getWithBody false) .fresh
      = (.ok ready, s₁) ∧
    ChainRules emptyPlatform moved defaultContext getWithBody .fresh ready s₁ := by
  have hok : okWith (fun _ _ => true)
      (exec (makeReady emptyPlatform moved defaultContext getWithBody false) .fresh) = true := by
    decide +kernel
  obtain ⟨ready, s₁, hready, -⟩ := exists_of_okWith hok
  exact ⟨ready, s₁, hready, execute_chainRules _ _ _ _ _ _ _ hready⟩

/-- Every request that follows a 301, 302 or 303 is a GET without a body and without a content
type. -/
def DropsBodies (platform : Platform) (network : Network Url) (ctx : RunContext)
    (spec : RequestSpec) (s : EngineState Url) : Prop :=
  ∀ ready s₁, exec (makeReady platform network ctx spec false) s = (.ok ready, s₁) →
    ∀ pre a b post, runTurns network ctx spec ready s₁ = pre ++ a :: b :: post →
      ∀ raw, a.answer network ctx spec = .ok raw → raw.status ∈ ([301, 302, 303] : List UInt16) →
        (b.request network ctx spec).method = "GET".toList ∧
        (b.request network ctx spec).body = none ∧
        contentTypes (b.request network ctx spec).headers = []

/-- A GET keeps its body through a 302. -/
theorem not_dropsBodies_get :
    ¬ DropsBodies emptyPlatform moved defaultContext getWithBody .fresh := by
  intro hdrops
  have hkept : okWith
      (fun ready s₁ => pairWith
        (fun a b => (a.answer moved defaultContext getWithBody).toOption.any (·.status == 302)
          && (b.request moved defaultContext getWithBody).body.isSome)
        (runTurns moved defaultContext getWithBody ready s₁))
      (exec (makeReady emptyPlatform moved defaultContext getWithBody false) .fresh) = true := by
    decide +kernel
  obtain ⟨ready, s₁, hready, hpair⟩ := exists_of_okWith hkept
  obtain ⟨a, b, hturns, hboth⟩ := exists_of_pairWith hpair
  rw [Bool.and_eq_true] at hboth
  obtain ⟨hstatus, hbody⟩ := hboth
  rcases hanswer : a.answer moved defaultContext getWithBody with error | raw
  · rw [hanswer] at hstatus
    exact absurd hstatus Bool.false_ne_true
  · rw [hanswer] at hstatus
    have hfound : raw.status = 302 := eq_of_beq hstatus
    -- The answer is a 302, and the request that follows it still has the body.
    have hnone := (hdrops ready s₁ hready [] a b [] hturns raw hanswer
      (by rw [hfound]; decide)).2.1
    rw [hnone] at hbody
    exact absurd hbody Bool.false_ne_true

end Gabriel.Engine
