import Gabriel.Proofs.HandedBack
import Gabriel.Proofs.Jar
import Gabriel.Proofs.Scope

/-!
# `Gabriel.Proofs.GivenCookies`: the cookies the browser was given, and the session

`given` lists what the delivered `Set-Cookie` headers would store, in the order of delivery, and
`underway` what was recorded from responses that are not delivered yet. The sessions agree with
the browser when they are the initial ones after both (`Agrees`): then every delivered cookie was
recorded before, and nothing else is in the session once no response is on its way.

`forward` records the cookies of a response before it is delivered; `relay_upgrade` records none,
and a body that cannot be read turns a recorded response into a `502`. `InOrder` is the condition
on an event that leaves these out, and lets responses with cookies pass each other only if one of
them has none. `Settled` is what a run of such events keeps. The theorems:

* `sessions_dispatchHead`: the first part of a relay stores what its response then has underway.
* `stores_of_delivered`: a delivery gives the browser what its relay stored.
* `settled_begin`, `settled_deliver`, `settled_step`: one event in order.
* `session_agrees`: the session agrees with the browser after every event of a run in order.
-/

set_option autoImplicit false

namespace Gabriel.Proxy

open Gabriel.Core Gabriel.Engine Text

variable {Url : Type} (lib : HttpLib Url) (config : ProxyConfig)

/-- What recording the `Set-Cookie` texts of a response from this URL stores. -/
def storesOf (url : Text) (clock : Nat → UInt64) (cookies : List Text) : List JarEvent :=
  match lib.urls.parse url with
  | .ok parsed => recordStores config.session ((lib.urls.hostStr parsed).getD [])
      (lib.urls.path parsed) clock cookies
  | .error _ => []

/-- The `Set-Cookie` texts of a response to the browser. -/
def givenCookies (response : ProxyResponse) : List Text :=
  (valuesFor response.headers "set-cookie".toList).map Utf8.decodeLossy

/-- What the delivered cookies store, in the order of delivery. -/
def given (system : System) : List JarEvent :=
  system.delivered.flatMap fun d => storesOf lib config d.url d.clock (givenCookies d.response)

/-- What the cookies of a forwarded response store. -/
def Exchange.stores (exchange : Exchange) : List JarEvent :=
  match exchange.head with
  | .ok (.forwarded forwarded) =>
    storesOf lib config exchange.url exchange.clock (setCookies forwarded.response.headers)
  | _ => []

/-- What was recorded from responses that are on their way. -/
def underway (system : System) : List JarEvent :=
  system.pending.flatMap (Exchange.stores lib config)

/-- The sessions hold what the browser was given, in that order, and what is on its way to it. -/
def Agrees (initial : SessionStore) (system : System) : Prop :=
  system.state.sessions
    = (given lib config system ++ underway lib config system).foldl SessionStore.absorbJar initial

/-- The answer to an upgrade has no cookie that would be stored. -/
def UpgradeWithoutCookies (request : BrowserRequest) (url : Text) (encounter : Encounter) : Prop :=
  (upgradeTarget request.headers).isSome = true → ∀ response, encounter.answer = .ok response →
    storesOf lib config url encounter.clock (setCookies response.headers) = []

/-- The body of a forwarded response is passed through, or read to its end. -/
def Delivers (forwarded : Forwarded) : Prop :=
  streamsIndefinitely forwarded.response.headers.toFieldMap config.maxBodyBytes = true ∨
    ∃ bytes, forwarded.response.body = .ok bytes

/-- The condition: upgrades come without cookies, and a response with cookies is delivered, after
the ones before it that have some. -/
def InOrder (system : System) : Event → Prop
  | .request request encounter => request.method ≠ "CONNECT".toList →
      UpgradeWithoutCookies lib config request request.uri.text encounter
  | .through tunnel request encounter => ∀ host,
      system.tunnels[tunnel]? = some (.intercepted host) →
      UpgradeWithoutCookies lib config request (innerUrl host request) encounter
  | .finish index _ => ∀ exchange, system.pending[index]? = some exchange →
      exchange.stores lib config = [] ∨
        (∀ forwarded, exchange.head = .ok (.forwarded forwarded) → Delivers config forwarded) ∧
        ∀ earlier ∈ system.pending.take index, earlier.stores lib config = []

/-- What a run in order keeps: the sessions agree, and no upgrade on its way has cookies. -/
structure Settled (initial : SessionStore) (system : System) : Prop where
  agrees : Agrees lib config initial system
  upgrades : ∀ exchange ∈ system.pending, ∀ response, exchange.head = .ok (.upgraded response) →
    storesOf lib config exchange.url exchange.clock (setCookies response.headers) = []

variable {lib config}

/-- The decoder reads a text back. -/
theorem decodeLossy_encode (t : Text) : Utf8.decodeLossy (Utf8.encode t) = t := by
  have h := Utf8.decodeLossy_encode_append t []
  rw [List.append_nil] at h
  rw [h]
  exact List.append_nil t

/-- The `Set-Cookie` texts of a response that is built from a record. -/
theorem givenCookies_rebuilt (headers : HeaderMap) (keep : Text → Bool)
    (hkeep : keep "set-cookie".toList = true) (status : UInt16) (body : ProxyBody) :
    givenCookies ⟨status, rebuilt (headers.toFieldMap.iterPairs.filter fun e => keep e.1), body⟩
      = setCookies headers := by
  have hlower : asciiLower "set-cookie".toList = "set-cookie".toList := by decide
  have hname : ∀ e ∈ headers.entries,
      decide (e.1 = "set-cookie".toList) = eqIgnoreAsciiCase e.1 "set-cookie".toList := by
    intro e he
    rw [Bool.eq_iff_iff, decide_eq_true_iff, eqIgnoreAsciiCase_iff, headers.lowercase e he, hlower]
  unfold givenCookies
  rw [valuesOf_rebuilt headers keep hkeep, List.map_map, valuesFor, List.filter_congr hname,
    setCookies, HeaderMap.texts, List.filter_map, List.map_map, List.map_map]
  exact List.map_congr_left fun e _ => decodeLossy_encode (headerText e.2)

/-- A message of the proxy gives no cookie. -/
theorem givenCookies_badGateway (message : Text) : givenCookies (badGateway message) = [] := by
  have hname : ¬ "content-type".toList = "set-cookie".toList := by decide
  unfold givenCookies valuesFor badGateway statusResponse
  rw [List.filter_cons_of_neg (by rwa [decide_eq_true_iff])]
  rfl

/-- No cookie stores nothing. -/
theorem storesOf_nil (url : Text) (clock : Nat → UInt64) :
    storesOf lib config url clock [] = [] := by
  unfold storesOf
  split <;> rfl

/-- Recording the cookies of a response stores them. -/
theorem sessions_recordCookies (state : ProxyState) (url : Text) (cookies : List Text)
    (clock : Nat → UInt64) :
    (recordCookies lib config state url cookies clock).sessions
      = (storesOf lib config url clock cookies).foldl SessionStore.absorbJar state.sessions := by
  unfold recordCookies
  by_cases hnone : cookies = []
  · rw [if_pos hnone, hnone, storesOf_nil]
    rfl
  · rw [if_neg hnone]
    unfold storesOf
    cases lib.urls.parse url with
    | error e => rfl
    | ok parsed => exact SessionStore.recordSetCookies_eq_stores ..

/-- The first part of a relay stores what its response then has underway. -/
theorem sessions_dispatchHead (state : ProxyState) (request : BrowserRequest) (url : Text)
    (encounter : Encounter) :
    (dispatchHead lib config state request url encounter).1.sessions
      = (Exchange.stores lib config
          ⟨url, encounter.clock, (dispatchHead lib config state request url encounter).2⟩).foldl
        SessionStore.absorbJar state.sessions := by
  unfold dispatchHead
  -- An upgrade stores nothing; a forwarded request stores what its response sets, and only at the
  -- end of its arms.
  split
  · -- An upgrade records nothing.
    unfold relayUpgradeHead
    split
    · rfl
    split
    · rfl
    dsimp only
    split
    · rfl
    split
    · rfl
    split <;> rfl
  · unfold forwardHead
    split
    · rfl
    split
    · rfl
    split
    · rfl
    split
    · rfl
    dsimp only
    split
    · rfl
    exact sessions_recordCookies ..

/-- An upgrade that is answered has the answer of its encounter. -/
theorem answer_of_upgraded {state : ProxyState} {request : BrowserRequest} {url : Text}
    {encounter : Encounter} {response : UpstreamResponse}
    (h : (dispatchHead lib config state request url encounter).2 = .ok (.upgraded response)) :
    (upgradeTarget request.headers).isSome = true ∧ encounter.answer = .ok response := by
  unfold dispatchHead at h
  -- The answer is looked at behind each check that can fail.
  split at h
  · rename_i hupgrade
    refine ⟨hupgrade, ?_⟩
    unfold relayUpgradeHead at h
    split at h
    · cases h
    split at h
    · cases h
    dsimp only at h
    split at h
    · cases h
    split at h
    · cases h
    split at h
    · cases h
    rename_i hanswer
    rw [hanswer, Head.upgraded.inj (Except.ok.inj h)]
  · cases hhead : (forwardHead lib config state request url encounter).2 with
    | error e =>
      dsimp only at h
      rw [hhead] at h
      cases h
    | ok forwarded =>
      dsimp only at h
      rw [hhead] at h
      cases h

/-- A request that is forwarded has the answer of its encounter. -/
theorem answer_of_forwarded {state : ProxyState} {request : BrowserRequest} {url : Text}
    {encounter : Encounter} {upstream : UpstreamResponse} {forwarded : Forwarded}
    (hanswer : encounter.answer = .ok upstream)
    (h : (dispatchHead lib config state request url encounter).2 = .ok (.forwarded forwarded)) :
    forwarded.response = upstream := by
  -- The two ways are told apart by the head that they end with.
  unfold dispatchHead at h
  split at h
  · cases hhead : (relayUpgradeHead lib config state request url encounter).2 with
    | error e =>
      dsimp only at h
      rw [hhead] at h
      cases h
    | ok response =>
      dsimp only at h
      rw [hhead] at h
      cases h
  · cases hhead : (forwardHead lib config state request url encounter).2 with
    | error e =>
      dsimp only at h
      rw [hhead] at h
      cases h
    | ok held =>
      dsimp only at h
      rw [hhead] at h
      rw [← Head.forwarded.inj (Except.ok.inj h)]
      exact response_of_forwardHead hanswer hhead

/-- A new relay. -/
theorem settled_begin {initial : SessionStore} {system : System}
    (hsettled : Settled lib config initial system) {request : BrowserRequest} {url : Text}
    {encounter : Encounter} (hupgrade : UpgradeWithoutCookies lib config request url encounter) :
    Settled lib config initial (system.begin lib config request url encounter) := by
  constructor
  · show (dispatchHead lib config system.state request url encounter).1.sessions
      = (given lib config system
          ++ (system.pending ++ [_]).flatMap (Exchange.stores lib config)).foldl _ initial
    rw [sessions_dispatchHead, show system.state.sessions = _ from hsettled.agrees,
      ← List.foldl_append, List.flatMap_append, List.append_assoc]
    simp only [List.flatMap_cons, List.flatMap_nil, List.append_nil]
    rfl
  · intro exchange hmem response hhead
    rcases List.mem_append.mp hmem with hold | hnew
    · exact hsettled.upgrades exchange hold response hhead
    · rw [List.mem_singleton.mp hnew] at hhead ⊢
      obtain ⟨hasks, hanswer⟩ := answer_of_upgraded hhead
      exact hupgrade hasks response hanswer

/-- A delivery gives the browser what its relay stored. -/
theorem stores_of_delivered {state : ProxyState} {exchange : Exchange} (readings : Readings)
    (hupgrade : ∀ response, exchange.head = .ok (.upgraded response) →
      storesOf lib config exchange.url exchange.clock (setCookies response.headers) = [])
    (hdelivers : exchange.stores lib config = [] ∨
      ∀ forwarded, exchange.head = .ok (.forwarded forwarded) → Delivers config forwarded) :
    storesOf lib config exchange.url exchange.clock
        (givenCookies (dispatchRest lib config state exchange.head readings).2)
      = exchange.stores lib config := by
  have hkept : (!isDropped "set-cookie".toList) = true := by decide
  obtain ⟨url, clock, head⟩ := exchange
  -- The delivery drops headers but keeps `Set-Cookie`, whatever the arm.
  unfold dispatchRest
  cases head with
  | error e =>
    dsimp only
    rw [givenCookies_badGateway, storesOf_nil]
    rfl
  | ok head =>
    cases head with
    | upgraded response =>
      have hgiven : givenCookies (relayUpgradeRest response) = setCookies response.headers := by
        -- Whether the upgrade was accepted or not.
        unfold relayUpgradeRest
        dsimp only
        split
        · exact givenCookies_rebuilt response.headers (fun name => !isDropped name) hkept _ _
        · have hall := givenCookies_rebuilt response.headers (fun _ => true) rfl 101 .empty
          rw [List.filter_true] at hall
          exact hall
      dsimp only
      rw [hgiven]
      exact hupgrade response rfl
    | forwarded forwarded =>
      dsimp only
      unfold forwardRest
      dsimp only
      -- A stream is relayed at once; otherwise the body is read first.
      by_cases hstream : streamsIndefinitely forwarded.response.headers.toFieldMap
          config.maxBodyBytes = true
      · rw [if_pos hstream]
        dsimp only
        rw [givenCookies_rebuilt forwarded.response.headers (fun name => !isDropped name) hkept]
        rfl
      · rw [if_neg hstream]
        cases hbody : forwarded.response.body with
        | ok bytes =>
          dsimp only
          rw [givenCookies_rebuilt forwarded.response.headers (fun name => !isDropped name) hkept]
          rfl
        | error e =>
          dsimp only
          -- A body that fails gives the browser no cookie; so by hypothesis nothing was stored.
          rw [givenCookies_badGateway, storesOf_nil]
          rcases hdelivers with hnone | hdelivers
          · exact hnone.symm
          · rcases hdelivers forwarded rfl with hstreams | ⟨bytes, hbytes⟩
            · exact absurd hstreams hstream
            · rw [hbytes] at hbody
              cases hbody

/-- Taking an item out of a list of events moves its events to the front, when it or the items
before it have none. -/
theorem flatMap_eraseIdx {α β : Type} (f : α → List β) {l : List α} {index : Nat} {a : α}
    (ha : l[index]? = some a) (h : f a = [] ∨ ∀ b ∈ l.take index, f b = []) :
    f a ++ (l.eraseIdx index).flatMap f = l.flatMap f := by
  obtain ⟨hlt, hget⟩ := List.getElem?_eq_some_iff.mp ha
  have hsplit : l = l.take index ++ a :: l.drop (index + 1) := by
    rw [← hget, List.getElem_cons_drop, List.take_append_drop]
  rw [List.eraseIdx_eq_take_drop_succ]
  conv_rhs => rw [hsplit]
  rw [List.flatMap_append, List.flatMap_append, List.flatMap_cons]
  rcases h with hnone | hnone
  · rw [hnone, List.nil_append, List.nil_append]
  · rw [show (l.take index).flatMap f = [] from List.flatMap_eq_nil_iff.mpr hnone, List.nil_append,
      List.nil_append]

/-- A relay that ends. -/
theorem settled_deliver {initial : SessionStore} {system : System}
    (hsettled : Settled lib config initial system) {index : Nat} {exchange : Exchange}
    (hexchange : system.pending[index]? = some exchange) (readings : Readings)
    (horder : exchange.stores lib config = [] ∨
      (∀ forwarded, exchange.head = .ok (.forwarded forwarded) → Delivers config forwarded) ∧
      ∀ earlier ∈ system.pending.take index, earlier.stores lib config = []) :
    Settled lib config initial (system.deliver lib config index exchange readings) := by
  have hmem : exchange ∈ system.pending := List.mem_of_getElem? hexchange
  constructor
  · show (dispatchRest lib config system.state exchange.head readings).1.sessions
      = ((system.delivered ++ [Delivery.mk exchange.url exchange.clock _]).flatMap _
          ++ (system.pending.eraseIdx index).flatMap (Exchange.stores lib config)).foldl _ initial
    rw [(@dispatchRest_cases _ lib config system.state exchange.head readings).1,
      show system.state.sessions = _ from hsettled.agrees, List.flatMap_append]
    simp only [List.flatMap_cons, List.flatMap_nil, List.append_nil]
    rw [stores_of_delivered readings (hsettled.upgrades exchange hmem)
      (horder.imp id And.left), List.append_assoc,
      flatMap_eraseIdx (Exchange.stores lib config) hexchange (horder.imp id And.right)]
    rfl
  · intro other hother
    exact hsettled.upgrades other (List.mem_of_mem_eraseIdx hother)

/-- One event in order. -/
theorem settled_step (initial : SessionStore) (system : System) (event : Event)
    (hsettled : Settled lib config initial system) (hevent : InOrder lib config system event) :
    Settled lib config initial (system.step lib config event) := by
  unfold System.step
  -- A request begins a relay, as does one in a tunnel that is intercepted; an end delivers one.
  cases event with
  | request request encounter =>
    by_cases hconnect : request.method = "CONNECT".toList
    · simp only [if_pos hconnect]
      exact ⟨hsettled.agrees, hsettled.upgrades⟩
    · simp only [if_neg hconnect]
      exact settled_begin hsettled (hevent hconnect)
  | through tunnel request encounter =>
    dsimp only
    cases htunnel : system.tunnels[tunnel]? with
    | none => exact hsettled
    | some kind =>
      cases kind with
      | blind authority => exact hsettled
      | intercepted host => exact settled_begin hsettled (hevent host htunnel)
  | finish index readings =>
    dsimp only
    cases hexchange : system.pending[index]? with
    | none => exact hsettled
    | some exchange =>
      exact settled_deliver hsettled hexchange readings (hevent exchange hexchange)

/-- **The session agrees with the browser** after every event of a run in order: the sessions are
the initial ones after the cookies of the delivered responses, in that order, and then those of
the responses on their way; and once nothing is on its way, they are the initial ones after the
delivered cookies. -/
theorem session_agrees (lib : HttpLib Url) (config : ProxyConfig) (initial : SessionStore)
    (events : List Event)
    (horder : (System.start initial).Always lib config (InOrder lib config) events) :
    (System.start initial).Always lib config (fun system event =>
      let after := system.step lib config event
      Agrees lib config initial after ∧
      (after.pending = [] → after.state.sessions
        = (given lib config after).foldl SessionStore.absorbJar initial)) events := by
  have hinit : Settled lib config initial (System.start initial) :=
    ⟨rfl, fun _ h => absurd h List.not_mem_nil⟩
  refine (System.always_of_invariant (I := Settled lib config initial) ?_ hinit horder).1
  intro system event hsettled hevent
  have hafter := settled_step initial system event hsettled hevent
  refine ⟨⟨hafter.agrees, ?_⟩, hafter⟩
  intro hnone
  have hagrees := hafter.agrees
  unfold Agrees at hagrees
  rw [show underway lib config (system.step lib config event) = [] by
    rw [underway, hnone]; rfl, List.append_nil] at hagrees
  exact hagrees

/-- A page with a cookie is asked for. -/
def askLogin : BrowserRequest :=
  bareRequest "GET".toList (absoluteUri "app.test".toList "login".toList)

/-- The page is loaded. -/
def loginRun : List Event := [.request askLogin (answeredBy loginPage), .finish 0 noReadings]

/-- A proxy that reads everything. -/
def openConfig : ProxyConfig := { session := "default".toList }

/-- The cookie of the page is in the session. -/
theorem session_agrees_login :
    (System.start .new).Always plainLib openConfig (fun system event =>
      let after := system.step plainLib openConfig event
      Agrees plainLib openConfig .new after ∧
      (after.pending = [] → after.state.sessions
        = (given plainLib openConfig after).foldl SessionStore.absorbJar .new)) loginRun := by
  refine session_agrees plainLib openConfig .new loginRun ⟨?_, ?_, trivial⟩
  · intro _ hupgrade
    exact absurd hupgrade (by decide +kernel)
  · intro exchange hexchange
    have hhead : exchange.head = (dispatchHead plainLib openConfig { sessions := .new } askLogin
        askLogin.uri.text (answeredBy loginPage)).2 := by
      rw [← Option.some.inj hexchange]
      rfl
    refine Or.inr ⟨?_, fun _ h => absurd h List.not_mem_nil⟩
    intro forwarded hforwarded
    refine Or.inr ⟨Utf8.encode "hello".toList, ?_⟩
    rw [answer_of_forwarded rfl (hhead.symm.trans hforwarded)]
    rfl

/-- A handshake. -/
def handshake : BrowserRequest where
  method := "GET".toList
  uri := absoluteUri "app.test".toList "socket".toList
  version := "HTTP/1.1".toList
  headers := ⟨[("connection".toList, Utf8.encode "Upgrade".toList),
    ("upgrade".toList, Utf8.encode "websocket".toList)], by
      intro e he
      rcases List.mem_cons.mp he with rfl | he
      · show asciiLower "connection".toList = "connection".toList
        decide
      · rw [List.mem_singleton.mp he]
        show asciiLower "upgrade".toList = "upgrade".toList
        decide⟩

/-- The cookie of a declined upgrade is not recorded. -/
theorem not_session_agrees_declined :
    ¬ ∀ (config : ProxyConfig) (initial : SessionStore) (events : List Event),
      Agrees plainLib config initial ((System.start initial).run plainLib config events) := by
  intro h
  have hdeclined := h openConfig .new
    [.request handshake (answeredBy loginPage), .finish 0 noReadings]
  have hjar := congrArg (fun store : SessionStore => (store.jar "default".toList).length) hdeclined
  revert hjar
  decide +kernel

end Gabriel.Proxy
