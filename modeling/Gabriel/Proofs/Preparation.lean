import Gabriel.Engine.Executor

/-!
# `Gabriel.Proofs.Preparation`: what happens before the first send

A request is prepared step by step: its texts are resolved, its parts put together, its
authentication applied, its client looked up. Most of that is offline. These are the frame lemmas
of the steps, one for each function of `Engine/Executor`, for the proofs that follow a request to
the wire.

Three relations between two states say what stays, from the strongest to the weakest:

* `Offline`: only the resolver and the pooled clients differ. The wire, the sessions, the clock and
  the tokens stay (`Offline.wire` and its siblings).
* `Asks`: the tokens stay as well, but the wire may grow. The request to a token endpoint keeps it
  (`fetchToken_keeps`) until its answer is stored.
* `Before`: the sessions stay, and the wire only grows.

The theorems:

* `prepareParts_keeps`, `applyKnownAuth_keeps`, `clientForMode_offline`: the steps stay offline.
* `makeReady_offline`: so does all of `makeReady`, when no token is fetched (`NoToken`).
* `makeReady_before`: and in general it keeps `Before`.
-/

set_option autoImplicit false

namespace Gabriel.Engine

open Gabriel.Core Text Fallible

variable {Url : Type}

/-! ### Steps that stay offline -/

/-- The second state is the first one with another resolver and other clients. -/
def Offline (s t : EngineState Url) : Prop :=
  t = { s with resolver := t.resolver, clients := t.clients }

/-- A state that stays is offline. -/
theorem offline_refl (s : EngineState Url) : Offline s s := rfl

/-- Two offline calls, one after the other. -/
theorem offline_trans (s t u : EngineState Url) (hst : Offline s t) (htu : Offline t u) :
    Offline s u := by
  unfold Offline at *
  rw [htu, hst]

/-- Nothing is sent. -/
theorem Offline.wire {s t : EngineState Url} (h : Offline s t) : t.wire = s.wire := by rw [h]

/-- No cookie is recorded. -/
theorem Offline.sessions {s t : EngineState Url} (h : Offline s t) : t.sessions = s.sessions := by
  rw [h]

/-- The clock is not read. -/
theorem Offline.ticks {s t : EngineState Url} (h : Offline s t) : t.ticks = s.ticks := by rw [h]

/-- No token is kept. -/
theorem Offline.tokens {s t : EngineState Url} (h : Offline s t) :
    t.oauthTokens = s.oauthTokens := by rw [h]

section Offline

variable (platform : Platform) (network : Network Url) (ctx : RunContext) (spec : RequestSpec)

/-- A call on the resolver. -/
theorem onResolver_keeps {α : Type} (call : BodyM α) :
    Keeps Offline (onResolver call : EngineM Url α) := fun _ => rfl

/-- A template. -/
theorem resolveText_keeps (template : Text) :
    Keeps Offline (resolveText platform template : EngineM Url Text) := onResolver_keeps _

/-- The steps from the URL template to the body. -/
theorem prepareParts_keeps (streaming : Bool) :
    Keeps Offline (prepareParts platform network ctx spec streaming) := by
  unfold prepareParts
  refine keeps_bind offline_trans (resolveText_keeps platform spec.url) ?_
  intro resolved
  cases network.urls.parse resolved with
  | error message => exact keeps_throw offline_refl _
  | ok url =>
    refine keeps_bind offline_trans (onResolver_keeps _) ?_
    intro query
    refine keeps_bind offline_trans (onResolver_keeps _) ?_
    intro headers
    refine keeps_bind offline_trans (onResolver_keeps _) ?_
    intro body
    exact keeps_pure offline_refl _

/-- The authentication that needs no token endpoint. -/
theorem applyKnownAuth_keeps (url : Url) (auth : Option Auth) :
    Keeps Offline (applyKnownAuth platform network url auth) := by
  unfold applyKnownAuth
  split
  · refine keeps_bind offline_trans (resolveText_keeps platform _) ?_
    intro token
    exact keeps_pure offline_refl _
  · refine keeps_bind offline_trans (resolveText_keeps platform _) ?_
    intro username
    refine keeps_bind offline_trans (resolveText_keeps platform _) ?_
    intro password
    exact keeps_pure offline_refl _
  · refine keeps_bind offline_trans (resolveText_keeps platform _) ?_
    intro key
    refine keeps_bind offline_trans (resolveText_keeps platform _) ?_
    intro value
    split
    · exact keeps_pure offline_refl _
    · exact keeps_pure offline_refl _
  · exact keeps_pure offline_refl _

/-- The client certificate. -/
theorem resolveIdentity_keeps :
    Keeps Offline (resolveIdentity platform network ctx spec) := by
  unfold resolveIdentity
  split
  · exact keeps_pure offline_refl _
  · refine keeps_bind offline_trans (resolveText_keeps platform _) ?_
    intro resolved
    split
    · exact keeps_pure offline_refl _
    · split
      · exact keeps_pure offline_refl _
      · dsimp only
        split
        · exact keeps_pure offline_refl _
        · exact keeps_throw offline_refl _

/-- The second state is the first one with other clients. -/
def OnlyClients (s t : EngineState Url) : Prop := t = { s with clients := t.clients }

/-- A state that stays has the same clients. -/
theorem onlyClients_refl (s : EngineState Url) : OnlyClients s s := rfl

/-- Two calls that only make clients, one after the other. -/
theorem onlyClients_trans (s t u : EngineState Url) (hst : OnlyClients s t)
    (htu : OnlyClients t u) : OnlyClients s u := by
  unfold OnlyClients at *
  rw [htu, hst]

/-- Making clients is offline. -/
theorem OnlyClients.offline {s t : EngineState Url} (h : OnlyClients s t) : Offline s t := by
  rw [h]
  rfl

/-- The pooled client. -/
theorem clientForMode_keeps (identity : Option IdentityMaterial) (streaming : Bool) :
    Keeps OnlyClients (clientForMode network spec identity streaming) := by
  unfold clientForMode
  dsimp only
  refine keeps_bind onlyClients_trans (keeps_get onlyClients_refl) ?_
  intro s
  split
  · exact keeps_pure onlyClients_refl _
  · split
    · exact keeps_throw onlyClients_refl _
    · split
      · exact keeps_throw onlyClients_refl _
      · split
        · exact keeps_throw onlyClients_refl _
        · refine keeps_bind onlyClients_trans (fun s => rfl) ?_
          intro _
          exact keeps_pure onlyClients_refl _

/-- The pooled client sends nothing. -/
theorem clientForMode_offline (identity : Option IdentityMaterial) (streaming : Bool) :
    Keeps Offline (clientForMode network spec identity streaming) :=
  fun s => (clientForMode_keeps network spec identity streaming s).offline

/-- A request whose authentication fetches no token. -/
def NoToken (spec : RequestSpec) : Prop := ∀ config, spec.auth ≠ some (.oAuth2 config)

/-- Without a token to fetch, the authentication is the known one. -/
theorem applyAuth_of_noToken {spec : RequestSpec} (h : NoToken spec) (url : Url) :
    applyAuth platform network url spec.auth = applyKnownAuth platform network url spec.auth := by
  unfold applyAuth
  split
  · rename_i config hauth
    exact absurd hauth (h config)
  · rfl

/-- Everything before the first send, when no token is fetched. -/
theorem makeReady_offline {spec : RequestSpec} (h : NoToken spec) (streaming : Bool) :
    Keeps Offline (makeReady platform network ctx spec streaming) := by
  unfold makeReady
  refine keeps_bind offline_trans (prepareParts_keeps platform network ctx spec streaming) ?_
  intro parts
  rw [applyAuth_of_noToken platform network h]
  refine keeps_bind offline_trans (applyKnownAuth_keeps platform network _ _) ?_
  intro auth
  refine keeps_bind offline_trans (resolveIdentity_keeps platform network ctx spec) ?_
  intro identity
  refine keeps_bind offline_trans (clientForMode_offline network spec identity streaming) ?_
  intro client
  split
  · exact keeps_throw offline_refl _
  · exact keeps_pure offline_refl _

end Offline

/-! ### Everything before the first send -/

/-- The sessions stay, and the wire only grows. -/
structure Before (s t : EngineState Url) : Prop where
  sessions : t.sessions = s.sessions
  wire : s.wire <+: t.wire

/-- Nothing happens before the send in a state that stays. -/
theorem before_refl (s : EngineState Url) : Before s s := ⟨rfl, List.prefix_refl s.wire⟩

/-- What may happen before the send may happen twice. -/
theorem before_trans (s t u : EngineState Url) (hst : Before s t) (htu : Before t u) :
    Before s u := ⟨htu.sessions.trans hst.sessions, hst.wire.trans htu.wire⟩

/-- Another resolver changes neither. -/
theorem Offline.before {s t : EngineState Url} (h : Offline s t) : Before s t :=
  ⟨h.sessions, by rw [h.wire]⟩

/-- The cached tokens stay as well. -/
structure Asks (s t : EngineState Url) : Prop extends Before s t where
  tokens : t.oauthTokens = s.oauthTokens

/-- A state that stays asks for nothing. -/
theorem asks_refl (s : EngineState Url) : Asks s s := ⟨before_refl s, rfl⟩

/-- What asks for a token may do so twice. -/
theorem asks_trans (s t u : EngineState Url) (hst : Asks s t) (htu : Asks t u) : Asks s u :=
  ⟨before_trans s t u hst.toBefore htu.toBefore, htu.tokens.trans hst.tokens⟩

/-- An offline call asks for no token. -/
theorem Offline.asks {s t : EngineState Url} (h : Offline s t) : Asks s t := by
  refine ⟨h.before, ?_⟩
  rw [h]

section Before

variable (platform : Platform) (network : Network Url) (ctx : RunContext)

/-- A call that stays offline. -/
theorem keeps_before_of_offline {α : Type} {call : EngineM Url α} (h : Keeps Offline call) :
    Keeps Before call := fun s => (h s).before

/-- A call that stays offline caches no token. -/
theorem keeps_asks_of_offline {α : Type} {call : EngineM Url α} (h : Keeps Offline call) :
    Keeps Asks call := fun s => (h s).asks

/-- An optional template. -/
theorem resolveOption_keeps (template : Option Text) :
    Keeps Asks (resolveOption platform template : EngineM Url (Option Text)) := by
  cases template with
  | none => exact keeps_pure asks_refl _
  | some template =>
    refine keeps_bind asks_trans
      (keeps_asks_of_offline (resolveText_keeps platform template)) ?_
    intro text
    exact keeps_pure asks_refl _

/-- A reading of the clock. -/
theorem readClock_keeps : Keeps Asks (readClock network) :=
  fun s => ⟨⟨rfl, List.prefix_refl s.wire⟩, rfl⟩

/-- A look into the cache. -/
theorem cachedToken_keeps (cacheKey : Text) : Keeps Asks (cachedToken network cacheKey) := by
  unfold cachedToken
  refine keeps_bind asks_trans (keeps_get asks_refl) ?_
  intro s
  split
  · exact keeps_pure asks_refl _
  · refine keeps_bind asks_trans (readClock_keeps network) ?_
    intro now
    exact keeps_pure asks_refl _

/-- The request to the token endpoint. -/
theorem fetchToken_keeps (config : OAuth2) (tokenUrl clientId : Text)
    (clientSecret scope : Option Text) :
    Keeps Asks (fetchToken platform network config tokenUrl clientId clientSecret scope) := by
  unfold fetchToken
  split
  · exact keeps_throw asks_refl _
  · dsimp only
    refine keeps_bind asks_trans (resolveOption_keeps platform config.audience) ?_
    intro audience
    split
    · exact keeps_throw asks_refl _
    · split
      · exact keeps_throw asks_refl _
      · -- The one step that sends.
        refine keeps_bind asks_trans (fun s => ⟨⟨rfl, List.prefix_append s.wire _⟩, rfl⟩) ?_
        intro _
        refine keeps_bind asks_trans (keeps_get asks_refl) ?_
        intro s
        split
        · exact keeps_throw asks_refl _
        · split
          · exact keeps_throw asks_refl _
          · exact keeps_pure asks_refl _

/-- The token of a request. -/
theorem oauthToken_keeps (config : OAuth2) :
    Keeps Before (oauthToken platform network config) := by
  -- What only asks the token endpoint leaves the sessions and the wire as well.
  have hbefore : ∀ {α : Type} {call : EngineM Url α}, Keeps Asks call → Keeps Before call :=
    fun hcall s => (hcall s).toBefore
  have htext : ∀ template, Keeps Before (resolveText platform template : EngineM Url Text) :=
    fun template => keeps_before_of_offline (resolveText_keeps platform template)
  unfold oauthToken
  -- The binds in the order of the source; a cached token ends the call early.
  refine keeps_bind before_trans (htext _) ?_
  intro tokenUrl
  refine keeps_bind before_trans (htext _) ?_
  intro clientId
  refine keeps_bind before_trans (hbefore (resolveOption_keeps platform _)) ?_
  intro scope
  refine keeps_bind before_trans (hbefore (cachedToken_keeps network _)) ?_
  intro cached
  split
  · exact keeps_pure before_refl _
  · refine keeps_bind before_trans (hbefore (resolveOption_keeps platform _)) ?_
    intro clientSecret
    refine keeps_bind before_trans
      (hbefore (fetchToken_keeps platform network config tokenUrl clientId clientSecret scope)) ?_
    intro fetched
    refine keeps_bind before_trans (hbefore (readClock_keeps network)) ?_
    intro now
    -- The new token is put into the cache, which is neither of the two.
    refine keeps_bind before_trans (fun s => ⟨rfl, List.prefix_refl s.wire⟩) ?_
    intro _
    exact keeps_pure before_refl _

/-- Everything before the first send. -/
theorem makeReady_before (spec : RequestSpec) (streaming : Bool) :
    Keeps Before (makeReady platform network ctx spec streaming) := by
  -- Only the authentication can ask for a token.
  have hauth : ∀ url, Keeps Before (applyAuth platform network url spec.auth) := by
    intro url
    unfold applyAuth
    split
    · refine keeps_bind before_trans (oauthToken_keeps platform network _) ?_
      intro token
      exact keeps_pure before_refl _
    · exact keeps_before_of_offline (applyKnownAuth_keeps platform network url _)
  -- The parts, the authentication, the identity and the client, in this order.
  unfold makeReady
  refine keeps_bind before_trans
    (keeps_before_of_offline (prepareParts_keeps platform network ctx spec streaming)) ?_
  intro parts
  refine keeps_bind before_trans (hauth parts.url) ?_
  intro auth
  refine keeps_bind before_trans
    (keeps_before_of_offline (resolveIdentity_keeps platform network ctx spec)) ?_
  intro identity
  refine keeps_bind before_trans
    (keeps_before_of_offline (clientForMode_offline network spec identity streaming)) ?_
  intro client
  split
  · exact keeps_throw before_refl _
  · exact keeps_pure before_refl _

end Before

end Gabriel.Engine
