import Gabriel.Proofs.Preparation

/-!
# `Gabriel.Proofs.Tokens`: whose token a lookup returns

A `Lookup` is a call of `oauth_token`: a config, and the state of the engine at that moment, less
the token cache, which is what one call leaves to the next. `Lookup.credentials` is what the
config resolves to at that moment, all six parameters of a token request; a call that finds a
token in the cache resolves three of them only.

A call returns a cached token and leaves the cache, or it sends a token request for its credentials
(`Fetches`) and stores the answer under its key. The invariant is `Accounted`: every entry of the
cache is the answer to an earlier call with that key. What the cache then lacks is that two calls
with one key have the same credentials. The theorems:

* `fetchToken_eq_ok`: a token that is fetched: the request for the credentials goes out, and is
  answered.
* `run_cases`: the two things that a call can do.
* `accounted`: the cache is accounted for after every run of calls, by induction from the end.
* `lifetimeOpen_of_fresh`: a fresh entry is within the lifetime that it was stored with.
* `tokensOwn_of_clear`: in every run in which no call finds a fresh entry of other credentials, each
  returned token was issued for the credentials of the call, and within its lifetime.
-/

set_option autoImplicit false

namespace Gabriel.Engine

open Gabriel.Core Text Fallible

variable {Url : Type}

/-! ### What a call asks for -/

/-- The parameters of a token request. -/
structure Credentials where
  tokenUrl : Text
  clientId : Text
  clientSecret : Option Text
  grant : OAuth2Grant
  scope : Option Text
  audience : Option Text
  deriving DecidableEq

/-- Resolve a template that may not be there. -/
def resolveOptional (world : World) : Option Text → ResolverM (Option Text)
  | some template => do
    let text ← Resolver.resolve world template
    pure (some text)
  | none => pure none

/-- The three parameters that every call resolves. -/
def resolveKey (world : World) (config : OAuth2) : ResolverM (Text × Text × Option Text) := do
  let tokenUrl ← Resolver.resolve world config.tokenUrl
  let clientId ← Resolver.resolve world config.clientId
  let scope ← resolveOptional world config.scope
  pure (tokenUrl, clientId, scope)

/-- All parameters, in the order in which a call that sends a request resolves them. -/
def resolveCredentials (world : World) (config : OAuth2) : ResolverM Credentials := do
  let (tokenUrl, clientId, scope) ← resolveKey world config
  let clientSecret ← resolveOptional world config.clientSecret
  let audience ← resolveOptional world config.audience
  pure { tokenUrl, clientId, clientSecret, grant := config.grant, scope, audience }

/-- The key of the cache. -/
def cacheKey (tokenUrl clientId : Text) (scope : Option Text) : Text :=
  tokenUrl ++ '|' :: clientId ++ '|' :: scope.getD []

/-- The request for these credentials. -/
def tokenRequest (platform : Platform) (network : Network Url) (inBody : Bool) (grant : Text)
    (url : Url) (c : Credentials) : WireRequest Url :=
  let form := ("grant_type".toList, grant)
    :: (c.scope.map fun scope => ("scope".toList, scope)).toList
  let form := form ++ (c.audience.map fun audience => ("audience".toList, audience)).toList
  let client := ("client_id".toList, c.clientId)
    :: (c.clientSecret.map fun secret => ("client_secret".toList, secret)).toList
  let basic := ("Authorization".toList, "Basic ".toList
    ++ platform.b64Encode (Utf8.encode (c.clientId ++ ':' :: c.clientSecret.getD [])))
  { method := "POST".toList, url,
    headers := (if inBody then [] else [basic])
      ++ [("Content-Type".toList, "application/x-www-form-urlencoded".toList)],
    body := some (Utf8.encode (network.encodeForm (if inBody then form ++ client else form))) }

/-- What the answer says about the lifetime of its token. -/
def statedLifetime (platform : Platform) (network : Network Url) (raw : RawResponse) :
    Option Json :=
  match platform.parseJson (Utf8.encode ((network.bodyText raw).getD [])) with
  | .ok payload => payload.get? "expires_in".toList
  | .error _ => none

/-- The lifetime that the engine takes from that, in seconds. -/
def lifetimeSeconds : Option Json → UInt64
  | some (.number (.posInt seconds)) => seconds
  | _ => 3600

/-- The lifetime is a whole number of seconds, or not stated. -/
def PlainLifetime (stated : Option Json) : Prop :=
  match stated with
  | none | some .null | some (.number (.posInt _)) => True
  | some _ => False

/-- The token is within its stated lifetime. A lifetime that is not a number of seconds counts as
over. -/
def LifetimeOpen (stated : Option Json) (receivedAt nowMs : UInt64) : Prop :=
  match stated with
  | none | some .null => True
  | some (.number (.posInt seconds)) => nowMs.toNat < receivedAt.toNat + seconds.toNat * 1000
  | some _ => False

/-- A call of `oauth_token`. -/
structure Lookup (Url : Type) where
  config : OAuth2
  /-- The state of the engine, but for its token cache. -/
  state : EngineState Url

namespace Lookup

variable (platform : Platform) (network : Network Url)

/-- The key of the call, when its three parameters resolve. -/
def key (l : Lookup Url) : Option Text :=
  match (exec (resolveKey platform.world l.config) l.state.resolver).1 with
  | .ok (tokenUrl, clientId, scope) => some (cacheKey tokenUrl clientId scope)
  | .error _ => none

/-- The credentials of the call, when they resolve. -/
def credentials (l : Lookup Url) : Option Credentials :=
  match (exec (resolveCredentials platform.world l.config) l.state.resolver).1 with
  | .ok c => some c
  | .error _ => none

/-- The call, with this token cache. -/
def run (l : Lookup Url) (tokens : SortedMap Text CachedToken) :
    Except EngineError Text × EngineState Url :=
  exec (oauthToken platform network l.config) { l.state with oauthTokens := tokens }

/-- The entry outlives the call by 30 seconds. -/
def Fresh (l : Lookup Url) (cached : CachedToken) : Prop :=
  cached.expiresAtMs > network.clock l.state.ticks + 30000

end Lookup

/-- The cache after a list of calls, from the empty cache. -/
def tokensAfter (platform : Platform) (network : Network Url) (ls : List (Lookup Url)) :
    SortedMap Text CachedToken :=
  ls.foldl (fun tokens l => (l.run platform network tokens).2.oauthTokens) SortedMap.empty

/-! ### What a call does -/

section Steps

variable {platform : Platform} {network : Network Url}

/-- A template that resolves. -/
theorem resolveText_eq_ok {template text : Text} {s s' : EngineState Url} :
    exec (resolveText platform template) s = (.ok text, s') ↔
      ∃ r, exec (Resolver.resolve platform.world template) s.resolver = (.ok text, r) ∧
        s' = { s with resolver := r } := by
  unfold resolveText onResolver liftCore
  rw [exec_zoom, exec_adapt]
  rcases exec (Resolver.resolve platform.world template) s.resolver with ⟨_ | value, r⟩
  · simp [Except.mapError]
  · simp [Except.mapError, eq_comm]

/-- An optional template that resolves. -/
theorem resolveOption_eq_ok {template text : Option Text} {s s' : EngineState Url} :
    exec (resolveOption platform template) s = (.ok text, s') ↔
      ∃ r, exec (resolveOptional platform.world template) s.resolver = (.ok text, r) ∧
        s' = { s with resolver := r } := by
  cases template with
  | none =>
    show (Except.ok none, s) = (.ok text, s') ↔
      ∃ r, (Except.ok none, s.resolver) = (.ok text, r) ∧ _
    constructor
    · intro h
      cases h
      exact ⟨_, rfl, rfl⟩
    · rintro ⟨r, hr, hs⟩
      cases hr
      rw [hs]
  | some template =>
    unfold resolveOption resolveOptional
    constructor
    -- Both resolve the one template; the engine's call keeps the other fields of the state.
    · intro h
      obtain ⟨value, hvalue, hsome⟩ := exec_bind_pure_eq_ok.mp h
      obtain ⟨r, hr, hs⟩ := resolveText_eq_ok.mp hvalue
      exact ⟨r, exec_bind_pure_eq_ok.mpr ⟨value, hr, hsome⟩, hs⟩
    · rintro ⟨r, hr, hs⟩
      obtain ⟨value, hvalue, hsome⟩ := exec_bind_pure_eq_ok.mp hr
      exact exec_bind_pure_eq_ok.mpr ⟨value, resolveText_eq_ok.mpr ⟨r, hvalue, hs⟩, hsome⟩

variable (network) in
/-- The cache is asked: no entry, or one that is compared with the clock. -/
theorem cachedToken_exec (key : Text) (s : EngineState Url) :
    exec (cachedToken network key) s = match s.oauthTokens.get? key with
      | none => (.ok none, s)
      | some cached =>
        (.ok (if cached.expiresAtMs > network.clock s.ticks + 30000 then some cached.token
          else none), { s with ticks := s.ticks + 1 }) := by
  show exec (match s.oauthTokens.get? key with
    | none => pure none
    | some cached => do
      let now ← readClock network
      pure (if cached.expiresAtMs > now + 30000 then some cached.token else none)) s = _
  cases s.oauthTokens.get? key <;> rfl

/-- The lifetime of a token that is taken from an answer. -/
theorem lifetime_of_parseTokenResponse {tokenUrl token : Text} {raw : RawResponse}
    {expiresIn : UInt64}
    (h : parseTokenResponse platform network tokenUrl raw = .ok (token, expiresIn)) :
    expiresIn = lifetimeSeconds (statedLifetime platform network raw) := by
  unfold parseTokenResponse at h
  unfold statedLifetime
  dsimp only at h
  split at h
  · exact absurd h (by simp)
  · cases hjson : platform.parseJson (Utf8.encode ((network.bodyText raw).getD [])) with
    | error message =>
      rw [hjson] at h
      exact absurd h (by simp)
    | ok payload =>
      rw [hjson] at h
      dsimp only at h ⊢
      split at h
      · rw [Except.ok.injEq, Prod.mk.injEq] at h
        rw [← h.2]
        unfold lifetimeSeconds
        rfl
      · exact absurd h (by simp)

/-- A request that the token endpoint answers with a token. -/
theorem ask_eq_ok {request : WireRequest Url} {failed : TransportError → EngineError}
    {tokenUrl : Text}
    {answer : Text × UInt64} {s s' : EngineState Url}
    (h : exec (do
        modify fun s => { s with wire := s.wire ++ [request] }
        match network.respond (← get).wire with
        | .error error => throw (failed error)
        | .ok raw =>
          match parseTokenResponse platform network tokenUrl raw with
          | .error error => throw error
          | .ok token => pure token : EngineM Url (Text × UInt64)) s = (.ok answer, s')) :
    s' = { s with wire := s.wire ++ [request] } ∧
      ∃ raw, network.respond s'.wire = .ok raw ∧
        parseTokenResponse platform network tokenUrl raw = .ok answer := by
  -- The request goes out first, whatever is answered.
  have hsent : exec (match network.respond (s.wire ++ [request]) with
      | .error error => throw (failed error)
      | .ok raw =>
        match parseTokenResponse platform network tokenUrl raw with
        | .error error => throw error
        | .ok token => pure token : EngineM Url (Text × UInt64))
      { s with wire := s.wire ++ [request] } = (.ok answer, s') := h
  cases hrespond : network.respond (s.wire ++ [request]) with
  | error error =>
    rw [hrespond] at hsent
    exact absurd (congrArg Prod.fst hsent) (by simp)
  | ok raw =>
    rw [hrespond] at hsent
    dsimp only at hsent
    cases htoken : parseTokenResponse platform network tokenUrl raw with
    | error error =>
      rw [htoken] at hsent
      exact absurd (congrArg Prod.fst hsent) (by simp)
    | ok token =>
      rw [htoken, exec_pure, Prod.mk.injEq, Except.ok.injEq] at hsent
      rw [← hsent.2, ← hsent.1]
      exact ⟨rfl, raw, hrespond, htoken⟩

/-- A token that is fetched: the request for the credentials goes out, and is answered. -/
theorem fetchToken_eq_ok {config : OAuth2} {tokenUrl clientId token : Text}
    {clientSecret scope : Option Text} {expiresIn : UInt64} {s s' : EngineState Url}
    (h : exec (fetchToken platform network config tokenUrl clientId clientSecret scope) s
      = (.ok (token, expiresIn), s')) :
    ∃ grant audience url raw r, grantName config.grant = some grant ∧
      exec (resolveOptional platform.world config.audience) s.resolver = (.ok audience, r) ∧
      network.urls.parse tokenUrl = .ok url ∧
      s' = { s with
        resolver := r
        wire := s.wire ++ [tokenRequest platform network config.credentialsInBody grant url
          { tokenUrl, clientId, clientSecret, grant := config.grant, scope, audience }] } ∧
      network.respond s'.wire = .ok raw ∧
      parseTokenResponse platform network tokenUrl raw = .ok (token, expiresIn) := by
  unfold fetchToken at h
  -- One case for each step that can fail, in the order of the source.
  cases hgrant : grantName config.grant with
  | none =>
    rw [hgrant] at h
    exact absurd (congrArg Prod.fst h) (by simp)
  | some grant =>
    rw [hgrant] at h
    dsimp only at h
    obtain ⟨audience, t, haudience, hrest⟩ := exec_bind_eq_ok.mp h
    obtain ⟨r, hr, rfl⟩ := resolveOption_eq_ok.mp haudience
    -- A client for the token endpoint, and a URL to send to.
    cases hclient : network.tokenClientError with
    | some message =>
      rw [hclient] at hrest
      exact absurd (congrArg Prod.fst hrest) (by simp)
    | none =>
      rw [hclient] at hrest
      cases hparse : network.urls.parse tokenUrl with
      | error message =>
        rw [hparse] at hrest
        exact absurd (congrArg Prod.fst hrest) (by simp)
      | ok url =>
        rw [hparse] at hrest
        dsimp only at hrest
        obtain ⟨hs, raw, hrespond, htoken⟩ := ask_eq_ok hrest
        refine ⟨grant, audience, url, raw, r, rfl, hr, rfl, ?_, hrespond, htoken⟩
        rw [hs]
        rfl

/-- The three parameters of the key, resolved one by one. -/
theorem resolveKey_eq_ok {config : OAuth2} {tokenUrl clientId : Text} {scope : Option Text}
    {r₀ r₁ r₂ r₃ : Resolver}
    (hurl : exec (Resolver.resolve platform.world config.tokenUrl) r₀ = (.ok tokenUrl, r₁))
    (hid : exec (Resolver.resolve platform.world config.clientId) r₁ = (.ok clientId, r₂))
    (hscope : exec (resolveOptional platform.world config.scope) r₂ = (.ok scope, r₃)) :
    exec (resolveKey platform.world config) r₀ = (.ok (tokenUrl, clientId, scope), r₃) := by
  unfold resolveKey
  rw [exec_bind_ok hurl, exec_bind_ok hid, exec_bind_ok hscope]
  rfl

/-- A token was fetched by a call: the call sent the request for its credentials, and the answer
to that request names the token. -/
structure Issue where
  credentials : Credentials
  token : Text
  /-- The `expires_in` of the answer. -/
  stated : Option Json
  /-- The reading of the clock after the answer. -/
  receivedAt : UInt64

variable (platform network) in
/-- The call fetches a token. -/
structure Fetches (tokens : SortedMap Text CachedToken) (l : Lookup Url) (issue : Issue) :
    Prop where
  resolved : l.credentials platform = some issue.credentials
  answered : ∃ grant url raw, grantName issue.credentials.grant = some grant ∧
    network.urls.parse issue.credentials.tokenUrl = .ok url ∧
    (l.run platform network tokens).2.wire = l.state.wire
      ++ [tokenRequest platform network l.config.credentialsInBody grant url issue.credentials] ∧
    network.respond (l.run platform network tokens).2.wire = .ok raw ∧
    parseTokenResponse platform network issue.credentials.tokenUrl raw
      = .ok (issue.token, lifetimeSeconds issue.stated) ∧
    issue.stated = statedLifetime platform network raw
  received : ∃ n, (l.run platform network tokens).2.ticks = n + 1 ∧
    issue.receivedAt = network.clock n

/-- A call that finds no token in the cache. -/
theorem fetchAndStore_eq_ok {config : OAuth2} {tokenUrl clientId key token : Text}
    {scope : Option Text} {s s' : EngineState Url}
    (h : exec (do
        let clientSecret ← resolveOption platform config.clientSecret
        let (token, expiresIn) ←
          fetchToken platform network config tokenUrl clientId clientSecret scope
        let now ← readClock network
        modify fun s => { s with
          oauthTokens := s.oauthTokens.insert key ⟨token, now + expiresIn * 1000⟩ }
        pure token : EngineM Url Text) s = (.ok token, s')) :
    ∃ clientSecret grant audience url raw r₁ r₂ expiresIn,
      exec (resolveOptional platform.world config.clientSecret) s.resolver
        = (.ok clientSecret, r₁) ∧
      exec (resolveOptional platform.world config.audience) r₁ = (.ok audience, r₂) ∧
      grantName config.grant = some grant ∧ network.urls.parse tokenUrl = .ok url ∧
      s'.wire = s.wire ++ [tokenRequest platform network config.credentialsInBody grant url
        { tokenUrl, clientId, clientSecret, grant := config.grant, scope, audience }] ∧
      network.respond s'.wire = .ok raw ∧
      parseTokenResponse platform network tokenUrl raw = .ok (token, expiresIn) ∧
      s'.ticks = s.ticks + 1 ∧
      s'.oauthTokens = s.oauthTokens.insert key
        ⟨token, network.clock s.ticks + expiresIn * 1000⟩ := by
  -- The `do` block step by step: the secret, the fetch, the clock, the store.
  obtain ⟨clientSecret, s₁, hsecret, hfetch⟩ := exec_bind_eq_ok.mp h
  obtain ⟨r₁, hr₁, hs₁⟩ := resolveOption_eq_ok.mp hsecret
  obtain ⟨⟨token', expiresIn⟩, s₂, hfetched, hstore⟩ := exec_bind_eq_ok.mp hfetch
  obtain ⟨grant, audience, url, raw, r₂, hgrant, hr₂, hurl, hs₂, hrespond, htoken⟩ :=
    fetchToken_eq_ok hfetched
  have hend : (Except.ok token', { s₂ with
      ticks := s₂.ticks + 1
      oauthTokens := s₂.oauthTokens.insert key
        ⟨token', network.clock s₂.ticks + expiresIn * 1000⟩ }) = (.ok token, s') := hstore
  rw [Prod.mk.injEq, Except.ok.injEq] at hend
  -- The state behind each call is the one before it, with another resolver.
  rw [hs₁] at hr₂ hs₂
  rw [← hend.1, ← hend.2]
  refine ⟨clientSecret, grant, audience, url, raw, r₁, r₂, expiresIn, hr₁, hr₂, hgrant, hurl,
    ?_, hrespond, htoken, ?_, ?_⟩
  · rw [hs₂]
  · rw [hs₂]
  · rw [hs₂]

/-- A call that goes on to the token endpoint, from the state after its cache lookup. -/
theorem fetches_of_stored {tokens : SortedMap Text CachedToken} {l : Lookup Url}
    {tokenUrl clientId key token : Text} {scope : Option Text} {r : Resolver}
    {s s' : EngineState Url} (hrun : l.run platform network tokens = (.ok token, s'))
    (hkeys : exec (resolveKey platform.world l.config) l.state.resolver
      = (.ok (tokenUrl, clientId, scope), r))
    (hresolver : s.resolver = r) (hwire : s.wire = l.state.wire) (htokens : s.oauthTokens = tokens)
    (h : exec (do
        let clientSecret ← resolveOption platform l.config.clientSecret
        let (token, expiresIn) ←
          fetchToken platform network l.config tokenUrl clientId clientSecret scope
        let now ← readClock network
        modify fun s => { s with
          oauthTokens := s.oauthTokens.insert key ⟨token, now + expiresIn * 1000⟩ }
        pure token : EngineM Url Text) s = (.ok token, s')) :
    ∃ issue, Fetches platform network tokens l issue ∧ issue.token = token ∧
      s'.oauthTokens = tokens.insert key
        ⟨token, issue.receivedAt + lifetimeSeconds issue.stated * 1000⟩ := by
  obtain ⟨clientSecret, grant, audience, url, raw, r₁, r₂, expiresIn, hsecret, haudience, hgrant,
    hurl, hsent, hrespond, htoken, hticks, hstored⟩ := fetchAndStore_eq_ok h
  rw [hresolver] at hsecret
  -- The credentials of the lookup are the ones that the call resolved on its way.
  have hcredentials : l.credentials platform = some
      { tokenUrl, clientId, clientSecret, grant := l.config.grant, scope, audience } := by
    unfold Lookup.credentials resolveCredentials
    rw [exec_bind_ok hkeys]
    dsimp only
    rw [exec_bind_ok hsecret, exec_bind_ok haudience]
    rfl
  have hlifetime := lifetime_of_parseTokenResponse htoken
  refine ⟨⟨_, token, statedLifetime platform network raw, network.clock s.ticks⟩,
    ⟨hcredentials, ⟨grant, url, raw, hgrant, hurl, ?_, ?_, ?_, rfl⟩, ⟨s.ticks, ?_, rfl⟩⟩, rfl, ?_⟩
  -- The request, its answer, the token in it, and when it was received.
  · rw [hrun, ← hwire]
    exact hsent
  · rw [hrun]
    exact hrespond
  · rw [← hlifetime]
    exact htoken
  · rw [hrun]
    exact hticks
  · rw [hstored, htokens, hlifetime]

/-- What a call that returns a token does: it returns a fresh entry of the cache, or it fetches a
token and stores it. -/
theorem run_cases {tokens : SortedMap Text CachedToken} {l : Lookup Url} {token : Text}
    {s' : EngineState Url} (h : l.run platform network tokens = (.ok token, s')) :
    ∃ key, l.key platform = some key ∧
      ((∃ cached, tokens.get? key = some cached ∧ l.Fresh network cached ∧ token = cached.token ∧
        s'.oauthTokens = tokens) ∨
      ∃ issue, Fetches platform network tokens l issue ∧ issue.token = token ∧
        s'.oauthTokens = tokens.insert key
          ⟨token, issue.receivedAt + lifetimeSeconds issue.stated * 1000⟩) := by
  have hrun := h
  unfold Lookup.run oauthToken at h
  -- The key is resolved before the cache is asked.
  obtain ⟨tokenUrl, s₁, hurl, h₁⟩ := exec_bind_eq_ok.mp h
  obtain ⟨r₁, hr₁, hs₁⟩ := resolveText_eq_ok.mp hurl
  obtain ⟨clientId, s₂, hid, h₂⟩ := exec_bind_eq_ok.mp h₁
  obtain ⟨r₂, hr₂, hs₂⟩ := resolveText_eq_ok.mp hid
  obtain ⟨scope, s₃, hscope, h₃⟩ := exec_bind_eq_ok.mp h₂
  obtain ⟨r₃, hr₃, hs₃⟩ := resolveOption_eq_ok.mp hscope
  rw [hs₁] at hr₂ hs₂
  rw [hs₂] at hr₃ hs₃
  have hkeys := resolveKey_eq_ok hr₁ hr₂ hr₃
  have hkey : l.key platform = some (cacheKey tokenUrl clientId scope) := by
    unfold Lookup.key
    rw [hkeys]
  refine ⟨_, hkey, ?_⟩
  -- Resolving has changed nothing that the rest looks at.
  have hresolver : s₃.resolver = r₃ := by rw [hs₃]
  have hwire : s₃.wire = l.state.wire := by rw [hs₃]
  have htokens : s₃.oauthTokens = tokens := by rw [hs₃]
  have hticks : s₃.ticks = l.state.ticks := by rw [hs₃]
  rw [exec_bind] at h₃
  have hasked := cachedToken_exec network (cacheKey tokenUrl clientId scope) s₃
  rw [htokens, hticks] at hasked
  -- Nothing is cached under the key; or there is an entry, which is fresh or has to be replaced.
  cases hget : tokens.get? (cacheKey tokenUrl clientId scope) with
  | none =>
    rw [hget] at hasked
    unfold cacheKey at hasked
    rw [hasked] at h₃
    exact Or.inr (fetches_of_stored hrun hkeys hresolver hwire htokens h₃)
  | some cached =>
    rw [hget] at hasked
    unfold cacheKey at hasked
    dsimp only at hasked
    by_cases hfresh : cached.expiresAtMs > network.clock l.state.ticks + 30000
    · rw [if_pos hfresh] at hasked
      rw [hasked] at h₃
      have hend : (Except.ok cached.token, { s₃ with
          oauthTokens := tokens, ticks := l.state.ticks + 1 }) = (Except.ok token, s') := h₃
      rw [Prod.mk.injEq, Except.ok.injEq] at hend
      refine Or.inl ⟨cached, rfl, hfresh, hend.1.symm, ?_⟩
      rw [← hend.2]
    · rw [if_neg hfresh] at hasked
      rw [hasked] at h₃
      refine Or.inr (fetches_of_stored hrun hkeys ?_ ?_ ?_ h₃)
      · exact hresolver
      · exact hwire
      · rfl

/-- A call that fails leaves the cache. -/
theorem tokens_of_run_error {tokens : SortedMap Text CachedToken} {l : Lookup Url}
    {error : EngineError} {s' : EngineState Url}
    (h : l.run platform network tokens = (.error error, s')) : s'.oauthTokens = tokens := by
  -- A part that fails leaves the cache, and so does every part before it.
  have hkeep : ∀ {α : Type} {call : EngineM Url α} {s t : EngineState Url} {out : Except _ α},
      Keeps Asks call → exec call s = (out, t) → s.oauthTokens = tokens →
        t.oauthTokens = tokens := by
    intro α call s t out hcall hout hs
    have hasks := (hcall s).tokens
    rw [hout] at hasks
    exact hasks.trans hs
  have htext : ∀ template, Keeps Asks (resolveText platform template : EngineM Url Text) :=
    fun template => keeps_asks_of_offline (resolveText_keeps platform template)
  unfold Lookup.run oauthToken at h
  rcases exec_bind_eq_error.mp h with hfail | ⟨tokenUrl, s₁, hurl, h₁⟩
  · exact hkeep (htext _) hfail rfl
  have hs₁ := hkeep (htext _) hurl rfl
  rcases exec_bind_eq_error.mp h₁ with hfail | ⟨clientId, s₂, hid, h₂⟩
  · exact hkeep (htext _) hfail hs₁
  have hs₂ := hkeep (htext _) hid hs₁
  rcases exec_bind_eq_error.mp h₂ with hfail | ⟨scope, s₃, hscope, h₃⟩
  · exact hkeep (resolveOption_keeps platform _) hfail hs₂
  have hs₃ := hkeep (resolveOption_keeps platform _) hscope hs₂
  rcases exec_bind_eq_error.mp h₃ with hfail | ⟨cached, s₄, hcached, h₄⟩
  · exact hkeep (cachedToken_keeps network _) hfail hs₃
  have hs₄ := hkeep (cachedToken_keeps network _) hcached hs₃
  cases cached with
  | some token => exact absurd (congrArg Prod.fst h₄) (by simp)
  | none =>
    dsimp only at h₄
    rcases exec_bind_eq_error.mp h₄ with hfail | ⟨clientSecret, s₅, hsecret, h₅⟩
    · exact hkeep (resolveOption_keeps platform _) hfail hs₄
    have hs₅ := hkeep (resolveOption_keeps platform _) hsecret hs₄
    rcases exec_bind_eq_error.mp h₅ with hfail | ⟨fetched, s₆, hfetched, h₆⟩
    · exact hkeep (fetchToken_keeps platform network _ _ _ _ _) hfail hs₅
    -- What is left stores the token, and cannot fail.
    have hend : (Except.ok fetched.1, _) = (Except.error error, s') := h₆
    exact absurd (congrArg Prod.fst hend) (by simp)

end Steps

/-! ### A run of calls -/

section Runs

variable (platform : Platform) (network : Network Url)

/-- A call of the run so far fetched a token. -/
def FetchedIn (pre : List (Lookup Url)) (l : Lookup Url) (issue : Issue) : Prop :=
  ∃ before after, pre = before ++ l :: after ∧
    Fetches platform network (tokensAfter platform network before) l issue

/-- Every entry of the cache is the answer to a call of the run so far, with its key. -/
def Accounted (pre : List (Lookup Url)) : Prop :=
  ∀ key cached, (tokensAfter platform network pre).get? key = some cached →
    ∃ l issue, FetchedIn platform network pre l issue ∧ l.key platform = some key ∧
      issue.token = cached.token ∧
      cached.expiresAtMs = issue.receivedAt + lifetimeSeconds issue.stated * 1000

/-- Every returned token was issued for the credentials of the call that returns it: by this
call, or by an earlier one and within the lifetime that the endpoint stated. -/
def TokensOwn (ls : List (Lookup Url)) : Prop :=
  ∀ pre l post token s', ls = pre ++ l :: post →
    l.run platform network (tokensAfter platform network pre) = (.ok token, s') →
    ∃ issue, l.credentials platform = some issue.credentials ∧ issue.token = token ∧
      (Fetches platform network (tokensAfter platform network pre) l issue ∨
        (∃ l', FetchedIn platform network pre l' issue) ∧
          LifetimeOpen issue.stated issue.receivedAt (network.clock l.state.ticks))

/-- When the cache has a fresh entry under the key of a call, the earlier calls with that key have
its credentials. -/
def LookupClear (pre : List (Lookup Url)) (l : Lookup Url) : Prop :=
  ∀ key cached, l.key platform = some key →
    (tokensAfter platform network pre).get? key = some cached → l.Fresh network cached →
      ∀ l' ∈ pre, l'.key platform = some key →
        ∀ c, l'.credentials platform = some c → l.credentials platform = some c

/-- The endpoint states lifetimes as whole numbers of seconds, or states none. -/
def PlainLifetimes : Prop :=
  ∀ wire raw, network.respond wire = .ok raw →
    PlainLifetime (statedLifetime platform network raw)

variable {platform network}

/-- The tokens after one more lookup. -/
theorem tokensAfter_snoc (pre : List (Lookup Url)) (l : Lookup Url) :
    tokensAfter platform network (pre ++ [l])
      = (l.run platform network (tokensAfter platform network pre)).2.oauthTokens := by
  unfold tokensAfter
  rw [List.foldl_append, List.foldl_cons, List.foldl_nil]

/-- A longer run has fetched what a shorter one has. -/
theorem FetchedIn.snoc {pre : List (Lookup Url)} {l : Lookup Url} {issue : Issue}
    (h : FetchedIn platform network pre l issue) (last : Lookup Url) :
    FetchedIn platform network (pre ++ [last]) l issue := by
  obtain ⟨before, after, hsplit, hfetches⟩ := h
  refine ⟨before, after ++ [last], ?_, hfetches⟩
  rw [hsplit, List.append_assoc, List.cons_append]

/-- The cache is accounted for after every run. -/
theorem accounted (ls : List (Lookup Url)) : Accounted platform network ls := by
  induction ls using List.reverseRecOn with
  | nil =>
    intro key cached h
    exact absurd h (by simp [tokensAfter])
  | append_singleton pre l ih =>
    intro key cached h
    rw [tokensAfter_snoc] at h
    -- What the call leaves of the cache is accounted for by the run before it.
    have hold : (tokensAfter platform network pre).get? key = some cached →
        ∃ l' issue, FetchedIn platform network (pre ++ [l]) l' issue ∧
          l'.key platform = some key ∧ issue.token = cached.token ∧
          cached.expiresAtMs = issue.receivedAt + lifetimeSeconds issue.stated * 1000 := by
      intro hget
      obtain ⟨l', issue, hfetched, hrest⟩ := ih key cached hget
      exact ⟨l', issue, hfetched.snoc l, hrest⟩
    rcases hrun : l.run platform network (tokensAfter platform network pre) with ⟨out, s'⟩
    rw [hrun] at h
    cases out with
    | error error =>
      rw [tokens_of_run_error hrun] at h
      exact hold h
    | ok token =>
      obtain ⟨key', hkey, ⟨entry, -, -, -, hsame⟩ | ⟨issue, hfetches, htoken, hstored⟩⟩ :=
        run_cases hrun
      · rw [hsame] at h
        exact hold h
      · rw [hstored, SortedMap.get?_insert] at h
        by_cases hk : key = key'
        · rw [if_pos hk] at h
          rw [← Option.some.inj h, hk]
          exact ⟨l, issue, ⟨pre, [], rfl, hfetches⟩, hkey, htoken, rfl⟩
        · rw [if_neg hk] at h
          exact hold h

/-- A fresh entry is within the lifetime that it was stored with. -/
theorem lifetimeOpen_of_fresh {stated : Option Json} {receivedAt nowMs expiresAtMs : UInt64}
    (hnow : nowMs.toNat + 30000 < 2 ^ 64)
    (hplain : PlainLifetime stated)
    (hexpires : expiresAtMs = receivedAt + lifetimeSeconds stated * 1000)
    (hfresh : expiresAtMs > nowMs + 30000) : LifetimeOpen stated receivedAt nowMs := by
  unfold LifetimeOpen
  unfold PlainLifetime at hplain
  split
  · trivial
  · trivial
  · rename_i seconds
    have hthirty : (30000 : UInt64).toNat = 30000 := rfl
    have hlt : (nowMs + 30000).toNat < expiresAtMs.toNat := UInt64.lt_iff_toNat_lt.mp hfresh
    rw [UInt64.toNat_add, hthirty, Nat.mod_eq_of_lt hnow] at hlt
    -- The sum and the product wrap around, which makes the expiry earlier.
    have hle : expiresAtMs.toNat ≤ receivedAt.toNat + seconds.toNat * 1000 := by
      rw [hexpires]
      show (receivedAt + seconds * 1000).toNat ≤ _
      rw [UInt64.toNat_add, UInt64.toNat_mul]
      exact (Nat.mod_le _ _).trans (Nat.add_le_add_left (Nat.mod_le _ _) _)
    omega
  · split at hplain <;> simp_all

/-- **Tokens are not shared between credentials when no two calls share a key.** In every run of
calls from the empty cache, with clock readings below the last 30 seconds of their range and
endpoints that state lifetimes as whole seconds: when every call whose key has a fresh entry has
the credentials of the earlier calls with that key, every returned token was issued for the
credentials of the call that returns it, and is within its stated lifetime. -/
theorem tokensOwn_of_clear (platform : Platform) (network : Network Url) (ls : List (Lookup Url))
    (hclock : ∀ n, (network.clock n).toNat + 30000 < 2 ^ 64)
    (hplain : PlainLifetimes platform network)
    (hclear : ∀ pre l post, ls = pre ++ l :: post → LookupClear platform network pre l) :
    TokensOwn platform network ls := by
  intro pre l post token s' hsplit hrun
  obtain ⟨key, hkey, ⟨cached, hget, hfresh, htoken, -⟩ | ⟨issue, hfetches, htoken, -⟩⟩ :=
    run_cases hrun
  · obtain ⟨l', issue, hfetched, hkey', hcached, hexpires⟩ := accounted pre key cached hget
    obtain ⟨before, after, hpre, hfetches⟩ := hfetched
    have hmem : l' ∈ pre := by
      rw [hpre]
      exact List.mem_append_right _ List.mem_cons_self
    have hsame := hclear pre l post hsplit key cached hkey hget hfresh l' hmem hkey' _
      hfetches.resolved
    obtain ⟨grant, url, raw, -, -, -, hrespond, -, hstated⟩ := hfetches.answered
    have hform := hplain _ raw hrespond
    rw [← hstated] at hform
    exact ⟨issue, hsame, hcached.trans htoken.symm, Or.inr ⟨⟨l', before, after, hpre, hfetches⟩,
      lifetimeOpen_of_fresh (hclock _) hform hexpires hfresh⟩⟩
  · exact ⟨issue, hfetches.resolved, htoken, Or.inl hfetches⟩

/-- A platform where every text is the answer of a token endpoint. -/
def tokenPlatform : Platform :=
  { emptyPlatform with
    parseJson := fun _ => .ok (.object [("access_token".toList, .string "t1".toList),
      ("expires_in".toList, .number (.posInt 3600))]) }

/-- A call for the token of an application, on a new engine. -/
def appLookup (audience : Option Text) : Lookup (Text × Text) :=
  { config :=
      { grant := .clientCredentials, tokenUrl := "https://auth.test/token".toList,
        authorizeUrl := none, redirectUri := none, clientId := "app".toList,
        clientSecret := some "s3cret".toList, scope := none, audience,
        credentialsInBody := false }
    state := .fresh }

/-- Two calls for one token. -/
theorem tokensOwn_of_clear_twice :
    TokensOwn tokenPlatform (scriptedNetwork []) [appLookup none, appLookup none] := by
  have hclock : (0 : UInt64).toNat + 30000 < 2 ^ 64 := by decide
  refine tokensOwn_of_clear _ _ _ (fun _ => hclock) (fun wire raw _ => trivial) ?_
  intro pre l post hsplit key cached _ _ _ l' hl' _ c hc
  have hall : ∀ m ∈ pre ++ l :: post, m = appLookup none := by
    rw [← hsplit]
    simp
  rw [hall l' (List.mem_append_left _ hl')] at hc
  rw [hall l (List.mem_append_right _ List.mem_cons_self)]
  exact hc

/-- A second call that asks for another audience gets the token of the first. -/
theorem not_tokensOwn_audience : ¬ TokensOwn tokenPlatform (scriptedNetwork [])
    [appLookup none, appLookup (some "billing".toList)] := by
  intro hown
  have hcached : okWith (fun _ s' => decide (s'.wire = []))
      ((appLookup (some "billing".toList)).run tokenPlatform (scriptedNetwork [])
        (tokensAfter tokenPlatform (scriptedNetwork []) [appLookup none])) = true := by
    decide +kernel
  have hother : (appLookup none).credentials tokenPlatform
      ≠ (appLookup (some "billing".toList)).credentials tokenPlatform := by decide +kernel
  -- The second call is answered from the cache: its wire is empty.
  obtain ⟨token, s', hrun, hsilent⟩ := exists_of_okWith hcached
  have hnil : s'.wire = [] := of_decide_eq_true hsilent
  obtain ⟨issue, hsame, -, hfetches | ⟨⟨l', before, after, hsplit, hfetches⟩, -⟩⟩ :=
    hown [appLookup none] (appLookup (some "billing".toList)) [] token s' rfl hrun
  · -- The second call sends nothing.
    obtain ⟨grant, url, raw, -, -, hwire, -⟩ := hfetches.answered
    rw [hrun] at hwire
    exact absurd (hwire.symm.trans hnil) (by simp)
  -- And the only call before it asked for another audience.
  · have hfirst : l' = appLookup none := by
      have hmem : l' ∈ [appLookup none] := by
        rw [hsplit]
        exact List.mem_append_right _ List.mem_cons_self
      exact List.mem_singleton.mp hmem
    have hresolved := hfetches.resolved
    rw [hfirst, ← hsame] at hresolved
    exact hother hresolved

end Runs

end Gabriel.Engine
