import Gabriel.Cli.Run
import Gabriel.Proofs.Report

/-!
# `Gabriel.Proofs.Consent`: is anything that acts sent without consent?

`Consented` is the promise of the gate: nothing goes out with `--dry-run`, and a request that does
more than read goes out with `--yes`, or after the user has said yes to the prompt of that target.
It is said of the events of a run, the answers and the requests in their order, so that the answer
has to come before the request and belong to the same target (`Cleared`).

Every round of the loop keeps the promise: it adds the answer to its own prompt and then what it
sends, and it sends only what the gate let through. Following a stream does not reach the gate. It
keeps the promise only when it needed no consent, or when it stops before its first send (`Stops`).
That is said by its steps: a text that does not resolve, a URL that does not parse, a client that
refuses to build. The case of an authentication that fetches a token stands on its own, since the
token request is the first one on the wire (`oauthToken_asks`). The theorems:

* `executeStream_silent_iff`: a stream puts nothing on the wire exactly when it `Stops`.
* `runTarget_round`: a round adds events of its own target, let through before they are sent.
* `runTargets_accounted`: from any target on, the loop keeps the events cleared (`Accounted`), by
  induction over the targets.
* `stream_accounted_iff`: a stream is accounted for when it would have passed the gate, or stops.
* `consented_iff`: nothing that acts is sent without consent exactly when no stream is followed, or
  when it is one of these.

`not_consented_dryRun` is the dry run of a stream that deletes a user.
-/

set_option autoImplicit false

namespace Gabriel.Cli

open Gabriel.Core Gabriel.Engine Text Fallible

variable {Url : Type}

/-! ### The wire of one engine call -/

section Wire

variable (platform : Platform) (network : Network Url) (ctx : RunContext) (spec : RequestSpec)

/-- The wire only grows. -/
def Grows (s t : EngineState Url) : Prop := s.wire <+: t.wire

/-- The wire stays. -/
def SameWire (s t : EngineState Url) : Prop := t.wire = s.wire

/-- The wire stays over two calls. -/
theorem sameWire_trans (s t u : EngineState Url) (hst : SameWire s t) (htu : SameWire t u) :
    SameWire s u := htu.trans hst

/-- A run of a request only adds to the wire. -/
theorem execute_grows : Keeps Grows (execute platform network ctx spec) := by
  intro s
  have hbefore := (makeReady_before platform network ctx spec false s).wire
  rcases hready : exec (makeReady platform network ctx spec false) s with ⟨error | ready, s₁⟩
  · rw [hready] at hbefore
    rw [execute_of_error hready]
    exact hbefore
  · rw [hready] at hbefore
    rw [execute_of_ready hready]
    show s.wire <+: (exec (runReady platform network ctx spec ready) s₁).2.wire
    rw [runReady_wire]
    exact hbefore.trans (List.prefix_append s₁.wire _)

/-- A stream only adds to the wire. -/
theorem executeStream_grows : Keeps Grows (executeStream platform network ctx spec) := by
  intro s
  have hbefore := (makeReady_before platform network ctx spec true s).wire
  rcases hready : exec (makeReady platform network ctx spec true) s with ⟨error | ready, s₁⟩
  · rw [hready] at hbefore
    show s.wire <+: (exec (executeStream platform network ctx spec) s).2.wire
    unfold executeStream
    rw [exec_bind_error hready]
    exact hbefore
  · rw [hready] at hbefore
    show s.wire <+: (exec (executeStream platform network ctx spec) s).2.wire
    rw [(executeStream_state hready).1]
    exact hbefore.trans (List.prefix_append s₁.wire _)

/-- A request that is only shown stays off the wire. -/
theorem prepare_sameWire : Keeps SameWire (prepare platform network ctx spec) := by
  have hoffline : ∀ {α : Type} {call : EngineM Url α}, Keeps Offline call → Keeps SameWire call :=
    fun hcall s => (hcall s).wire
  unfold prepare
  refine keeps_bind sameWire_trans
    (hoffline (prepareParts_keeps platform network ctx spec false)) ?_
  intro parts
  refine keeps_bind sameWire_trans
    (hoffline (applyKnownAuth_keeps platform network parts.url spec.auth)) ?_
  rintro ⟨url, authHeaders⟩
  refine keeps_bind sameWire_trans ?_ ?_
  · unfold prepareCookie
    split
    · exact fun s => rfl
    · exact fun s => rfl
  · exact fun cookie s => rfl

/-- So it only adds to it. -/
theorem prepare_grows : Keeps Grows (prepare platform network ctx spec) := by
  intro s
  have hsame : (exec (prepare platform network ctx spec) s).2.wire = s.wire :=
    prepare_sameWire platform network ctx spec s
  show s.wire <+: (exec (prepare platform network ctx spec) s).2.wire
  rw [hsame]

end Wire

/-! ### What a stream does before it sends -/

section Before

variable (platform : Platform) (network : Network Url) (ctx : RunContext) (spec : RequestSpec)

/-- A call fails. -/
def Fails {α : Type} (call : EngineM Url α) (s : EngineState Url) : Prop :=
  ∃ error, (exec call s).1 = .error error

/-- A call puts nothing on the wire. -/
def Silent {α : Type} (call : EngineM Url α) (s : EngineState Url) : Prop :=
  (exec call s).2.wire = s.wire

/-- The texts of a token request; the first one is the address of the token endpoint. -/
def tokenTexts (config : OAuth2) : EngineM Url Text := do
  let tokenUrl ← resolveText platform config.tokenUrl
  let _clientId ← resolveText platform config.clientId
  let _scope ← resolveOption platform config.scope
  let _clientSecret ← resolveOption platform config.clientSecret
  let _audience ← resolveOption platform config.audience
  pure tokenUrl

/-- The token endpoint is not asked: the grant needs a browser, there is no client for it, one of
its texts does not resolve, or its address is no URL. -/
def TokenUnasked (config : OAuth2) (s : EngineState Url) : Prop :=
  grantName config.grant = none ∨ network.tokenClientError.isSome = true ∨
    match (exec (tokenTexts platform config) s).1 with
    | .error _ => True
    | .ok tokenUrl => (network.urls.parse tokenUrl).toOption = none

/-- A stream stops before its first send. When its authentication fetches a token, a step before
the token request fails. Otherwise the preparation fails, or the client refuses to build the
request: one of its headers is none. -/
def Stops (s : EngineState Url) : Prop :=
  match spec.auth with
  | some (.oAuth2 config) =>
    Fails (prepareParts platform network ctx spec true) s ∨
      ∃ parts t, exec (prepareParts platform network ctx spec true) s = (.ok parts, t) ∧
        TokenUnasked platform network config t
  | _ =>
    Fails (makeReady platform network ctx spec true) s ∨
      ∃ ready t, exec (makeReady platform network ctx spec true) s = (.ok ready, t) ∧
        builds network ((firstTurn spec ready t).request network ctx spec) = false

/-- An optional template stays off the wire. -/
theorem resolveOption_offline (template : Option Text) :
    Keeps Offline (resolveOption platform template : EngineM Url (Option Text)) := by
  cases template with
  | none => exact keeps_pure offline_refl _
  | some template =>
    refine keeps_bind offline_trans (resolveText_keeps platform template) ?_
    intro text
    exact keeps_pure offline_refl _

variable {platform network} in
/-- A request to the token endpoint is on the wire, once its texts are there and nothing stands
against it. -/
theorem fetchToken_sends {config : OAuth2} {tokenUrl clientId grant : Text}
    {clientSecret scope audience : Option Text} {s t : EngineState Url} {url : Url}
    (hgrant : grantName config.grant = some grant)
    (haudience : exec (resolveOption platform config.audience) s = (.ok audience, t))
    (hclient : network.tokenClientError = none) (hurl : network.urls.parse tokenUrl = .ok url) :
    ∃ request, (exec (fetchToken platform network config tokenUrl clientId clientSecret scope)
      s).2.wire = s.wire ++ [request] := by
  -- Resolving the audience sends nothing.
  have hwire : t.wire = s.wire := by
    have hoffline := resolveOption_offline platform config.audience s
    rw [haudience] at hoffline
    exact Offline.wire hoffline
  unfold fetchToken
  rw [hgrant]
  dsimp only
  rw [exec_bind_ok haudience, hclient]
  dsimp only
  rw [hurl]
  dsimp only
  rw [exec_bind_ok (exec_modify _ _), exec_bind_ok (exec_get _)]
  rw [← hwire]
  -- The request is on the wire before the answer is looked at.
  split
  · exact ⟨_, rfl⟩
  · split
    · exact ⟨_, rfl⟩
    · exact ⟨_, rfl⟩

variable {platform network} in
/-- Otherwise the fetch fails, and nothing is. -/
theorem fetchToken_unasked {config : OAuth2} {tokenUrl clientId : Text}
    {clientSecret scope : Option Text} {s : EngineState Url}
    (h : grantName config.grant = none ∨ network.tokenClientError.isSome = true ∨
      Fails (resolveOption platform config.audience) s ∨
      (network.urls.parse tokenUrl).toOption = none) :
    Fails (fetchToken platform network config tokenUrl clientId clientSecret scope) s ∧
      Silent (fetchToken platform network config tokenUrl clientId clientSecret scope) s := by
  have hoffline := resolveOption_offline platform config.audience s
  unfold fetchToken Fails Silent
  cases hgrant : grantName config.grant with
  | none => exact ⟨⟨_, rfl⟩, rfl⟩
  | some grant =>
    dsimp only
    rw [exec_bind]
    rcases haudience : exec (resolveOption platform config.audience) s with ⟨error | audience, t⟩
    all_goals
      rw [haudience] at hoffline
    · exact ⟨⟨error, rfl⟩, Offline.wire hoffline⟩
    · have hwire : t.wire = s.wire := Offline.wire hoffline
      dsimp only
      cases hclient : network.tokenClientError with
      | some message => exact ⟨⟨_, rfl⟩, hwire⟩
      | none =>
        dsimp only
        cases hurl : network.urls.parse tokenUrl with
        | error message => exact ⟨⟨_, rfl⟩, hwire⟩
        | ok url =>
          -- Nothing stands against the request.
          rcases h with hno | hno | ⟨error, hno⟩ | hno
          · exact absurd hno (by simp [hgrant])
          · exact absurd hno (by simp [hclient])
          · rw [haudience] at hno
            exact absurd hno (by simp)
          · exact absurd hno (by simp [hurl, Except.toOption])

/-- Without a cached token, the endpoint is asked, or the call fails and puts nothing on the
wire. -/
theorem oauthToken_asks (config : OAuth2) {s : EngineState Url}
    (hempty : s.oauthTokens = SortedMap.empty) :
    (TokenUnasked platform network config s ∧ Fails (oauthToken platform network config) s ∧
        Silent (oauthToken platform network config) s) ∨
      (¬ TokenUnasked platform network config s ∧
        ∃ request, s.wire ++ [request]
          <+: (exec (oauthToken platform network config) s).2.wire) := by
  -- A text that does not resolve ends both calls at the same place.
  have hstop : ∀ {error : EngineError} {t : EngineState Url}, Offline s t →
      exec (oauthToken platform network config) s = (.error error, t) →
      exec (tokenTexts platform config) s = (.error error, t) →
      TokenUnasked platform network config s ∧ Fails (oauthToken platform network config) s ∧
        Silent (oauthToken platform network config) s := by
    intro error t hoffline hcall htexts
    unfold TokenUnasked Fails Silent
    rw [hcall, htexts]
    exact ⟨Or.inr (Or.inr trivial), ⟨error, rfl⟩, hoffline.wire⟩
  have hurl := @resolveText_keeps Url platform config.tokenUrl s
  rcases htokenUrl : exec (resolveText platform config.tokenUrl) s with ⟨error | tokenUrl, s₁⟩
  all_goals
    rw [htokenUrl] at hurl
  · exact Or.inl (hstop hurl (by unfold oauthToken; rw [exec_bind_error htokenUrl])
      (by unfold tokenTexts; rw [exec_bind_error htokenUrl]))
  have hid := offline_trans s s₁ _ hurl (resolveText_keeps platform config.clientId s₁)
  rcases hclientId : exec (resolveText platform config.clientId) s₁ with ⟨error | clientId, s₂⟩
  all_goals
    rw [hclientId] at hid
  · exact Or.inl (hstop hid
      (by unfold oauthToken; rw [exec_bind_ok htokenUrl, exec_bind_error hclientId])
      (by unfold tokenTexts; rw [exec_bind_ok htokenUrl, exec_bind_error hclientId]))
  have hsc := offline_trans s s₂ _ hid (resolveOption_offline platform config.scope s₂)
  rcases hscope : exec (resolveOption platform config.scope) s₂ with ⟨error | scope, s₃⟩
  all_goals
    rw [hscope] at hsc
  · exact Or.inl (hstop hsc
      (by unfold oauthToken
          rw [exec_bind_ok htokenUrl, exec_bind_ok hclientId, exec_bind_error hscope])
      (by unfold tokenTexts
          rw [exec_bind_ok htokenUrl, exec_bind_ok hclientId, exec_bind_error hscope]))
  -- No token is cached.
  have hnone : exec (cachedToken network (tokenUrl ++ '|' :: clientId ++ '|' :: scope.getD [])) s₃
      = (.ok none, s₃) := by
    have htokens : s₃.oauthTokens = SortedMap.empty := (Offline.tokens hsc).trans hempty
    unfold cachedToken
    rw [exec_bind_ok (exec_get s₃), htokens]
    rfl
  have hsec := offline_trans s s₃ _ hsc (resolveOption_offline platform config.clientSecret s₃)
  rcases hsecret : exec (resolveOption platform config.clientSecret) s₃
    with ⟨error | clientSecret, s₄⟩
  all_goals
    rw [hsecret] at hsec
  · exact Or.inl (hstop hsec
      (by unfold oauthToken
          rw [exec_bind_ok htokenUrl, exec_bind_ok hclientId, exec_bind_ok hscope,
            exec_bind_ok hnone, exec_bind_error hsecret])
      (by unfold tokenTexts
          rw [exec_bind_ok htokenUrl, exec_bind_ok hclientId, exec_bind_ok hscope,
            exec_bind_error hsecret]))
  have hcall : exec (oauthToken platform network config) s = exec (do
      let fetched ← fetchToken platform network config tokenUrl clientId clientSecret scope
      let now ← readClock network
      modify fun s => { s with
        oauthTokens := s.oauthTokens.insert (tokenUrl ++ '|' :: clientId ++ '|' :: scope.getD [])
          ⟨fetched.1, now + fetched.2 * 1000⟩ }
      pure fetched.1) s₄ := by
    unfold oauthToken
    rw [exec_bind_ok htokenUrl, exec_bind_ok hclientId, exec_bind_ok hscope, exec_bind_ok hnone]
    exact exec_bind_ok hsecret
  have htexts : (exec (tokenTexts platform config) s).1
      = (exec (resolveOption platform config.audience) s₄).1.map fun _ => tokenUrl := by
    unfold tokenTexts
    rw [exec_bind_ok htokenUrl, exec_bind_ok hclientId, exec_bind_ok hscope, exec_bind_ok hsecret,
      exec_bind]
    rcases exec (resolveOption platform config.audience) s₄ with ⟨_ | _, _⟩ <;> rfl
  have hwire : s₄.wire = s.wire := hsec.wire
  by_cases hasked : TokenUnasked platform network config s
  · left
    have hunasked : grantName config.grant = none ∨ network.tokenClientError.isSome = true ∨
        Fails (resolveOption platform config.audience) s₄ ∨
        (network.urls.parse tokenUrl).toOption = none := by
      unfold TokenUnasked at hasked
      rw [htexts] at hasked
      refine hasked.imp_right fun h => h.imp_right fun h => ?_
      cases haudience : (exec (resolveOption platform config.audience) s₄).1 with
      | error error => exact Or.inl ⟨error, haudience⟩
      | ok audience =>
        rw [haudience] at h
        exact Or.inr h
    obtain ⟨⟨error, hfails⟩, hsilent⟩ :
        Fails (fetchToken platform network config tokenUrl clientId clientSecret scope) s₄ ∧
          Silent (fetchToken platform network config tokenUrl clientId clientSecret scope) s₄ :=
      fetchToken_unasked hunasked
    unfold Silent at hsilent
    rcases hfetch : exec (fetchToken platform network config tokenUrl clientId clientSecret scope)
      s₄ with ⟨result, t⟩
    rw [hfetch] at hfails hsilent
    obtain rfl : result = .error error := hfails
    unfold Fails Silent
    rw [hcall, exec_bind_error hfetch]
    exact ⟨hasked, ⟨error, rfl⟩, hsilent.trans hwire⟩
  · right
    refine ⟨hasked, ?_⟩
    unfold TokenUnasked at hasked
    rw [htexts] at hasked
    obtain ⟨hgrant, hrest⟩ := not_or.mp hasked
    obtain ⟨hclient, hurl⟩ := not_or.mp hrest
    obtain ⟨grant, hgrant⟩ := Option.ne_none_iff_exists'.mp hgrant
    rcases haudience : exec (resolveOption platform config.audience) s₄ with ⟨error | audience, t⟩
    · rw [haudience] at hurl
      exact absurd trivial hurl
    · rw [haudience] at hurl
      cases hparse : network.urls.parse tokenUrl with
      | error message =>
        refine absurd ?_ hurl
        show (network.urls.parse tokenUrl).toOption = none
        rw [hparse]
        rfl
      | ok url =>
        obtain ⟨request, hsent⟩ : ∃ request,
            (exec (fetchToken platform network config tokenUrl clientId clientSecret scope)
              s₄).2.wire = s₄.wire ++ [request] :=
          fetchToken_sends hgrant haudience (by simpa using hclient) hparse
        refine ⟨request, ?_⟩
        rw [hcall, exec_bind, ← hwire, ← hsent]
        rcases hfetch : exec (fetchToken platform network config tokenUrl clientId clientSecret
          scope) s₄ with ⟨error | ⟨token, expiresIn⟩, u⟩
        · exact List.prefix_refl u.wire
        · exact List.prefix_refl u.wire

variable {platform network ctx spec}

/-- What was on the wire when the token was there, or was not, stays on it. -/
theorem executeStream_after_token {config : OAuth2} {parts : Parts Url} {s t : EngineState Url}
    (hconfig : spec.auth = some (.oAuth2 config))
    (hparts : exec (prepareParts platform network ctx spec true) s = (.ok parts, t)) :
    (exec (oauthToken platform network config) t).2.wire
      <+: (exec (executeStream platform network ctx spec) s).2.wire := by
  -- The authentication fetches the token and puts it into a header.
  have happly : applyAuth platform network parts.url spec.auth = (do
      let token ← oauthToken platform network config
      pure (parts.url, [("Authorization".toList, "Bearer ".toList ++ token)])) := by
    rw [hconfig]
    rfl
  -- Without a token there is an error at once, and the wire is what it was.
  rcases htoken : exec (oauthToken platform network config) t with ⟨error | token, u⟩
  · have hready : exec (makeReady platform network ctx spec true) s = (.error error, u) := by
      unfold makeReady
      rw [exec_bind_ok hparts, happly, exec_bind, exec_bind_error htoken]
    unfold executeStream
    rw [exec_bind_error hready]
  · -- The steps after the token only add to the wire.
    have hauth : exec (applyAuth platform network parts.url spec.auth) t
        = (.ok (parts.url, [("Authorization".toList, "Bearer ".toList ++ token)]), u) := by
      rw [happly]
      exact exec_bind_ok htoken
    have hbefore : Before u (exec (makeReady platform network ctx spec true) s).2 := by
      unfold makeReady
      rw [exec_bind_ok hparts, exec_bind_ok hauth]
      refine keeps_bind before_trans
        (keeps_before_of_offline (resolveIdentity_keeps platform network ctx spec)) ?_ u
      intro identity
      refine keeps_bind before_trans
        (keeps_before_of_offline (clientForMode_offline network spec identity true)) ?_
      intro client
      split
      · exact keeps_throw before_refl _
      · exact keeps_pure before_refl _
    refine hbefore.wire.trans ?_
    rcases hready : exec (makeReady platform network ctx spec true) s with ⟨error | ready, v⟩
    · unfold executeStream
      rw [exec_bind_error hready]
    · rw [(executeStream_state hready).1]
      exact List.prefix_append v.wire _

/-- A stream puts nothing on the wire exactly when it stops before its first send. -/
theorem executeStream_silent_iff {s : EngineState Url} (hempty : s.oauthTokens = SortedMap.empty) :
    Silent (executeStream platform network ctx spec) s ↔ Stops platform network ctx spec s := by
  have hparts := prepareParts_keeps platform network ctx spec true s
  -- Without a token to fetch, the preparation is offline and the send is the only thing on the
  -- wire.
  by_cases hauth : NoToken spec
  · have hstops : Stops platform network ctx spec s ↔
        Fails (makeReady platform network ctx spec true) s ∨
          ∃ ready t, exec (makeReady platform network ctx spec true) s = (.ok ready, t) ∧
            builds network ((firstTurn spec ready t).request network ctx spec) = false := by
      unfold Stops
      split
      · exact absurd ‹spec.auth = _› (hauth _)
      · exact Iff.rfl
    have hoffline := makeReady_offline platform network ctx hauth true s
    rw [hstops]
    unfold Fails Silent
    -- The preparation fails, or the client builds the request or refuses to.
    rcases hready : exec (makeReady platform network ctx spec true) s with ⟨error | ready, t⟩
    all_goals
      rw [hready] at hoffline
      have hwire : t.wire = s.wire := Offline.wire hoffline
    · refine iff_of_true ?_ (Or.inl ⟨error, rfl⟩)
      unfold executeStream
      rw [exec_bind_error hready]
      exact hwire
    · rw [(executeStream_state hready).1, hwire, List.append_right_eq_self]
      constructor
      · intro hnone
        refine Or.inr ⟨ready, t, rfl, ?_⟩
        by_contra hbuilds
        rw [List.filter_cons_of_pos (by simpa using hbuilds)] at hnone
        exact absurd hnone (by simp)
      · rintro (⟨error, herror⟩ | ⟨ready', t', heq, hbuilds⟩)
        · exact absurd herror (by simp)
        · cases heq
          rw [List.filter_cons_of_neg (by simp [hbuilds])]
          rfl
  -- With a token to fetch, the request for it is what may come first.
  · obtain ⟨config, hconfig⟩ : ∃ config, spec.auth = some (.oAuth2 config) := by
      by_contra hno
      exact hauth fun config hconfig => hno ⟨config, hconfig⟩
    have hstops : Stops platform network ctx spec s ↔
        Fails (prepareParts platform network ctx spec true) s ∨
          ∃ parts t, exec (prepareParts platform network ctx spec true) s = (.ok parts, t) ∧
            TokenUnasked platform network config t := by
      unfold Stops
      rw [hconfig]
    rw [hstops]
    unfold Silent Fails
    -- The parts fail before any token; else it depends on whether the endpoint is asked.
    rcases hprepared : exec (prepareParts platform network ctx spec true) s
      with ⟨error | parts, t⟩
    all_goals
      rw [hprepared] at hparts
      have hwire : t.wire = s.wire := Offline.wire hparts
    · refine iff_of_true ?_ (Or.inl ⟨error, rfl⟩)
      have hready : exec (makeReady platform network ctx spec true) s = (.error error, t) := by
        unfold makeReady
        rw [exec_bind_error hprepared]
      unfold executeStream
      rw [exec_bind_error hready]
      exact hwire
    -- No token is there yet, so that it has to be fetched.
    · have htokens : t.oauthTokens = SortedMap.empty := (Offline.tokens hparts).trans hempty
      have happly : applyAuth platform network parts.url spec.auth = (do
          let token ← oauthToken platform network config
          pure (parts.url, [("Authorization".toList, "Bearer ".toList ++ token)])) := by
        rw [hconfig]
        rfl
      rcases oauthToken_asks platform network config htokens with
        ⟨hunasked, ⟨error, herror⟩, hsilent⟩ | ⟨hasked, request, hsent⟩
      · -- The call for the token ends the preparation.
        refine iff_of_true ?_ (Or.inr ⟨parts, t, rfl, hunasked⟩)
        rcases htoken : exec (oauthToken platform network config) t with ⟨result, u⟩
        unfold Silent at hsilent
        rw [htoken] at herror hsilent
        obtain rfl : result = .error error := herror
        have hready : exec (makeReady platform network ctx spec true) s = (.error error, u) := by
          unfold makeReady
          rw [exec_bind_ok hprepared, happly, exec_bind, exec_bind_error htoken]
        unfold executeStream
        rw [exec_bind_error hready]
        exact hsilent.trans hwire
      · -- The token request stays on the wire.
        refine iff_of_false ?_ ?_
        · intro hsame
          have hlength := (hsent.trans (executeStream_after_token hconfig hprepared)).length_le
          rw [hsame, hwire, List.length_append, List.length_singleton] at hlength
          omega
        · rintro (⟨error, herror⟩ | ⟨parts', t', heq, hunasked⟩)
          · exact absurd herror (by simp)
          · cases heq
            exact hasked hunasked

end Before
/-! ### The promise -/

/-- The requests among the events. -/
def sentRequests (events : List (Event Url)) : List (WireRequest Url) :=
  events.filterMap fun
    | .sent _ request => some request
    | .answered _ _ => none

/-- A target whose request has this effect was let through: it reads only, or `--yes` was given,
or the user said yes to its prompt. -/
def LetThrough (args : RunArgs) (target : Nat) (effect : Effect) (before : List (Event Url)) :
    Prop :=
  effect = .read ∨ args.yes = true ∨
    ∃ line, .answered target line ∈ before ∧ saysYes line = true

/-- The effect of a target. -/
def targetEffect (opened : Opened Url) (target : Nat) : Option Effect :=
  opened.targets[target]?.map fun entry => (opened.collection.applyDefaults entry.spec).effect

/-- Every request among the events belongs to a target that was let through before, and there is
none with `--dry-run`. -/
def Cleared (args : RunArgs) (opened : Opened Url) (events : List (Event Url)) : Prop :=
  ∀ before target request after, events = before ++ .sent target request :: after →
    args.dryRun = false ∧
      ∃ effect, targetEffect opened target = some effect ∧ LetThrough args target effect before

/-- Nothing that acts is sent without consent: whatever the run puts on the wire is among its
events, and the events are cleared. -/
def Consented (around : Surroundings Url) (args : RunArgs) (stdin : List (Except Text Text)) :
    Prop :=
  sentRequests (exec (runRequests around args) (.start stdin)).2.events
      = (exec (runRequests around args) (.start stdin)).2.engine.wire ∧
    ∀ opened, openRun around args = .ok opened →
      Cleared args opened (exec (runRequests around args) (.start stdin)).2.events

/-- The requests of two logs, one after the other. -/
theorem sentRequests_append (a b : List (Event Url)) :
    sentRequests (a ++ b) = sentRequests a ++ sentRequests b := List.filterMap_append

/-- The requests of a round. -/
theorem sentRequests_sent (target : Nat) (requests : List (WireRequest Url)) :
    sentRequests (requests.map (.sent target)) = requests := by
  induction requests with
  | nil => rfl
  | cons request requests ih =>
    show request :: sentRequests (requests.map (.sent target)) = request :: requests
    rw [ih]

/-- What was let through stays so when more has happened. -/
theorem LetThrough.mono {args : RunArgs} {target : Nat} {effect : Effect}
    {before before' : List (Event Url)} (h : LetThrough args target effect before)
    (hsub : before ⊆ before') : LetThrough args target effect before' := by
  rcases h with hread | hyes | ⟨line, hmem, hline⟩
  · exact Or.inl hread
  · exact Or.inr (Or.inl hyes)
  · exact Or.inr (Or.inr ⟨line, hsub hmem, hline⟩)

/-- The events are cut before one of them: it is not among the first ones. -/
theorem cut_after {first rest before after : List (Event Url)} {event : Event Url}
    (h : first ++ rest = before ++ event :: after) (hnot : event ∉ first) :
    ∃ mid, before = first ++ mid ∧ rest = mid ++ event :: after := by
  rcases List.append_eq_append_iff.mp h with hcut | ⟨mid, hfirst, hrest⟩
  · exact hcut
  · cases mid with
    | nil =>
      rw [List.append_nil] at hfirst
      exact ⟨[], by rw [hfirst, List.append_nil], hrest.symm⟩
    | cons event' mid =>
      rw [List.cons_append, List.cons.injEq] at hrest
      rw [hfirst, hrest.1] at hnot
      exact absurd (List.mem_append_right _ List.mem_cons_self) hnot

/-- Among events without a request, none is one. -/
theorem not_mem_of_sentRequests {events : List (Event Url)} (h : sentRequests events = [])
    {target : Nat} {request : WireRequest Url} : Event.sent target request ∉ events := by
  intro hmem
  exact absurd (List.filterMap_eq_nil_iff.mp h _ hmem) (by simp)

/-! ### One round -/

/-- Every request among the new events belongs to this target, which was let through before. -/
def Gated (args : RunArgs) (target : Nat) (effect : Effect) (added : List (Event Url)) : Prop :=
  ∀ before target' request after, added = before ++ .sent target' request :: after →
    target' = target ∧ args.dryRun = false ∧ LetThrough args target effect before

/-- What one round does: it adds events, those of the wire among them, and they are gated. -/
def Round (args : RunArgs) (target : Nat) (effect : Effect) (s t : RunState Url) : Prop :=
  ∃ added, t.events = s.events ++ added ∧
    t.engine.wire = s.engine.wire ++ sentRequests added ∧ Gated args target effect added

/-- A round with a known target keeps the events cleared. -/
theorem Cleared.append {args : RunArgs} {opened : Opened Url} {events added : List (Event Url)}
    {target : Nat} {effect : Effect} (h : Cleared args opened events)
    (htarget : targetEffect opened target = some effect) (hgated : Gated args target effect added) :
    Cleared args opened (events ++ added) := by
  intro before target' request after hsplit
  rcases List.append_eq_append_iff.mp hsplit with ⟨mid, hbefore, hadded⟩ | ⟨mid, hevents, hrest⟩
  · -- The request is among the new events.
    obtain ⟨rfl, hdry, hthrough⟩ := hgated mid target' request after hadded
    refine ⟨hdry, effect, htarget, hthrough.mono ?_⟩
    rw [hbefore]
    exact List.subset_append_right events mid
  · cases mid with
    | nil =>
      obtain ⟨rfl, hdry, hthrough⟩ := hgated [] target' request after hrest.symm
      exact ⟨hdry, effect, htarget, hthrough.mono (List.nil_subset before)⟩
    | cons event mid =>
      rw [List.cons_append, List.cons.injEq] at hrest
      rw [← hrest.1] at hevents
      exact h before target' request mid hevents

/-- Reading a line adds an answer, unless the line cannot be read. -/
def Quiet (target : Nat) (s t : RunState Url) : Prop :=
  t.engine = s.engine ∧
    (t.events = s.events ∨ ∃ line, t.events = s.events ++ [.answered target line])

/-- The events that a quiet step adds send nothing. -/
theorem Quiet.answers {target : Nat} {s t : RunState Url} (h : Quiet target s t) :
    ∃ answers, t.events = s.events ++ answers ∧ sentRequests answers = [] := by
  rcases h.2 with hsame | ⟨line, hline⟩
  · exact ⟨[], by rw [hsame, List.append_nil], rfl⟩
  · exact ⟨_, hline, rfl⟩

/-- Nothing happens in a state that stays. -/
theorem quiet_refl (target : Nat) (s : RunState Url) : Quiet target s s := ⟨rfl, Or.inl rfl⟩

/-- The prompt of a target. -/
theorem readLine_spec (target : Nat) (s : RunState Url) :
    Quiet target s (exec (readLine target) s).2 ∧
      ∀ line t, exec (readLine target) s = (.ok line, t) →
        t.events = s.events ++ [.answered target line] := by
  obtain ⟨engine, stdin, errors, skipped, events⟩ := s
  rcases stdin with _ | ⟨message | line, rest⟩
  · -- At the end of the input the answer is the empty line.
    refine ⟨⟨rfl, Or.inr ⟨[], rfl⟩⟩, ?_⟩
    rintro line t ⟨rfl, rfl⟩
    rfl
  · refine ⟨⟨rfl, Or.inl rfl⟩, ?_⟩
    rintro line t ⟨⟩
  · refine ⟨⟨rfl, Or.inr ⟨line, rfl⟩⟩, ?_⟩
    rintro line' t ⟨rfl, rfl⟩
    rfl

section Round

variable (around : Surroundings Url) (args : RunArgs)

/-- The gate sends nothing, and reads at most one line. -/
theorem confirmEffect_quiet (spec : RequestSpec) (target : Nat) (id : Text) :
    Keeps (Quiet target) (confirmEffect around spec target id args) := by
  intro s
  unfold confirmEffect
  split
  · exact quiet_refl target s
  · split
    · have hline := (readLine_spec target s).1
      rw [exec_bind]
      rcases hread : exec (readLine target) s with ⟨_ | line, t⟩
      · rw [hread] at hline
        exact hline
      · rw [hread] at hline
        exact hline
    · split
      · exact quiet_refl target s
      · exact quiet_refl target s

/-- When the gate lets a request through, it may be sent, or nothing will be. -/
theorem confirmEffect_send {spec : RequestSpec} {target : Nat} {id : Text} {s t : RunState Url}
    (h : exec (confirmEffect around spec target id args) s = (.ok .send, t)) :
    args.dryRun = true ∨ spec.effect = .read ∨ args.yes = true ∨
      ∃ line, t.events = s.events ++ [.answered target line] ∧ saysYes line = true := by
  unfold confirmEffect at h
  split at h
  · rename_i hfree
    rw [Bool.or_eq_true, Bool.or_eq_true] at hfree
    rcases hfree with (hread | hdry) | hyes
    · have hsame : spec.effect = .read := by
        simpa [Effect.needsConfirmation, Effect.changesState] using hread
      exact Or.inr (Or.inl hsame)
    · exact Or.inl hdry
    · exact Or.inr (Or.inr (Or.inl hyes))
  · split at h
    · obtain ⟨line, hread, hproceed⟩ := exec_bind_pure_eq_ok.mp h
      have hevents := (readLine_spec target s).2 line t hread
      refine Or.inr (Or.inr (Or.inr ⟨line, hevents, ?_⟩))
      by_contra hno
      rw [if_neg hno] at hproceed
      exact absurd hproceed (by decide)
    · split at h
      · exact absurd (congrArg Prod.fst h) (by simp)
      · exact absurd (congrArg Prod.fst h) (by simp)

/-- An engine call that only adds to the wire adds what it sent to the events. -/
theorem onEngine_exec {α : Type} (target : Nat) {call : EngineM Url α} (hgrows : Keeps Grows call)
    (s : RunState Url) : ∃ sends,
    (exec (onEngine target call) s).2.events = s.events ++ sends.map (.sent target) ∧
      (exec (onEngine target call) s).2.engine.wire = s.engine.wire ++ sends ∧
      (exec call s.engine).2.wire = s.engine.wire ++ sends := by
  obtain ⟨sends, hsends⟩ := hgrows s.engine
  refine ⟨sends, ?_, hsends.symm, hsends.symm⟩
  show s.events ++ ((exec call s.engine).2.wire.drop s.engine.wire.length).map (.sent target) = _
  rw [← hsends, List.drop_left]

/-- What follows an engine call runs on its result, in the state after it. -/
theorem exec_onEngine_bind {α β : Type} (target : Nat) (call : EngineM Url α)
    (settle : Except EngineError α → RunM Url β) (s : RunState Url) :
    exec (onEngine target call >>= settle) s
      = exec (settle (exec call s.engine).1) (exec (onEngine target call) s).2 := rfl

/-- The gate let a request through that will be sent. -/
theorem letThrough_of_send {spec : RequestSpec} {target : Nat} {id : Text} {s t : RunState Url}
    {answers : List (Event Url)} (hdry : args.dryRun = false)
    (h : exec (confirmEffect around spec target id args) s = (.ok .send, t))
    (hanswers : t.events = s.events ++ answers) : LetThrough args target spec.effect answers := by
  rcases confirmEffect_send around args h with hwet | hread | hyes | ⟨line, hline, hsaid⟩
  · rw [hdry] at hwet
    exact absurd hwet Bool.false_ne_true
  · exact Or.inl hread
  · exact Or.inr (Or.inl hyes)
  · rw [hline] at hanswers
    refine Or.inr (Or.inr ⟨line, ?_, hsaid⟩)
    rw [← List.append_cancel_left hanswers]
    exact List.mem_singleton_self _

/-- What follows an engine call leaves the events and the engine alone. -/
def Settles (s t : RunState Url) : Prop := t.events = s.events ∧ t.engine = s.engine

/-- Events that a target sends come after the answers that let it through. -/
theorem gated_sends (target : Nat) (effect : Effect) {answers : List (Event Url)}
    {sends : List (WireRequest Url)} (hanswers : sentRequests answers = [])
    (hgate : sends = [] ∨ args.dryRun = false ∧ LetThrough args target effect answers) :
    Gated args target effect (answers ++ sends.map (.sent target)) := by
  intro before target' request after hsplit
  obtain ⟨mid, hbefore, hsent⟩ := cut_after hsplit (not_mem_of_sentRequests hanswers)
  have hmem : Event.sent target' request ∈ sends.map (.sent target) := by
    rw [hsent]
    exact List.mem_append_right _ List.mem_cons_self
  obtain ⟨request', hrequest, heq⟩ := List.mem_map.mp hmem
  obtain ⟨rfl, rfl⟩ := Event.sent.inj heq
  rcases hgate with hnone | ⟨hdry, hthrough⟩
  · rw [hnone] at hrequest
    exact absurd hrequest List.not_mem_nil
  · refine ⟨rfl, hdry, hthrough.mono ?_⟩
    rw [hbefore]
    exact List.subset_append_left answers mid

/-- A quiet step is a round that sends nothing. -/
theorem Quiet.round {target : Nat} {effect : Effect} {s t : RunState Url}
    (h : Quiet target s t) : Round args target effect s t := by
  obtain ⟨answers, hevents, hsilent⟩ := h.answers
  refine ⟨answers, hevents, ?_, ?_⟩
  · rw [h.1, hsilent, List.append_nil]
  · have hgated := gated_sends args target effect hsilent (Or.inl rfl)
    rwa [List.map_nil, List.append_nil] at hgated

/-- What settles a round adds no event. -/
theorem Round.settle {target : Nat} {effect : Effect} {s t u : RunState Url}
    (h : Round args target effect s t) (hsettle : Settles t u) :
    Round args target effect s u := by
  obtain ⟨added, hevents, hwire, hgated⟩ := h
  exact ⟨added, hsettle.1.trans hevents, by rw [hsettle.2, hwire], hgated⟩

/-- An engine call behind the gate. -/
theorem onEngine_round {α : Type} {target : Nat} (effect : Effect) {call : EngineM Url α}
    {s t : RunState Url} (hquiet : Quiet target s t) (hgrows : Keeps Grows call)
    (hgate : Keeps SameWire call ∨ args.dryRun = false ∧
      ∀ answers, t.events = s.events ++ answers → LetThrough args target effect answers) :
    Round args target effect s (exec (onEngine target call) t).2 := by
  obtain ⟨answers, hevents, hsilent⟩ := hquiet.answers
  obtain ⟨sends, hadded, hwire, hcall⟩ := onEngine_exec target hgrows t
  have hsent : sends = [] ∨ args.dryRun = false ∧ LetThrough args target effect answers := by
    rcases hgate with hsame | ⟨hdry, hthrough⟩
    · have hkept : (exec call t.engine).2.wire = t.engine.wire := hsame t.engine
      rw [hcall] at hkept
      exact Or.inl (List.append_right_eq_self.mp hkept)
    · exact Or.inr ⟨hdry, hthrough answers hevents⟩
  refine ⟨answers ++ sends.map (.sent target), ?_, ?_, gated_sends args target effect hsilent hsent⟩
  · rw [hadded, hevents, List.append_assoc]
  · rw [hwire, hquiet.1, sentRequests_append, hsilent, sentRequests_sent, List.nil_append]

/-- One round of the loop. -/
theorem runTarget_round (collection : Collection) (ctx : RunContext) (target : Nat)
    (entry : RequestEntry) :
    Keeps (Round args target (collection.applyDefaults entry.spec).effect)
      (runTarget around collection ctx args target entry) := by
  intro s
  have hquiet := confirmEffect_quiet around args (collection.applyDefaults entry.spec) target
    entry.id s
  unfold runTarget
  dsimp only
  -- The gate first: an error and a skip send nothing.
  rw [exec_bind]
  rcases hconfirm : exec (confirmEffect around (collection.applyDefaults entry.spec) target
    entry.id args) s with ⟨error | proceed, t⟩
  all_goals
    rw [hconfirm] at hquiet
  · exact hquiet.round args
  · cases proceed with
    | skipped => exact (hquiet.round args).settle args ⟨rfl, rfl⟩
    | send =>
      dsimp only
      split
      · -- A dry run only prepares.
        have hround := onEngine_round args (collection.applyDefaults entry.spec).effect
          hquiet (prepare_grows around.platform around.network ctx _)
          (Or.inl (prepare_sameWire around.platform around.network ctx
            (collection.applyDefaults entry.spec)))
        rw [exec_onEngine_bind]
        refine hround.settle args ?_
        split <;> exact ⟨rfl, rfl⟩
      · rename_i hwet
        have hdry : args.dryRun = false := by simpa using hwet
        have hround := onEngine_round args (collection.applyDefaults entry.spec).effect
          hquiet (execute_grows around.platform around.network ctx
            (collection.applyDefaults entry.spec))
          (Or.inr ⟨hdry, fun answers hanswers =>
              letThrough_of_send around args hdry hconfirm hanswers⟩)
        rw [exec_onEngine_bind]
        refine hround.settle args ?_
        -- Whether the request failed or not, the books alone are kept behind it.
        split
        · exact ⟨rfl, rfl⟩
        · split <;> exact ⟨rfl, rfl⟩

end Round

/-! ### The run -/

section Run

variable (around : Surroundings Url) (args : RunArgs)

/-- The events hold what went over the wire, and they are cleared. -/
def Accounted (opened : Opened Url) (s : RunState Url) : Prop :=
  sentRequests s.events = s.engine.wire ∧ Cleared args opened s.events

/-- A round of a known target keeps the account. -/
theorem Accounted.round {opened : Opened Url} {target : Nat} {effect : Effect}
    {s t : RunState Url} (h : Accounted args opened s)
    (htarget : targetEffect opened target = some effect) (hround : Round args target effect s t) :
    Accounted args opened t := by
  obtain ⟨added, hevents, hwire, hgated⟩ := hround
  refine ⟨?_, ?_⟩
  · rw [hevents, hwire, sentRequests_append, h.1]
  · rw [hevents]
    exact h.2.append htarget hgated

/-- The loop keeps the account, from any target on. -/
theorem runTargets_accounted (opened : Opened Url) {rest : List RequestEntry} (target : Nat)
    (hrest : opened.targets.drop target = rest) {s : RunState Url}
    (h : Accounted args opened s) :
    Accounted args opened
      (exec (runTargets around opened.collection opened.ctx args target rest) s).2 := by
  -- By induction on the targets that are left; the invariant is the account up to here.
  induction rest generalizing target s with
  | nil => exact h
  | cons entry rest ih =>
    -- The first one that is left is the target with this number.
    have hentry : opened.targets[target]? = some entry := by
      rw [← List.head?_drop, hrest]
      rfl
    have htarget : targetEffect opened target
        = some (opened.collection.applyDefaults entry.spec).effect := by
      unfold targetEffect
      rw [hentry]
      rfl
    have hnext : opened.targets.drop (target + 1) = rest := by
      rw [← List.tail_drop, hrest]
      rfl
    have hround := h.round args htarget
      (runTarget_round around args opened.collection opened.ctx target entry s)
    unfold runTargets
    rw [exec_bind]
    rcases hrun : exec (runTarget around opened.collection opened.ctx args target entry) s
      with ⟨error | done, t⟩
    all_goals
      rw [hrun] at hround
    · exact hround
    · exact ih (target + 1) hnext hround

/-- A state that stays is settled. -/
theorem settles_refl (s : RunState Url) : Settles s s := ⟨rfl, rfl⟩

/-- Two ends of a run, one after the other. -/
theorem settles_trans (s t u : RunState Url) (hst : Settles s t) (htu : Settles t u) :
    Settles s u := ⟨htu.1.trans hst.1, htu.2.trans hst.2⟩

/-- Saving the sessions sends nothing. -/
theorem saveSessions_settles : Keeps Settles (saveSessions around) := by
  unfold saveSessions
  refine keeps_bind settles_trans (keeps_get settles_refl) ?_
  intro s
  split
  · exact keeps_throw settles_refl _
  · exact keeps_pure settles_refl _

/-- Writing a report sends nothing. -/
theorem writeReport_settles (path : Option Text) : Keeps Settles (writeReport around path) := by
  unfold writeReport
  split
  · exact keeps_throw settles_refl _
  · exact keeps_pure settles_refl _

/-- What comes after the loop sends nothing. -/
theorem finishRun_settles (targets : Nat) : Keeps Settles (finishRun around args targets) := by
  unfold finishRun
  refine keeps_bind settles_trans (saveSessions_settles around) ?_
  intro _
  refine keeps_bind settles_trans (writeReport_settles around args.junit) ?_
  intro _
  refine keeps_bind settles_trans (writeReport_settles around args.html) ?_
  intro _
  refine keeps_bind settles_trans (keeps_get settles_refl) ?_
  intro s
  dsimp only
  split
  · exact keeps_throw settles_refl _
  · exact keeps_pure settles_refl _

/-- A sequence ends in the state after its first part, or in one that its second part settles. -/
theorem settles_bind {α β : Type} {first : RunM Url α} {next : α → RunM Url β}
    (hnext : ∀ a, Keeps Settles (next a)) (s : RunState Url) :
    Settles (exec first s).2 (exec (first >>= next) s).2 := by
  rw [exec_bind]
  rcases exec first s with ⟨error | a, t⟩
  · exact settles_refl t
  · exact hnext a t

/-- The end of a run leaves the account as it is. -/
theorem Accounted.settle {opened : Opened Url} {s t : RunState Url} (h : Accounted args opened s)
    (hsettle : Settles s t) : Accounted args opened t := by
  unfold Accounted
  rw [hsettle.1, hsettle.2]
  exact h

/-- A run that is opened has put nothing on the wire, and has no token. -/
theorem openRun_engine {opened : Opened Url} (h : openRun around args = .ok opened) :
    opened.engine.wire = [] ∧ opened.engine.oauthTokens = SortedMap.empty := by
  unfold openRun at h
  obtain ⟨collection, -, h⟩ := bind_eq_ok h
  obtain ⟨environment, -, h⟩ := bind_eq_ok h
  obtain ⟨targets, -, h⟩ := bind_eq_ok h
  obtain ⟨assignments, -, h⟩ := bind_eq_ok h
  obtain ⟨sessions, -, h⟩ := bind_eq_ok h
  split at h
  · exact absurd h (by simp)
  · obtain rfl := Except.ok.inj h
    exact ⟨rfl, rfl⟩

/-- Before its first target a run has nothing to account for. -/
theorem accounted_start (opened : Opened Url) (s : RunState Url) (hevents : s.events = [])
    (hwire : s.engine.wire = []) : Accounted args opened s := by
  refine ⟨?_, ?_⟩
  · rw [hevents, hwire]
    rfl
  · intro before target request after hsplit
    rw [hevents] at hsplit
    exact absurd hsplit (by simp)

/-- The loop, and what comes after it. -/
theorem loop_accounted {opened : Opened Url} {s : RunState Url} (hevents : s.events = [])
    (hwire : s.engine.wire = []) : Accounted args opened (exec (do
      runTargets around opened.collection opened.ctx args 0 opened.targets
      finishRun around args opened.targets.length) s).2 := by
  have hloop := runTargets_accounted around args opened 0 rfl
    (accounted_start args opened s hevents hwire)
  exact hloop.settle args (settles_bind (fun _ => finishRun_settles around args _) s)

/-- A stream is accounted for when it would have passed the gate, or stops before it sends. -/
theorem stream_accounted_iff {opened : Opened Url} {entry : RequestEntry}
    {rest : List RequestEntry} (htargets : opened.targets = entry :: rest) {s : RunState Url}
    (hevents : s.events = []) (hwire : s.engine.wire = [])
    (htokens : s.engine.oauthTokens = SortedMap.empty) :
    Accounted args opened (exec (do
      streamTarget around opened.collection opened.ctx entry
      saveSessions around) s).2 ↔
    Stops around.platform around.network opened.ctx (opened.collection.applyDefaults entry.spec)
        s.engine ∨
      args.dryRun = false ∧
        ((opened.collection.applyDefaults entry.spec).effect = .read ∨ args.yes = true) := by
  obtain ⟨sends, hadded, hgrown, hcall⟩ := onEngine_exec 0
    (executeStream_grows around.platform around.network opened.ctx
      (opened.collection.applyDefaults entry.spec)) s
  rw [hevents, List.nil_append] at hadded
  rw [hwire, List.nil_append] at hgrown hcall
  have hstream : Settles
      (exec (onEngine 0 (executeStream around.platform around.network opened.ctx
        (opened.collection.applyDefaults entry.spec))) s).2
      (exec (streamTarget around opened.collection opened.ctx entry) s).2 := by
    unfold streamTarget
    refine settles_bind ?_ s
    intro result
    split
    · exact keeps_throw settles_refl _
    · exact keeps_pure settles_refl _
  have hall := settles_trans _ _ _ hstream
    (settles_bind (fun _ => saveSessions_settles around) s)
  have htarget : targetEffect opened 0
      = some (opened.collection.applyDefaults entry.spec).effect := by
    unfold targetEffect
    rw [htargets]
    rfl
  have hstops : Stops around.platform around.network opened.ctx
      (opened.collection.applyDefaults entry.spec) s.engine ↔ sends = [] := by
    rw [← executeStream_silent_iff htokens]
    unfold Silent
    rw [hcall, hwire]
  rw [hstops]
  unfold Accounted
  rw [hall.1, hall.2, hadded, hgrown, sentRequests_sent]
  constructor
  · rintro ⟨-, hcleared⟩
    cases sends with
    | nil => exact Or.inl rfl
    | cons request sends =>
      -- Nobody was asked before the first request.
      obtain ⟨hdry, effect, heffect, hthrough⟩ := hcleared [] 0 request _ rfl
      obtain rfl := Option.some.inj (htarget.symm.trans heffect)
      rcases hthrough with hread | hyes | ⟨line, hmem, -⟩
      · exact Or.inr ⟨hdry, Or.inl hread⟩
      · exact Or.inr ⟨hdry, Or.inr hyes⟩
      · exact absurd hmem List.not_mem_nil
  · rintro (hnone | ⟨hdry, hfree⟩)
    · rw [hnone]
      exact ⟨rfl, (accounted_start args opened { s with events := [] } rfl hwire).2⟩
    · refine ⟨rfl, ?_⟩
      have hthrough : LetThrough args 0 (opened.collection.applyDefaults entry.spec).effect
          ([] : List (Event Url)) := by
        rcases hfree with hread | hyes
        · exact Or.inl hread
        · exact Or.inr (Or.inl hyes)
      have hgated : Gated args 0 _ ([] ++ sends.map (.sent 0)) :=
        gated_sends args 0 _ rfl (Or.inr ⟨hdry, hthrough⟩)
      exact (accounted_start args opened { s with events := [] } rfl hwire).2.append htarget hgated

end Run

/-- What a run with `--stream` has to be like: the stream stops before its first send, or there is
no `--dry-run` and the request only reads or `--yes` was given. -/
def StreamGated (around : Surroundings Url) (args : RunArgs) : Prop :=
  args.stream = true → ∀ opened entry rest, openRun around args = .ok opened →
    opened.targets = entry :: rest →
      Stops around.platform around.network opened.ctx
        (opened.collection.applyDefaults entry.spec) opened.engine ∨
      args.dryRun = false ∧
        ((opened.collection.applyDefaults entry.spec).effect = .read ∨ args.yes = true)

/-- Nothing that acts is sent without consent exactly when no stream is followed, or when the
stream would have passed the gate, or stops before it sends. -/
theorem consented_iff (around : Surroundings Url) (args : RunArgs)
    (stdin : List (Except Text Text)) :
    Consented around args stdin ↔ StreamGated around args := by
  unfold Consented StreamGated runRequests
  cases hopen : openRun around args with
  | error error =>
    -- The run has not begun: it has no events.
    constructor
    · intro _ _ opened entry rest hopened
      exact absurd hopened (by simp)
    · intro _
      refine ⟨rfl, ?_⟩
      intro opened hopened
      exact absurd hopened (by simp)
  | ok opened =>
    obtain ⟨hwire, htokens⟩ := openRun_engine around args hopen
    dsimp only
    rw [exec_bind_ok (exec_modify _ _)]
    have hone : ∀ {P : Opened Url → Prop},
        (∀ opened', (.ok opened : Except CliError _) = .ok opened' → P opened') ↔ P opened := by
      intro P
      constructor
      · intro h
        exact h opened rfl
      · intro h opened' heq
        obtain rfl := Except.ok.inj heq
        exact h
    rw [hone]
    cases hstream : args.stream with
    | false =>
      refine ⟨fun _ hno => absurd hno Bool.false_ne_true, fun _ => ?_⟩
      exact loop_accounted around args rfl hwire
    | true =>
      cases htargets : opened.targets with
      | nil =>
        -- Nothing is streamed.
        constructor
        · intro _ _ opened' entry rest hopened htargets'
          obtain rfl := Except.ok.inj hopened
          rw [htargets] at htargets'
          exact absurd htargets' (by simp)
        · intro _
          exact accounted_start args _ _ rfl hwire
      | cons entry rest =>
        refine (stream_accounted_iff around args htargets rfl hwire htokens).trans ?_
        constructor
        · intro hgated _ opened' entry' rest' hopened htargets'
          obtain rfl := Except.ok.inj hopened
          rw [htargets] at htargets'
          obtain ⟨rfl, -⟩ := List.cons.inj htargets'
          exact hgated
        · intro hgated
          exact hgated rfl opened entry rest rfl htargets

/-- A collection without defaults that holds these requests. -/
def plainCollection (requests : List RequestEntry) : Collection :=
  { root := "gabriel".toList, requests, problems := []
    manifest :=
      { name := none, vars := .empty,
        defaults := { headers := .empty, auth := none, settings := none } } }

/-- A collection without environments, on a network that answers, without a terminal. -/
def plainSurroundings (collection : Collection) : Surroundings (Text × Text) :=
  { platform := emptyPlatform, network := scriptedNetwork [], lower := id,
    collection := .ok collection
    environments := { names := [], file := fun _ => none }, vault := fun _ => none
    sessions := .ok .new, runtimeError := none, terminal := false, saveError := fun _ => none
    writeError := fun _ => none }

/-- A request that deletes a user. -/
def deleteEntry : RequestEntry :=
  { path := "gabriel/requests/purge.toml".toList, id := "purge".toList
    spec := RequestSpec.new id "DELETE".toList "https://app.test/users/7".toList }

/-- `run purge --stream --dry-run`. -/
def streamDryRun : RunArgs :=
  { request := some "purge".toList, stream := true, dryRun := true
    named := fun _ => rfl, single := fun _ => rfl }

/-- The dry run of a stream deletes the user. -/
theorem not_consented_dryRun :
    ¬ Consented (plainSurroundings (plainCollection [deleteEntry])) streamDryRun [] := by
  rintro ⟨-, hcleared⟩
  have hevents : (exec (runRequests (plainSurroundings (plainCollection [deleteEntry]))
      streamDryRun) (.start [])).2.events = [.sent 0
        { method := "DELETE".toList, url := ("app.test".toList, "/users/7".toList)
          headers := [("Accept".toList, "text/event-stream".toList)], body := none }] := by
    decide +kernel
  have hopen : (openRun (plainSurroundings (plainCollection [deleteEntry]))
      streamDryRun).toOption.isSome = true := by decide +kernel
  rcases hrun : openRun (plainSurroundings (plainCollection [deleteEntry])) streamDryRun
    with error | opened
  · rw [hrun] at hopen
    exact absurd hopen Bool.false_ne_true
  · obtain ⟨hdry, -⟩ := hcleared opened hrun [] 0 _ [] hevents
    exact absurd hdry (by decide)

end Gabriel.Cli
