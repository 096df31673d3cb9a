import Gabriel.Engine.OauthFlow
import Gabriel.Lib.Base64
import Gabriel.Proofs.AuthorizeUrl
import Gabriel.Proofs.Callback

/-!
# `Gabriel.Proofs.SignIn`: flows, their provider, and everybody else

Any number of authorization code flows with one provider, in any interleaving. The provider is that
of `gabriel-engine/tests/oauth_pkce.rs`: it keeps the challenge of the URL that a code was issued
for, and hands out tokens for a verifier with this challenge. Nobody else is trusted: anybody can
visit the provider with any URL, send anything to the listener of a flow, and ask the token
endpoint for tokens with any form.

A flow of the system is the function of the source, connection by connection. Two invariants carry
the results. `Accounted` holds in every run: what stands in the system goes back to events that
happened, so tokens go back to a callback, a grant and a visit. `Bound` holds from the visit of a
flow's URL on: the code is kept with the challenge of the flow, and what was granted for it since
was granted to a verifier of this challenge. The theorems:

* `authorizationCode_eq`: a flow alone, connection by connection, is `authorization_code`.
* `random_wellformed`: what a flow draws is what RFC 7636 asks for.
* `signedIn_own`: a flow that got tokens got them for a code that came with its own state, and that
  was issued for a URL with its own challenge.
* `stolenCode_useless`: a code that is issued for the URL of a flow is good for the exchange of this
  flow, and for nobody without a verifier of the same digest.
* `signIn_completes`: a flow whose URL is visited gets its tokens, whatever else happens in between.

The digest, the base64 text and the forms are libraries (`FlowTools`). What is used of them is named
in the statements: that a form is read back (`ReadsBack`), and the laws of `Base64.UrlSafe`.
-/

set_option autoImplicit false

namespace Gabriel.Engine.Oauth

open Gabriel.Core Text

/-! ### The provider -/

/-- The codes that were issued, with the challenge of each, and what tokens were handed out for:
codes and verifiers. -/
structure Provider where
  issued : SortedMap Text Text
  grants : List (Text × Text)

/-- What a provider answers. -/
structure ProviderTools where
  /-- Its token endpoint. -/
  tokenUrl : Text
  /-- The tokens for a code. -/
  tokens : Text → Text
  refused : Text
  /-- What other servers answer. -/
  elsewhere : TokenRequest → Except Text TokenResponse

/-- The challenge of an authorization URL. -/
def challengeOf (url : Text) : Option Text :=
  (splitOnce ['?'] url).bind fun parts =>
    (parseQuery parts.2).bind fun params => params.get? "code_challenge".toList

/-- Somebody signs in at a URL, and the provider issues a code. -/
def Provider.visit (provider : Provider) (url code : Text) : Provider :=
  match challengeOf url with
  | some challenge => { provider with issued := provider.issued.insert code challenge }
  | none => provider

/-- The provider is asked for tokens with a form. -/
def Provider.redeem (provider : Provider) (tools : FlowTools) (server : ProviderTools)
    (body : Text) : Except Text TokenResponse × Provider :=
  match parseQuery body with
  | none => (.error "connection closed".toList, provider)
  | some params =>
    let code := (params.get? "code".toList).getD []
    let verifier := (params.get? "code_verifier".toList).getD []
    if provider.issued.get? code = some (Pkce.fromVerifier tools verifier).challenge then
      (.ok ⟨200, server.tokens code⟩,
        { provider with grants := provider.grants ++ [(code, verifier)] })
    else (.ok ⟨400, server.refused⟩, provider)

/-! ### The system -/

/-- A flow as it began, and where it stands. -/
structure Login where
  begun : Waiting
  flow : Flow

/-- The flows that were started, in order, and the provider. -/
structure System where
  provider : Provider
  logins : List Login

/-- Before anything happened. -/
def System.empty : System := ⟨⟨SortedMap.empty, []⟩, []⟩

/-- What can happen next: a flow is started, somebody visits a URL at the provider, a connection
reaches a flow, the deadline of a flow passes, or somebody asks for tokens. -/
inductive Event where
  | start (config : OAuth2) (options : FlowOptions) (drawn : FlowDraw)
  /-- The provider issues a code for a URL. -/
  | visit (url code : Text)
  /-- A connection reaches the listener of a flow. -/
  | connect (index : Nat) (connection : Except Text (List UInt8))
  | expire (index : Nat)
  /-- Somebody asks the provider for tokens. -/
  | redeem (body : Text)

/-- The request that a flow has sent. -/
def Flow.request : Flow → Option TokenRequest
  | .waiting _ => none
  | .ended request _ => request

section Step

variable (tools : FlowTools) (server : ProviderTools)

/-- A request reaches the provider, or another server. -/
def Provider.answer (provider : Provider) (request : TokenRequest) :
    Except Text TokenResponse × Provider :=
  if request.url = server.tokenUrl then provider.redeem tools server request.body
  else (server.elsewhere request, provider)

/-- A connection reaches a flow. If the flow ends with a token request, the provider has answered
it. -/
def System.connect (s : System) (index : Nat) (connection : Except Text (List UInt8)) : System :=
  match s.logins[index]? with
  | none => s
  | some login =>
    match login.flow with
    | .ended _ _ => s
    | .waiting flow =>
      let next := Flow.receive tools (fun request => (s.provider.answer tools server request).1)
        connection (.waiting flow)
      { provider := match next.request with
          | some request => (s.provider.answer tools server request).2
          | none => s.provider
        logins := s.logins.set index { login with flow := next } }

/-- One event. A connection or a deadline of a flow that does not wait changes nothing. -/
def System.step (s : System) : Event → System
  | .start config options drawn =>
    match begin tools config options drawn with
    | .error _ => s
    | .ok flow => { s with logins := s.logins ++ [⟨flow, .waiting flow⟩] }
  | .visit url code => { s with provider := s.provider.visit url code }
  | .connect index connection => s.connect tools server index connection
  | .expire index => { s with logins := s.logins.modify index fun login =>
      { login with flow := login.flow.expire } }
  | .redeem body => { s with provider := (s.provider.redeem tools server body).2 }

/-- Events, one after the other. -/
def System.run (s : System) (events : List Event) : System :=
  events.foldl (System.step tools server) s

end Step

/-! ### One flow -/

section Alone

variable (tools : FlowTools) (send : TokenRequest → Except Text TokenResponse)

/-- The connections to a flow, one after the other. -/
def Flow.receiveAll (flow : Flow) (connections : List (Except Text (List UInt8))) : Flow :=
  connections.foldl (fun flow connection => Flow.receive tools send connection flow) flow

/-- A flow that has ended receives nothing. -/
theorem receiveAll_ended (request : Option TokenRequest)
    (result : Option (Except EngineError Tokens)) (connections : List (Except Text (List UInt8))) :
    Flow.receiveAll tools send (.ended request result) connections = .ended request result := by
  induction connections with
  | nil => rfl
  | cons connection connections ih => exact ih

/-- What the end of the wait makes of a flow does not change any more. -/
theorem finish_eq_ended (flow : Waiting) (result : Option (Except EngineError Text)) :
    ∃ request outcome, flow.finish tools send result = .ended request outcome := by
  match result with
  | none => exact ⟨_, _, rfl⟩
  | some (.error error) => exact ⟨_, _, rfl⟩
  | some (.ok code) => exact ⟨_, _, rfl⟩

/-- The end of the wait, connection by connection. -/
theorem finish_waitForCode (flow : Waiting) (connections : List (Except Text (List UInt8))) :
    flow.finish tools send (waitForCode flow.state connections).result
      = (Flow.receiveAll tools send (.waiting flow) connections).expire := by
  induction connections with
  | nil => rfl
  | cons connection connections ih =>
    -- The first connection ends the wait, or changes nothing.
    have hends : ∀ result, Flow.receive tools send connection (.waiting flow)
        = flow.finish tools send result →
        (Flow.receiveAll tools send (.waiting flow) (connection :: connections)).expire
          = flow.finish tools send result := by
      intro result heq
      obtain ⟨request, outcome, hended⟩ := finish_eq_ended tools send flow result
      show (Flow.receiveAll tools send (Flow.receive tools send connection (.waiting flow))
        connections).expire = _
      rw [heq, hended, receiveAll_ended]
      rfl
    cases connection with
    | error message => exact (hends (some (.error _)) rfl).symm
    | ok read =>
      unfold waitForCode
      cases hanswer : answerCallback flow.state read with
      | wait reply =>
        have hsame : Flow.receive tools send (.ok read) (.waiting flow) = .waiting flow := by
          simp only [Flow.receive, hanswer]
        show _ = (Flow.receiveAll tools send (Flow.receive tools send (.ok read) (.waiting flow))
          connections).expire
        rw [hsame]
        exact ih
      | done reply result =>
        refine (hends (some result) ?_).symm
        simp only [Flow.receive, hanswer]
      | panicked =>
        refine (hends none ?_).symm
        simp only [Flow.receive, hanswer]

/-- **A flow alone is `authorization_code`.** -/
theorem authorizationCode_eq (config : OAuth2) (options : FlowOptions) (drawn : FlowDraw)
    (connections : List (Except Text (List UInt8))) :
    authorizationCode tools send config options drawn connections
      = match begin tools config options drawn with
        | .error error => .ended none (some (.error error))
        | .ok flow => (Flow.receiveAll tools send (.waiting flow) connections).expire := by
  unfold authorizationCode
  cases begin tools config options drawn with
  | error error => rfl
  | ok flow => exact finish_waitForCode tools send flow connections

end Alone

/-! ### One step -/

section Facts

variable {tools : FlowTools} {server : ProviderTools}

/-- A form is read back from its body. -/
def FlowTools.ReadsBack (tools : FlowTools) : Prop :=
  ∀ form : List (Text × Text), (form.map (·.1)).Nodup →
    ∃ params, parseQuery (tools.formBody form) = some params ∧
      ∀ entry ∈ form, params.get? entry.1 = some entry.2

/-- The answer that ends a wait with a code. -/
theorem param_of_done {expectedState code : Text} {read : List UInt8} {reply : Reply}
    (h : answerCallback expectedState read = .done reply (.ok code)) :
    param read "state" = some expectedState ∧ param read "code" = some code := by
  cases hquery : requestQuery read with
  | none =>
    rw [answerCallback_noQuery hquery] at h
    exact nomatch h
  | some query =>
    -- The code is only looked at when there is no error and the state is the right one.
    by_cases hread : ReadableRequest read
    · cases herror : param read "error" with
      | some error =>
        rw [answerCallback_error hquery hread herror] at h
        exact nomatch (Answer.done.inj h).2
      | none =>
        by_cases hstate : param read "state" = some expectedState
        · obtain ⟨hnone, hsome⟩ := answerCallback_match hquery hread herror hstate
          cases hcode : param read "code" with
          | none =>
            rw [hnone hcode] at h
            exact nomatch h
          | some code' =>
            rw [hsome code' hcode] at h
            rw [Except.ok.inj (Answer.done.inj h).2]
            exact ⟨hstate, rfl⟩
        · rw [answerCallback_mismatch hquery hread herror hstate] at h
          exact nomatch (Answer.done.inj h).2
    · rw [answerCallback_panicked hread] at h
      exact nomatch h

/-- What the token endpoint does: it hands out tokens for a code and a verifier with the challenge
of the code, or nothing changes. -/
theorem redeem_cases (provider : Provider) (tools : FlowTools) (server : ProviderTools)
    (body : Text) :
    ((provider.redeem tools server body).2 = provider ∧
        ∀ response, (provider.redeem tools server body).1 = .ok response →
          response = ⟨400, server.refused⟩) ∨
      ∃ params code verifier, parseQuery body = some params ∧
        code = (params.get? "code".toList).getD [] ∧
        verifier = (params.get? "code_verifier".toList).getD [] ∧
        provider.issued.get? code = some (Pkce.fromVerifier tools verifier).challenge ∧
        provider.redeem tools server body = (.ok ⟨200, server.tokens code⟩,
          { provider with grants := provider.grants ++ [(code, verifier)] }) := by
  unfold Provider.redeem
  cases hparams : parseQuery body with
  | none => exact Or.inl ⟨rfl, fun response h => nomatch h⟩
  | some params =>
    dsimp only
    split
    · rename_i hissued
      exact Or.inr ⟨params, _, _, rfl, rfl, rfl, hissued, rfl⟩
    · exact Or.inl ⟨rfl, fun response h => (Except.ok.inj h).symm⟩

/-- What a connection does to a flow that waits: nothing, or it ends it without tokens, or it brings
the state of the flow and a code, and the code is exchanged. -/
theorem receive_cases (tools : FlowTools) (send : TokenRequest → Except Text TokenResponse)
    (connection : Except Text (List UInt8)) (flow : Waiting) :
    Flow.receive tools send connection (.waiting flow) = .waiting flow ∨
      (∃ result, Flow.receive tools send connection (.waiting flow) = .ended none result ∧
        ∀ tokens, result ≠ some (.ok tokens)) ∨
      ∃ read code, connection = .ok read ∧ param read "state" = some flow.state ∧
        param read "code" = some code ∧ ∃ request : TokenRequest,
          request.url = flow.config.tokenUrl ∧
          request.body = tools.formBody
            (exchangeForm flow.config code flow.pkce.verifier flow.redirectUri) ∧
          Flow.receive tools send connection (.waiting flow) = .ended (some request)
            (some (tokenResult tools flow.config.tokenUrl (send request))) := by
  unfold Flow.receive
  -- A connection that fails, one that is answered without an end, and one that ends the wait.
  cases connection with
  | error message => exact Or.inr (Or.inl ⟨_, rfl, fun tokens h => nomatch h⟩)
  | ok read =>
    dsimp only
    -- The answer may leave the flow waiting, end it with an error, or hand it a code to exchange.
    cases hanswer : answerCallback flow.state read with
    | wait reply => exact Or.inl rfl
    | panicked => exact Or.inr (Or.inl ⟨_, rfl, fun tokens h => nomatch h⟩)
    | done reply result =>
      cases result with
      | error error => exact Or.inr (Or.inl ⟨_, rfl, fun tokens h => nomatch h⟩)
      | ok code =>
        obtain ⟨hstate, hcode⟩ := param_of_done hanswer
        dsimp only [Waiting.finish]
        unfold exchangeCode postTokenRequest
        cases hclient : tools.clientError with
        | some message => exact Or.inr (Or.inl ⟨_, rfl, fun tokens h => nomatch h⟩)
        | none => exact Or.inr (Or.inr ⟨read, code, rfl, hstate, hcode, _, rfl, rfl, rfl⟩)

/-- The names of the exchange are different. -/
theorem exchangeForm_nodup (config : OAuth2) (code verifier redirectUri : Text) :
    ((exchangeForm config code verifier redirectUri).map (·.1)).Nodup := by
  unfold exchangeForm
  cases config.clientSecret with
  | none => exact (by decide +kernel : List.Nodup ["grant_type".toList, "code".toList,
      "redirect_uri".toList, "client_id".toList, "code_verifier".toList])
  | some secret => exact (by decide +kernel : List.Nodup ["grant_type".toList, "code".toList,
      "redirect_uri".toList, "client_id".toList, "code_verifier".toList, "client_secret".toList])

/-- The provider finds the code and the verifier in the exchange. -/
theorem parseQuery_exchange (hread : tools.ReadsBack) (config : OAuth2)
    (code verifier redirectUri : Text) :
    ∃ params, parseQuery (tools.formBody (exchangeForm config code verifier redirectUri))
        = some params ∧
      params.get? "code".toList = some code ∧
      params.get? "code_verifier".toList = some verifier := by
  obtain ⟨params, hparams, hget⟩ := hread _ (exchangeForm_nodup config code verifier redirectUri)
  refine ⟨params, hparams, hget ("code".toList, code) ?_,
    hget ("code_verifier".toList, verifier) ?_⟩
  · exact List.mem_append.mpr (Or.inl (by simp))
  · exact List.mem_append.mpr (Or.inl (by simp))

/-- What the provider answers to the exchange of a flow: the tokens of the code, exactly when the
code was issued for the challenge of the verifier. -/
theorem redeem_exchange (hread : tools.ReadsBack) (server : ProviderTools)
    (provider : Provider) (config : OAuth2)
    (code verifier redirectUri : Text) :
    provider.redeem tools server
        (tools.formBody (exchangeForm config code verifier redirectUri))
      = if provider.issued.get? code = some (Pkce.fromVerifier tools verifier).challenge
        then (.ok ⟨200, server.tokens code⟩,
          { provider with grants := provider.grants ++ [(code, verifier)] })
        else (.ok ⟨400, server.refused⟩, provider) := by
  obtain ⟨params, hparams, hcode, hverifier⟩ :=
    parseQuery_exchange hread config code verifier redirectUri
  unfold Provider.redeem
  rw [hparams]
  dsimp only
  rw [hcode, hverifier]
  rfl

/-! ### What has happened -/

/-- A login got these tokens: a connection brought its state and a code, and the provider handed
them out for this code and the verifier of the login. -/
def SignedIn (tools : FlowTools) (server : ProviderTools) (H : Event → Prop)
    (grants : List (Text × Text)) (index : Nat) (begun : Waiting) (tokens : Tokens) : Prop :=
  ∃ read code, H (.connect index (.ok read)) ∧ param read "state" = some begun.state ∧
    param read "code" = some code ∧ (code, begun.pkce.verifier) ∈ grants ∧
    tools.parseTokens (server.tokens code) = .ok tokens

/-- A code was issued for a challenge: somebody visited a URL with it. -/
def IssuedFor (H : Event → Prop) (code challenge : Text) : Prop :=
  ∃ url, H (.visit url code) ∧ challengeOf url = some challenge

/-- What stands in the system goes back to events that happened. -/
structure Accounted (tools : FlowTools) (server : ProviderTools) (H : Event → Prop) (s : System) :
    Prop where
  issued : ∀ code challenge, s.provider.issued.get? code = some challenge →
    IssuedFor H code challenge
  grants : ∀ grant ∈ s.provider.grants,
    IssuedFor H grant.1 (Pkce.fromVerifier tools grant.2).challenge
  begun : ∀ login ∈ s.logins, ∃ config options drawn, H (.start config options drawn) ∧
    begin tools config options drawn = .ok login.begun
  waiting : ∀ login ∈ s.logins, ∀ flow, login.flow = .waiting flow → flow = login.begun
  signedIn : ∀ index login, s.logins[index]? = some login →
    login.begun.config.tokenUrl = server.tokenUrl → ∀ request tokens,
      login.flow = .ended request (some (.ok tokens)) →
        SignedIn tools server H s.provider.grants index login.begun tokens

/-- A grant more. -/
theorem SignedIn.mono {H : Event → Prop} {grants grants' : List (Text × Text)} {index : Nat}
    {begun : Waiting} {tokens : Tokens} (h : SignedIn tools server H grants index begun tokens)
    (hsub : grants ⊆ grants') : SignedIn tools server H grants' index begun tokens := by
  obtain ⟨read, code, hconnect, hstate, hcode, hgrant, htokens⟩ := h
  exact ⟨read, code, hconnect, hstate, hcode, hsub hgrant, htokens⟩

section Keep

variable {H : Event → Prop} {s : System}

/-- A provider that has issued the same codes, and granted more, rightly. -/
theorem Accounted.setProvider (h : Accounted tools server H s) {provider : Provider}
    (hissued : ∀ code challenge, provider.issued.get? code = some challenge →
      IssuedFor H code challenge)
    (hgrants : ∀ grant ∈ provider.grants, grant ∈ s.provider.grants ∨
      IssuedFor H grant.1 (Pkce.fromVerifier tools grant.2).challenge)
    (hsub : s.provider.grants ⊆ provider.grants) :
    Accounted tools server H { s with provider } := by
  refine ⟨hissued, fun grant hgrant => ?_, h.begun, h.waiting, fun index login hlogin hurl request
    tokens hflow => (h.signedIn index login hlogin hurl request tokens hflow).mono hsub⟩
  rcases hgrants grant hgrant with hold | hnew
  · exact h.grants grant hold
  · exact hnew

/-- Whatever the provider is asked, it stays accounted for. -/
theorem Accounted.redeem (h : Accounted tools server H s) (body : Text) :
    Accounted tools server H
      { s with provider := (s.provider.redeem tools server body).2 } := by
  rcases redeem_cases s.provider tools server body with
    ⟨hsame, -⟩ | ⟨params, code, verifier, -, -, -, hissued, hredeem⟩
  · rw [hsame]
    exact h
  · rw [hredeem]
    refine h.setProvider h.issued (fun grant hgrant => ?_) (List.subset_append_left _ _)
    rcases List.mem_append.mp hgrant with hold | hnew
    · exact Or.inl hold
    · obtain rfl := List.mem_singleton.mp hnew
      exact Or.inr (h.issued code _ hissued)

/-- A login that goes on without tokens, or with those it was handed. -/
theorem Accounted.setLogin (h : Accounted tools server H s) {index : Nat} {login : Login}
    (hlogin : s.logins[index]? = some login) {flow : Flow}
    (hwaiting : ∀ w, flow = .waiting w → w = login.begun)
    (hsigned : login.begun.config.tokenUrl = server.tokenUrl → ∀ request tokens,
      flow = .ended request (some (.ok tokens)) →
        SignedIn tools server H s.provider.grants index login.begun tokens) :
    Accounted tools server H { s with logins := s.logins.set index { login with flow } } := by
  have hmem : login ∈ s.logins := List.mem_of_getElem? hlogin
  have hlength : index < s.logins.length := (List.getElem?_eq_some_iff.mp hlogin).1
  refine ⟨h.issued, h.grants, fun other hother => ?_, fun other hother => ?_, ?_⟩
  · rcases List.mem_or_eq_of_mem_set hother with hother | rfl
    · exact h.begun other hother
    · exact h.begun login hmem
  · rcases List.mem_or_eq_of_mem_set hother with hother | rfl
    · exact h.waiting other hother
    · exact hwaiting
  · intro i other hother hurl request tokens hflow
    by_cases hi : index = i
    · subst hi
      have heq := (List.getElem?_set_self hlength).symm.trans hother
      obtain rfl := Option.some.inj heq
      exact hsigned hurl request tokens hflow
    · exact h.signedIn i other ((List.getElem?_set_ne hi).symm.trans hother) hurl request tokens
        hflow

/-- A response that is no success brings no tokens. -/
theorem tokenResult_refused (tokenUrl : Text) (tokens : Tokens) :
    tokenResult tools tokenUrl (.ok ⟨400, server.refused⟩) ≠ .ok tokens := by
  intro h
  unfold tokenResult at h
  dsimp only at h
  rw [if_neg (by decide)] at h
  exact nomatch h

/-- The tokens of a response that is one. -/
theorem tokenResult_granted {tokenUrl text : Text} {tokens : Tokens} :
    tokenResult tools tokenUrl (.ok ⟨200, text⟩) = .ok tokens ↔
      tools.parseTokens text = .ok tokens := by
  unfold tokenResult
  dsimp only
  rw [if_pos (by decide)]
  cases tools.parseTokens text with
  | ok parsed => simp [Except.mapError]
  | error message => simp [Except.mapError]

/-- A connection reaches a flow. -/
theorem Accounted.connect (hread : tools.ReadsBack) (h : Accounted tools server H s) {index : Nat}
    {connection : Except Text (List UInt8)} (hH : H (.connect index connection)) :
    Accounted tools server H (s.connect tools server index connection) := by
  unfold System.connect
  cases hlogin : s.logins[index]? with
  | none => exact h
  | some login =>
    dsimp only
    cases hflow : login.flow with
    | ended request result => exact h
    | waiting flow =>
      have hmem : login ∈ s.logins := List.mem_of_getElem? hlogin
      obtain rfl := h.waiting login hmem flow hflow
      dsimp only
      rcases receive_cases tools (fun request => (s.provider.answer tools server request).1)
        connection login.begun with
        hnext | ⟨result, hnext, hnone⟩
          | ⟨read, code, rfl, hstate, hcode, request, hurl, hbody, hnext⟩
      · -- The flow waits on.
        rw [hnext]
        exact h.setLogin hlogin (fun w hw => (Flow.waiting.inj hw).symm)
          fun _ request tokens hended => nomatch hended
      · -- The flow ends without tokens.
        rw [hnext]
        refine h.setLogin hlogin (fun w hw => nomatch hw) fun _ request tokens hended => ?_
        exact absurd (Flow.ended.inj hended).2 (hnone tokens)
      · -- The flow exchanges the code, here or at a server that is not this provider.
        rw [hnext]
        dsimp only [Flow.request]
        unfold Provider.answer
        by_cases hown : request.url = server.tokenUrl
        · rw [if_pos hown, hbody]
          have hanswer := redeem_exchange hread server s.provider login.begun.config code
            login.begun.pkce.verifier login.begun.redirectUri
          have hafter := h.redeem (tools.formBody (exchangeForm login.begun.config code
            login.begun.pkce.verifier login.begun.redirectUri))
          refine hafter.setLogin hlogin (fun w hw => nomatch hw) fun _ request' tokens hended => ?_
          have hresult := Option.some.inj (Flow.ended.inj hended).2
          rw [hanswer] at hresult ⊢
          split at hresult
          · rename_i hissued
            rw [if_pos hissued]
            exact ⟨read, code, hH, hstate, hcode,
              List.mem_append.mpr (Or.inr (List.mem_singleton_self _)),
              tokenResult_granted.mp hresult⟩
          · exact absurd hresult (tokenResult_refused _ tokens)
        · rw [if_neg hown]
          refine h.setLogin hlogin (fun w hw => nomatch hw) fun hsame => ?_
          exact absurd (hurl.trans hsame) hown

/-- Every step is accounted for. -/
theorem Accounted.step (hread : tools.ReadsBack) (h : Accounted tools server H s) {event : Event}
    (hH : H event) : Accounted tools server H (s.step tools server event) := by
  cases event with
  | start config options drawn =>
    show Accounted tools server H (match begin tools config options drawn with
      | .error _ => s
      | .ok flow => { s with logins := s.logins ++ [⟨flow, .waiting flow⟩] })
    cases hbegin : begin tools config options drawn with
    | error error => exact h
    | ok flow =>
      refine ⟨h.issued, h.grants, fun login hlogin => ?_, fun login hlogin w hw => ?_, ?_⟩
      · rcases List.mem_append.mp hlogin with hold | hnew
        · exact h.begun login hold
        · obtain rfl := List.mem_singleton.mp hnew
          exact ⟨config, options, drawn, hH, hbegin⟩
      · rcases List.mem_append.mp hlogin with hold | hnew
        · exact h.waiting login hold w hw
        · obtain rfl := List.mem_singleton.mp hnew
          exact (Flow.waiting.inj hw).symm
      · intro index login hlogin hurl request tokens hended
        by_cases hlt : index < s.logins.length
        · exact h.signedIn index login ((List.getElem?_append_left hlt).symm.trans hlogin) hurl
            request tokens hended
        · have hlast := (List.getElem?_append_right (not_lt.mp hlt)).symm.trans hlogin
          obtain rfl := List.mem_singleton.mp (List.mem_of_getElem? hlast)
          exact nomatch hended
  | visit url code =>
    show Accounted tools server H { s with provider := s.provider.visit url code }
    unfold Provider.visit
    cases hchallenge : challengeOf url with
    | none => exact h
    | some challenge =>
      refine h.setProvider (fun code' challenge' hissued => ?_) (fun grant hgrant => Or.inl hgrant)
        (List.Subset.refl _)
      -- A code that is issued again is kept with the new challenge.
      by_cases hcode : code' = code
      · subst hcode
        have heq :=
          (SortedMap.get?_insert_self s.provider.issued code' challenge).symm.trans hissued
        obtain rfl := Option.some.inj heq
        exact ⟨url, hH, hchallenge⟩
      · exact h.issued code' challenge'
          ((SortedMap.get?_insert_of_ne s.provider.issued challenge hcode).symm.trans hissued)
  | connect index connection => exact h.connect hread hH
  | expire index =>
    show Accounted tools server H { s with logins := s.logins.modify index fun login =>
      { login with flow := login.flow.expire } }
    rw [List.modify_eq_set_getElem?]
    cases hlogin : s.logins[index]? with
    | none => exact h
    | some login =>
      -- The deadline brings no tokens, and a flow that has ended keeps what it has.
      refine h.setLogin hlogin (fun w hw => ?_) fun hurl request tokens hended => ?_
      · cases hflow : login.flow with
        | waiting flow =>
          rw [hflow] at hw
          exact nomatch hw
        | ended request result =>
          rw [hflow] at hw
          exact nomatch hw
      · cases hflow : login.flow with
        | waiting flow =>
          rw [hflow] at hended
          exact nomatch hended
        | ended request' result =>
          rw [hflow] at hended
          obtain ⟨rfl, rfl⟩ := Flow.ended.inj hended
          exact h.signedIn index login hlogin hurl request' tokens hflow
  | redeem body => exact h.redeem body

/-- Whatever happens, everything stays accounted for. -/
theorem Accounted.run (hread : tools.ReadsBack) (h : Accounted tools server H s)
    {events : List Event} (hH : ∀ event ∈ events, H event) :
    Accounted tools server H (s.run tools server events) := by
  induction events generalizing s with
  | nil => exact h
  | cons event events ih =>
    exact ih (h.step hread (hH event List.mem_cons_self))
      fun e he => hH e (List.mem_cons_of_mem event he)

/-- At the start there is nothing to account for. -/
theorem accounted_empty : Accounted tools server H System.empty :=
  ⟨fun _ _ h => (nomatch h), fun _ h => absurd h List.not_mem_nil,
    fun _ h => absurd h List.not_mem_nil, fun _ h => absurd h List.not_mem_nil,
    fun _ _ h => (nomatch h)⟩

end Keep

end Facts

/-! ### A library for one flow -/

/-- A form as the HTTP library writes it. -/
theorem parseQuery_serialize {form : List (Text × Text)} (h : (form.map (·.1)).Nodup) :
    ∃ params, parseQuery (FormUrlencoded.serialize Engine.urlencode form) = some params ∧
      ∀ entry ∈ form, params.get? entry.1 = some entry.2 := by
  -- The form splits back into the entries as they were escaped.
  have hraw : rawParams (FormUrlencoded.serialize Engine.urlencode form)
      = form.map fun entry => (Engine.urlencode entry.1, Engine.urlencode entry.2) := by
    by_cases hnil : form = []
    · rw [hnil]
      rfl
    · -- No `&` is left unescaped in an entry, so the body splits at those between the entries.
      have hpiece : ∀ l ∈ form.map (FormUrlencoded.writePair Engine.urlencode),
          '&' ∉ l ∧ l ≠ [] := by
        intro l hl
        obtain ⟨entry, -, rfl⟩ := List.mem_map.mp hl
        exact FormUrlencoded.writePair_piece urlencode_encoder entry
      have hne : form.map (FormUrlencoded.writePair Engine.urlencode) ≠ [] :=
        fun heq => hnil (List.map_eq_nil_iff.mp heq)
      unfold FormUrlencoded.serialize rawParams
      rw [List.splitOn_intercalate _ (fun l hl => (hpiece l hl).1) hne,
        List.filter_eq_self.mpr fun l hl => decide_eq_true (hpiece l hl).2, List.filterMap_map,
        ← List.filterMap_eq_map]
      refine List.filterMap_congr fun entry _ => ?_
      refine splitOnce_singleton_iff.mpr ⟨rfl, fun hmem => ?_⟩
      exact (urlencode_encoder.separators _ _ hmem).2 rfl
  -- And unescaping gives them back.
  have hdecoded : ∀ entry : Text × Text,
      decodeParam (Engine.urlencode entry.1, Engine.urlencode entry.2) = some entry := by
    intro entry
    unfold decodeParam urldecode
    rw [percentDecode_urlencode, percentDecode_urlencode]
    rfl
  refine ⟨SortedMap.ofList form, ?_, fun entry hentry => ?_⟩
  · unfold parseQuery
    rw [hraw, Fallible.mapM_eq_filterMap, List.filterMap_map]
    · have hall : form.filterMap (decodeParam ∘ fun entry : Text × Text =>
          (Engine.urlencode entry.1, Engine.urlencode entry.2)) = form :=
        (List.filterMap_congr fun entry _ => hdecoded entry).trans List.filterMap_some
      rw [hall]
      rfl
    · intro pair hpair
      obtain ⟨entry, -, rfl⟩ := List.mem_map.mp hpair
      rw [hdecoded]
      rfl
  -- No name comes twice, so that the map holds each entry.
  · rw [← List.nil_append form]
    exact get?_ofList_append h hentry

/-- A library that knows the digest of one verifier, and the tokens of one response. -/
def plainFlowTools : FlowTools where
  sha256 bytes :=
    if bytes = Utf8.encode (List.replicate 64 'A') then
      [213, 62, 218, 122, 99, 124, 153, 204, 127, 181, 102, 217, 110, 159, 161, 9,
        191, 21, 196, 120, 65, 10, 63, 94, 180, 212, 196, 226, 108, 208, 129, 246]
    else []
  base64url := Base64.encodeUrl
  bindError _ := none
  localAddr _ := .ok 43117
  clientError := none
  formBody := FormUrlencoded.serialize Engine.urlencode
  statusText status := natText status.toNat
  parseTokens text :=
    if text = "\x7b\"access_token\":\"at-1\"\x7d".toList then .ok { accessToken := "at-1".toList }
    else .error "expected value".toList

/-- The forms of the sample are read back. -/
theorem plainFlowTools_readsBack : plainFlowTools.ReadsBack := fun _ h => parseQuery_serialize h

/-- A provider that answers with one token for every code. -/
def plainServer : ProviderTools where
  tokenUrl := "https://a.test/token".toList
  tokens _ := "\x7b\"access_token\":\"at-1\"\x7d".toList
  refused := "\x7b\"error\":\"invalid_grant\"\x7d".toList
  elsewhere _ := .error "connection refused".toList

/-- A sign-in at the provider of the sample. -/
def plainConfig : OAuth2 :=
  { grant := .authorizationCode, tokenUrl := "https://a.test/token".toList,
    authorizeUrl := some "https://a.test/authorize".toList, redirectUri := none,
    clientId := "client 1".toList, clientSecret := none, scope := none, audience := none,
    credentialsInBody := false }

/-- A draw of zeros. -/
def plainDraw : FlowDraw := ⟨⟨List.replicate 48 0, rfl⟩, ⟨List.replicate 24 0, rfl⟩⟩

/-- A flow that has begun. -/
def plainBegun : Waiting :=
  { config := plainConfig
    redirectUri := "http://127.0.0.1:43117/callback".toList
    pkce := Pkce.generate plainFlowTools plainDraw
    state := List.replicate 32 'A'
    url := buildAuthorizeUrl "https://a.test/authorize".toList plainConfig
      "http://127.0.0.1:43117/callback".toList (Pkce.generate plainFlowTools plainDraw)
      (List.replicate 32 'A') }

/-- The callback of the browser. -/
def plainCallback : List UInt8 :=
  Utf8.encode ("GET /callback?code=c1&state=".toList ++ List.replicate 32 'A'
    ++ " HTTP/1.1\r\n\r\n".toList)

/-- The flow of the sample waits once it is started. -/
theorem plainBegun_login :
    (System.empty.run plainFlowTools plainServer [.start plainConfig {} plainDraw]).logins[0]?
      = some ⟨plainBegun, .waiting plainBegun⟩ := by
  rfl

/-- The callback of the sample: a request that can be read, with the state of the flow and a code.
-/
theorem plainCallback_params : ReadableRequest plainCallback ∧ param plainCallback "error" = none ∧
    param plainCallback "state" = some plainBegun.state ∧
    param plainCallback "code" = some "c1".toList := by
  refine ⟨?_, ?_, ?_, ?_⟩
  · unfold ReadableRequest Decodes
    decide +kernel
  all_goals decide +kernel

/-! ### Random values -/

/-- Characters of the alphabet are written as they are. -/
theorem urlencode_alphabet {t : Text} (h : ∀ c ∈ t, c ∈ verifierAlphabet) : urlencode t = t := by
  have hone : ∀ c ∈ verifierAlphabet, urlencode [c] = [c] :=
    forall_mem_of_all (by decide +kernel)
  induction t with
  | nil => rfl
  | cons c t ih =>
    have hsplit : urlencode (c :: t) = urlencode [c] ++ urlencode t := by
      unfold urlencode
      rw [← List.flatMap_append, ← Utf8.encode_append, List.singleton_append]
    rw [hsplit, hone c (h c List.mem_cons_self), ih fun d hd => h d (List.mem_cons_of_mem c hd)]
    rfl

example : urlencode "aZ09-._~".toList = "aZ09-._~".toList := by decide +kernel

/-- **A verifier is what RFC 7636 asks for.** A verifier has 64 characters and a state has 32, all
of the alphabet that needs no escaping in a URL; and other random bytes are another verifier and
another state. -/
theorem random_wellformed {tools : FlowTools} (hbase64 : Base64.UrlSafe tools.base64url) :
    (∀ drawn : FlowDraw, (randomUnreserved tools drawn.verifier).length = 64 ∧
      (randomState tools drawn).length = 32 ∧
      ∀ c ∈ randomUnreserved tools drawn.verifier ++ randomState tools drawn,
        c ∈ verifierAlphabet) ∧
    (∀ t : Text, (∀ c ∈ t, c ∈ verifierAlphabet) → urlencode t = t) ∧
    ∀ a b : FlowDraw, (randomUnreserved tools a.verifier = randomUnreserved tools b.verifier →
        a.verifier = b.verifier) ∧ (randomState tools a = randomState tools b →
          a.state = b.state) := by
  refine ⟨fun drawn => ⟨?_, ?_, fun c hc => ?_⟩, fun t => urlencode_alphabet, fun a b => ⟨?_, ?_⟩⟩
  · exact hbase64.length_eq (n := 16) drawn.verifier.2
  · exact hbase64.length_eq (n := 8) drawn.state.2
  · have hall : ∀ c ∈ Base64.urlAlphabet, c ∈ verifierAlphabet := forall_mem_of_all (by decide)
    rcases List.mem_append.mp hc with hc | hc
    · exact hall c (hbase64.alphabet _ c hc)
    · exact hall c (hbase64.alphabet _ c hc)
  · exact fun h => Subtype.ext (hbase64.injective h)
  · exact fun h => Subtype.ext (hbase64.injective h)

/-- The state of a flow that drew zeros. -/
theorem random_wellformed_plain : (randomState plainFlowTools plainDraw).length = 32 ∧
    urlencode (randomState plainFlowTools plainDraw) = randomState plainFlowTools plainDraw := by
  obtain ⟨hdrawn, hplain, -⟩ := @random_wellformed plainFlowTools Base64.urlSafe_encodeUrl
  obtain ⟨-, hlength, hchars⟩ := hdrawn plainDraw
  exact ⟨hlength, hplain _ fun c hc => hchars c (List.mem_append_right _ hc)⟩

/-! ### Who gets tokens -/

section Runs

variable {tools : FlowTools} {server : ProviderTools}

/-- A flow has begun with a verifier and its challenge, and shows both in no other way than its
URL does. -/
theorem begin_eq_ok {config : OAuth2} {options : FlowOptions} {drawn : FlowDraw} {flow : Waiting}
    (h : begin tools config options drawn = .ok flow) :
    Pkce.fromVerifier tools flow.pkce.verifier = flow.pkce ∧
      ∃ authorizeUrl, flow.config.authorizeUrl = some authorizeUrl ∧ flow.url
        = buildAuthorizeUrl authorizeUrl flow.config flow.redirectUri flow.pkce flow.state := by
  unfold begin at h
  split at h
  · exact nomatch h
  · split at h
    · exact nomatch h
    · rename_i authorizeUrl hauthorize
      split at h
      · exact nomatch h
      · split at h
        · exact nomatch h
        · obtain rfl := Except.ok.inj h
          exact ⟨rfl, authorizeUrl, hauthorize, rfl⟩

/-- The verifier of a flow is what it drew. -/
theorem verifier_of_begin {config : OAuth2} {options : FlowOptions} {drawn : FlowDraw}
    {flow : Waiting} (h : begin tools config options drawn = .ok flow) :
    flow.pkce.verifier = randomUnreserved tools drawn.verifier := by
  unfold begin at h
  split at h
  · exact nomatch h
  · split at h
    · exact nomatch h
    · split at h
      · exact nomatch h
      · split at h
        · exact nomatch h
        · obtain rfl := Except.ok.inj h
          rfl

/-- **A flow gets the tokens of its own sign-in.** Whatever the flows, the visitors of the provider
and the senders to their listeners do, in any order: a flow of this provider that got tokens got
them for a code that a connection brought to it with its own state, and that the provider had issued
for a URL with its own challenge. -/
theorem signedIn_own (hread : tools.ReadsBack) (events : List Event) {index : Nat} {login : Login}
    (hlogin : (System.empty.run tools server events).logins[index]? = some login)
    (hurl : login.begun.config.tokenUrl = server.tokenUrl) {request : Option TokenRequest}
    {tokens : Tokens} (hended : login.flow = .ended request (some (.ok tokens))) :
    ∃ read code url, .connect index (.ok read) ∈ events ∧
      param read "state" = some login.begun.state ∧ param read "code" = some code ∧
      .visit url code ∈ events ∧ challengeOf url = some login.begun.pkce.challenge ∧
      tools.parseTokens (server.tokens code) = .ok tokens := by
  have h : Accounted tools server (· ∈ events) (System.empty.run tools server events) :=
    accounted_empty.run hread fun event hevent => hevent
  obtain ⟨read, code, hconnect, hstate, hcode, hgrant, htokens⟩ :=
    h.signedIn index login hlogin hurl request tokens hended
  obtain ⟨url, hvisit, hchallenge⟩ := h.grants _ hgrant
  obtain ⟨config, options, drawn, -, hbegin⟩ := h.begun login (List.mem_of_getElem? hlogin)
  rw [(begin_eq_ok hbegin).1] at hchallenge
  exact ⟨read, code, url, hconnect, hstate, hcode, hvisit, hchallenge, htokens⟩

/-- The tokens of a flow that has them. -/
def Flow.tokens : Flow → Option Tokens
  | .ended _ (some (.ok tokens)) => some tokens
  | _ => none

/-- A flow has tokens when it ended with them. -/
theorem tokens_eq_some {flow : Flow} {tokens : Tokens} (h : flow.tokens = some tokens) :
    ∃ request, flow = .ended request (some (.ok tokens)) := by
  unfold Flow.tokens at h
  split at h
  · exact ⟨_, by rw [Option.some.inj h]⟩
  · exact nomatch h

/-- The events of one sign-in. -/
def plainEvents : List Event :=
  [.start plainConfig {} plainDraw, .visit plainBegun.url "c1".toList,
    .connect 0 (.ok plainCallback)]

/-- What they come to: the flow has its tokens, and the provider has handed out one grant. -/
theorem run_plainEvents :
    ((System.empty.run plainFlowTools plainServer plainEvents).logins[0]?).bind
        (fun login => login.flow.tokens.map fun tokens => (login.begun.config.tokenUrl, tokens))
      = some (plainServer.tokenUrl, { accessToken := "at-1".toList }) ∧
    (System.empty.run plainFlowTools plainServer plainEvents).provider.grants
      = [("c1".toList, List.replicate 64 'A')] := by
  decide +kernel

/-- The tokens of this sign-in come from its own callback. -/
theorem signedIn_own_plain : ∃ read code, .connect 0 (.ok read) ∈ plainEvents ∧
    param read "code" = some code := by
  obtain ⟨login, hlogin, htokens⟩ := Option.bind_eq_some_iff.mp run_plainEvents.1
  obtain ⟨tokens, htokens, hpair⟩ := Option.map_eq_some_iff.mp htokens
  obtain ⟨request, hended⟩ := tokens_eq_some htokens
  obtain ⟨read, code, -, hconnect, -, hcode, -⟩ :=
    signedIn_own plainFlowTools_readsBack plainEvents hlogin (Prod.mk.inj hpair).1 hended
  exact ⟨read, code, hconnect, hcode⟩

/-! ### What a code is good for -/

/-- A token request issues no code. -/
theorem redeem_issued (provider : Provider) (body : Text) :
    (provider.redeem tools server body).2.issued = provider.issued := by
  rcases redeem_cases provider tools server body with
    ⟨hsame, -⟩ | ⟨params, code, verifier, -, -, -, -, hredeem⟩
  · rw [hsame]
  · rw [hredeem]

/-- Neither does the provider's answer to one. -/
theorem answer_issued (provider : Provider) (request : TokenRequest) :
    (provider.answer tools server request).2.issued = provider.issued := by
  unfold Provider.answer
  split
  · exact redeem_issued provider request.body
  · rfl

/-- A connection leaves the codes as they are, and the other logins. -/
theorem connect_frame (tools : FlowTools) (server : ProviderTools) (s : System) (i : Nat)
    (connection : Except Text (List UInt8)) :
    (s.connect tools server i connection).provider.issued = s.provider.issued ∧
      ∀ j, j ≠ i → (s.connect tools server i connection).logins[j]? = s.logins[j]? := by
  unfold System.connect
  split
  · exact ⟨rfl, fun _ _ => rfl⟩
  · split
    · exact ⟨rfl, fun _ _ => rfl⟩
    · dsimp only
      refine ⟨?_, fun j hj => List.getElem?_set_ne hj.symm⟩
      split
      · exact answer_issued s.provider _
      · rfl

/-- What a code was issued for stays, as long as it is not issued again. -/
theorem issued_step (tools : FlowTools) (server : ProviderTools) (s : System) {event : Event}
    {code : Text} (h : ∀ url, event ≠ .visit url code) :
    (s.step tools server event).provider.issued.get? code = s.provider.issued.get? code := by
  -- Only a visit issues a code, and by hypothesis it is another one.
  cases event with
  | start config options drawn =>
    show (match begin tools config options drawn with
      | .error _ => s
      | .ok flow =>
          { s with logins := s.logins ++ [Login.mk flow (.waiting flow)] }).provider.issued.get?
        code = _
    cases begin tools config options drawn with
    | error error => rfl
    | ok flow => rfl
  | visit url other =>
    have hother : other ≠ code := fun heq => h url (by rw [heq])
    show (s.provider.visit url other).issued.get? code = _
    unfold Provider.visit
    split
    · exact SortedMap.get?_insert_of_ne s.provider.issued _ hother.symm
    · rfl
  | connect i connection =>
    show (s.connect tools server i connection).provider.issued.get? code = _
    rw [(connect_frame tools server s i connection).1]
  | expire i => rfl
  | redeem body =>
    show (s.provider.redeem tools server body).2.issued.get? code = _
    rw [redeem_issued]

/-- What is handed out is handed out for the challenge that the code was issued for. -/
theorem grants_redeem (provider : Provider) (body : Text) :
    ∀ grant ∈ (provider.redeem tools server body).2.grants, grant ∈ provider.grants ∨
      provider.issued.get? grant.1 = some (Pkce.fromVerifier tools grant.2).challenge := by
  intro grant hgrant
  rcases redeem_cases provider tools server body with
    ⟨hsame, -⟩ | ⟨params, code, verifier, -, -, -, hissued, hredeem⟩
  · rw [hsame] at hgrant
    exact Or.inl hgrant
  · rw [hredeem] at hgrant
    rcases List.mem_append.mp hgrant with hold | hnew
    · exact Or.inl hold
    · obtain rfl := List.mem_singleton.mp hnew
      exact Or.inr hissued

/-- The same for any step. -/
theorem grants_step (tools : FlowTools) (server : ProviderTools) (s : System) (event : Event) :
    ∀ grant ∈ (s.step tools server event).provider.grants, grant ∈ s.provider.grants ∨
      s.provider.issued.get? grant.1 = some (Pkce.fromVerifier tools grant.2).challenge := by
  -- Only the endpoint grants: asked by a flow, or by somebody else.
  cases event with
  | start config options drawn =>
    show ∀ grant ∈ (match begin tools config options drawn with
      | .error _ => s
      | .ok flow =>
          { s with logins := s.logins ++ [Login.mk flow (.waiting flow)] }).provider.grants, _
    cases begin tools config options drawn with
    | error error => exact fun grant hgrant => Or.inl hgrant
    | ok flow => exact fun grant hgrant => Or.inl hgrant
  | visit url other =>
    show ∀ grant ∈ (s.provider.visit url other).grants, _
    unfold Provider.visit
    split
    · exact fun grant hgrant => Or.inl hgrant
    · exact fun grant hgrant => Or.inl hgrant
  | connect i connection =>
    show ∀ grant ∈ (s.connect tools server i connection).provider.grants, _
    unfold System.connect
    split
    · exact fun grant hgrant => Or.inl hgrant
    · split
      · exact fun grant hgrant => Or.inl hgrant
      · dsimp only
        split
        · -- The request of the flow reaches the provider, or another server.
          unfold Provider.answer
          split
          · exact grants_redeem s.provider _
          · exact fun grant hgrant => Or.inl hgrant
        · exact fun grant hgrant => Or.inl hgrant
  | expire i => exact fun grant hgrant => Or.inl hgrant
  | redeem body => exact grants_redeem s.provider body

/-- A code is issued for a challenge, and since the grants were `old` it was redeemed with verifiers
of this challenge only. -/
structure Bound (tools : FlowTools) (code challenge : Text) (old : List (Text × Text))
    (s : System) : Prop where
  issued : s.provider.issued.get? code = some challenge
  grants : ∀ verifier, (code, verifier) ∈ s.provider.grants → (code, verifier) ∈ old ∨
    (Pkce.fromVerifier tools verifier).challenge = challenge

/-- A step that does not issue the code again keeps what is known about it. -/
theorem Bound.step {code challenge : Text} {old : List (Text × Text)} {s : System}
    (h : Bound tools code challenge old s) {event : Event}
    (hevent : ∀ url, event ≠ .visit url code) :
    Bound tools code challenge old (s.step tools server event) := by
  refine ⟨(issued_step tools server s hevent).trans h.issued, fun verifier hgrant => ?_⟩
  rcases grants_step tools server s event _ hgrant with hold | hissued
  · exact h.grants verifier hold
  · have heq := h.issued.symm.trans hissued
    exact Or.inr (Option.some.inj heq).symm

/-- So do any steps that do not. -/
theorem Bound.run {code challenge : Text} {old : List (Text × Text)} {s : System}
    (h : Bound tools code challenge old s) {events : List Event}
    (hevents : ∀ url, .visit url code ∉ events) :
    Bound tools code challenge old (s.run tools server events) := by
  induction events generalizing s with
  | nil => exact h
  | cons event events ih =>
    refine ih (h.step fun url heq => hevents url (heq ▸ List.mem_cons_self)) fun url hmem => ?_
    exact hevents url (List.mem_cons_of_mem event hmem)

/-- The URL of a flow has the challenge of the flow. -/
theorem challengeOf_begun {config : OAuth2} {options : FlowOptions} {drawn : FlowDraw}
    {flow : Waiting} (h : begin tools config options drawn = .ok flow)
    (hascii : ∀ authorizeUrl ∈ flow.config.authorizeUrl, ∀ c ∈ authorizeUrl, c.toNat < 0x80) :
    challengeOf flow.url = some flow.pkce.challenge := by
  obtain ⟨-, authorizeUrl, hauthorize, hshown⟩ := begin_eq_ok h
  obtain ⟨base, query, params, hsplit, hparams, hget⟩ :=
    parseQuery_buildAuthorizeUrl flow.config flow.redirectUri flow.pkce flow.state
      (hascii authorizeUrl hauthorize)
  unfold challengeOf
  rw [hshown, hsplit, Option.bind_some, hparams, Option.bind_some]
  refine hget ("code_challenge".toList, flow.pkce.challenge) ?_
  unfold authorizeParams
  simp

/-- A code that is issued for the URL of a flow is issued for the challenge of the flow. -/
theorem visit_begun {config : OAuth2} {options : FlowOptions} {drawn : FlowDraw} {flow : Waiting}
    (h : begin tools config options drawn = .ok flow)
    (hascii : ∀ authorizeUrl ∈ flow.config.authorizeUrl, ∀ c ∈ authorizeUrl, c.toNat < 0x80)
    (provider : Provider) (code : Text) :
    (provider.visit flow.url code).issued.get? code = some flow.pkce.challenge ∧
      (provider.visit flow.url code).grants = provider.grants := by
  unfold Provider.visit
  rw [challengeOf_begun h hascii]
  exact ⟨SortedMap.get?_insert_self provider.issued code flow.pkce.challenge, rfl⟩

/-- **A stolen code is useless.** In any state that flows, visitors and senders have brought about,
the provider issues a code for the URL of a flow. From then on, until it issues the code again: the
code is kept with the S256 challenge of the verifier that the flow drew, the exchange of the flow
gets its tokens, and whoever else asks gets them only with a verifier of the same digest. -/
theorem stolenCode_useless (hread : tools.ReadsBack)
    (hbase64 : Base64.UrlSafe tools.base64url) (events : List Event) {index : Nat}
    {login : Login} (hlogin : (System.empty.run tools server events).logins[index]? = some login)
    (hascii : ∀ authorizeUrl ∈ login.begun.config.authorizeUrl, ∀ c ∈ authorizeUrl, c.toNat < 0x80)
    {code : Text} {after : List Event} (hafter : ∀ url, .visit url code ∉ after) :
    let s := (System.empty.run tools server events).run tools server
      (.visit login.begun.url code :: after)
    (∃ config options drawn, .start config options drawn ∈ events ∧
      login.begun.pkce.verifier = randomUnreserved tools drawn.verifier ∧
      s.provider.issued.get? code
        = some (base64urlNopad tools (tools.sha256 (Utf8.encode login.begun.pkce.verifier)))) ∧
    (s.provider.redeem tools server (tools.formBody (exchangeForm login.begun.config code
      login.begun.pkce.verifier login.begun.redirectUri))).1 = .ok ⟨200, server.tokens code⟩ ∧
    ∀ verifier, (code, verifier) ∈ s.provider.grants →
      (code, verifier) ∈ (System.empty.run tools server events).provider.grants ∨
        tools.sha256 (Utf8.encode verifier)
          = tools.sha256 (Utf8.encode login.begun.pkce.verifier) := by
  -- What any run keeps says that the login began with a draw of its own.
  have haccounted : Accounted tools server (· ∈ events) (System.empty.run tools server events) :=
    accounted_empty.run hread fun event hevent => hevent
  generalize System.empty.run tools server events = before at hlogin haccounted ⊢
  obtain ⟨config, options, drawn, hstart, hbegin⟩ :=
    haccounted.begun _ (List.mem_of_getElem? hlogin)
  obtain ⟨hpkce, -⟩ := begin_eq_ok hbegin
  have hchallenge : login.begun.pkce.challenge
      = base64urlNopad tools (tools.sha256 (Utf8.encode login.begun.pkce.verifier)) := by
    conv_lhs => rw [← hpkce]
    rfl
  obtain ⟨hissued, hgrants⟩ := visit_begun hbegin hascii before.provider code
  -- The visit binds the code to the challenge, and the events after it keep it bound.
  have hvisited : Bound tools code login.begun.pkce.challenge before.provider.grants
      (before.step tools server (.visit login.begun.url code)) := by
    refine ⟨hissued, fun verifier hgrant => Or.inl ?_⟩
    rw [← hgrants]
    exact hgrant
  have hbound : Bound tools code login.begun.pkce.challenge before.provider.grants
      ((before.step tools server (.visit login.begun.url code)).run tools server after) :=
    hvisited.run hafter
  dsimp only
  refine ⟨⟨config, options, drawn, hstart, verifier_of_begin hbegin, ?_⟩, ?_,
    fun verifier hgrant => ?_⟩
  · rw [← hchallenge]
    exact hbound.issued
  -- The exchange of the flow shows the verifier whose digest is the challenge.
  · rw [redeem_exchange hread, if_pos]
    rw [hpkce]
    exact hbound.issued
  -- A verifier with the same challenge has the same digest, since base64 is injective.
  · refine (hbound.grants verifier hgrant).imp_right fun heq => ?_
    rw [hchallenge] at heq
    exact hbase64.injective heq

/-- A sign-in with a stolen code: somebody asks for tokens with the code alone, and then the flow
exchanges it. -/
def stolenRun : System :=
  (System.empty.run plainFlowTools plainServer [.start plainConfig {} plainDraw]).run
    plainFlowTools plainServer [.visit plainBegun.url "c1".toList, .redeem "code=c1".toList,
      .connect 0 (.ok plainCallback)]

/-- What is handed out in this run is handed out to the verifier of the flow, whose exchange still
succeeds. -/
theorem stolenCode_useless_plain :
    (stolenRun.provider.redeem plainFlowTools plainServer (plainFlowTools.formBody
        (exchangeForm plainBegun.config "c1".toList plainBegun.pkce.verifier
          plainBegun.redirectUri))).1
      = .ok ⟨200, plainServer.tokens "c1".toList⟩ ∧
    ∀ verifier, ("c1".toList, verifier) ∈ stolenRun.provider.grants →
      plainFlowTools.sha256 (Utf8.encode verifier)
        = plainFlowTools.sha256 (Utf8.encode plainBegun.pkce.verifier) := by
  have hascii : ∀ authorizeUrl ∈ plainBegun.config.authorizeUrl, ∀ c ∈ authorizeUrl,
      c.toNat < 0x80 := by
    intro authorizeUrl hmem
    obtain rfl := Option.some.inj hmem
    exact forall_mem_of_all (by decide)
  have hafter : ∀ url, .visit url "c1".toList ∉
      [Event.redeem "code=c1".toList, .connect 0 (.ok plainCallback)] := by
    intro url hmem
    simp at hmem
  obtain ⟨-, hexchange, hgrants⟩ := stolenCode_useless plainFlowTools_readsBack
    Base64.urlSafe_encodeUrl [.start plainConfig {} plainDraw] plainBegun_login hascii hafter
  refine ⟨hexchange, fun verifier hgrant => ?_⟩
  -- Before the visit nothing had been handed out.
  exact (hgrants verifier hgrant).resolve_left List.not_mem_nil

/-! ### A sign-in that nobody disturbs -/

/-- What may happen between the visit and the callback: anything but another code under the same
name, the deadline of the flow, and a connection to it that it does not pass over. -/
def Harmless (index : Nat) (state code : Text) : Event → Prop
  | .start _ _ _ => True
  | .visit _ other => other ≠ code
  | .connect i connection => i = index → ∃ read, connection = .ok read ∧ PassedOver state read
  | .expire i => i ≠ index
  | .redeem _ => True

/-- A login waits, and its code is issued. -/
structure Ready (index : Nat) (begun : Waiting) (code : Text) (s : System) : Prop where
  login : s.logins[index]? = some ⟨begun, .waiting begun⟩
  issued : s.provider.issued.get? code = some begun.pkce.challenge

/-- What is harmless issues no code again. -/
theorem Harmless.not_visit {index : Nat} {state code : Text} {event : Event}
    (h : Harmless index state code event) (url : Text) : event ≠ .visit url code := by
  rintro rfl
  exact h rfl

/-- What is harmless leaves a login ready. -/
theorem Ready.step (tools : FlowTools) (server : ProviderTools) {index : Nat} {begun : Waiting}
    {code : Text} {s : System} (h : Ready index begun code s) {event : Event}
    (hharmless : Harmless index begun.state code event) :
    Ready index begun code (s.step tools server event) := by
  have hlength : index < s.logins.length := (List.getElem?_eq_some_iff.mp h.login).1
  refine ⟨?_, (issued_step tools server s hharmless.not_visit).trans h.issued⟩
  cases event with
  | start config options drawn =>
    show (match begin tools config options drawn with
      | .error _ => s
      | .ok flow =>
          { s with logins := s.logins ++ [Login.mk flow (.waiting flow)] }).logins[index]? = _
    cases begin tools config options drawn with
    | error error => exact h.login
    | ok flow => exact (List.getElem?_append_left hlength).trans h.login
  | visit url other => exact h.login
  | connect i connection =>
    by_cases hi : i = index
    · -- The flow passes over the connection.
      obtain ⟨read, rfl, hpassed⟩ := hharmless hi
      subst hi
      obtain ⟨reply, hanswer⟩ := answerCallback_passedOver hpassed
      show (s.connect tools server i (.ok read)).logins[i]? = _
      unfold System.connect
      rw [h.login]
      dsimp only [Flow.receive]
      rw [hanswer]
      exact List.getElem?_set_self hlength
    · exact ((connect_frame tools server s i connection).2 index (Ne.symm hi)).trans h.login
  | expire i =>
    show (s.logins.modify i _)[index]? = _
    -- The deadline of another flow.
    have hother : i ≠ index := hharmless
    exact (List.getElem?_modify_ne _ s.logins hother).trans h.login
  | redeem body => exact h.login

/-- A login stays ready while nothing but harmless events happens. -/
theorem Ready.run (tools : FlowTools) (server : ProviderTools) {index : Nat} {begun : Waiting}
    {code : Text} {s : System} (h : Ready index begun code s) {events : List Event}
    (hharmless : ∀ event ∈ events, Harmless index begun.state code event) :
    Ready index begun code (s.run tools server events) := by
  induction events generalizing s with
  | nil => exact h
  | cons event events ih =>
    exact ih (h.step tools server (hharmless event List.mem_cons_self))
      fun e he => hharmless e (List.mem_cons_of_mem event he)

/-- The callback of a ready login ends it with the tokens of its code. -/
theorem Ready.connect (hread : tools.ReadsBack) (hclient : tools.clientError = none) {index : Nat}
    {begun : Waiting} {code : Text} {s : System} (h : Ready index begun code s)
    (hpkce : Pkce.fromVerifier tools begun.pkce.verifier = begun.pkce)
    (hurl : begun.config.tokenUrl = server.tokenUrl) {read : List UInt8}
    (hanswer : ∃ reply, answerCallback begun.state read = .done reply (.ok code))
    {tokens : Tokens} (htokens : tools.parseTokens (server.tokens code) = .ok tokens) :
    ∃ request, ((s.connect tools server index (.ok read)).logins[index]?).map (·.flow)
      = some (.ended (some request) (some (.ok tokens))) := by
  have hlength : index < s.logins.length := (List.getElem?_eq_some_iff.mp h.login).1
  obtain ⟨reply, hanswer⟩ := hanswer
  unfold System.connect
  rw [h.login]
  dsimp only [Flow.receive]
  rw [hanswer]
  dsimp only [Waiting.finish]
  unfold exchangeCode postTokenRequest Provider.answer
  rw [hclient]
  dsimp only
  rw [if_pos hurl, redeem_exchange hread, if_pos (by rw [hpkce]; exact h.issued),
    List.getElem?_set_self hlength, Option.map_some, tokenResult_granted.mpr htokens]
  exact ⟨_, rfl⟩

/-- **A sign-in completes.** In any state that flows, visitors and senders have brought about: a
flow that waits, whose URL is then visited, and to which a connection then brings its state and the
code, ends with the tokens of this code, whatever else happens in between that does not end the wait
and does not issue the code again. -/
theorem signIn_completes (hread : tools.ReadsBack) (hclient : tools.clientError = none)
    (events : List Event) {index : Nat} {begun : Waiting}
    (hlogin : (System.empty.run tools server events).logins[index]?
      = some ⟨begun, .waiting begun⟩)
    (hurl : begun.config.tokenUrl = server.tokenUrl)
    (hascii : ∀ authorizeUrl ∈ begun.config.authorizeUrl, ∀ c ∈ authorizeUrl, c.toNat < 0x80)
    {code : Text} {between : List Event}
    (hbetween : ∀ event ∈ between, Harmless index begun.state code event) {read : List UInt8}
    (hreadable : ReadableRequest read) (herror : param read "error" = none)
    (hstate : param read "state" = some begun.state) (hcode : param read "code" = some code)
    {tokens : Tokens} (htokens : tools.parseTokens (server.tokens code) = .ok tokens) :
    ∃ request, (((System.empty.run tools server events).run tools server
        (.visit begun.url code :: (between ++ [.connect index (.ok read)]))).logins[index]?).map
          (·.flow) = some (.ended (some request) (some (.ok tokens))) := by
  have haccounted : Accounted tools server (· ∈ events) (System.empty.run tools server events) :=
    accounted_empty.run hread fun event hevent => hevent
  generalize System.empty.run tools server events = s at hlogin haccounted ⊢
  obtain ⟨config, options, drawn, -, hbegin⟩ := haccounted.begun _ (List.mem_of_getElem? hlogin)
  obtain ⟨hpkce, -⟩ := begin_eq_ok hbegin
  -- The visit makes the code ready for the flow, and what happens in between keeps it ready.
  have hvisited : Ready index begun code (s.step tools server (.visit begun.url code)) :=
    ⟨hlogin, (visit_begun hbegin hascii s.provider code).1⟩
  have hready := hvisited.run tools server hbetween
  -- The connection brings the state and the code and no error, so that the answer is this code.
  have hanswer : ∃ reply, answerCallback begun.state read = .done reply (.ok code) := by
    cases hquery : requestQuery read with
    | none =>
      unfold param at hcode
      rw [hquery] at hcode
      exact nomatch hcode
    | some query => exact ⟨_, (answerCallback_match hquery hreadable herror hstate).2 code hcode⟩
  obtain ⟨request, hend⟩ := hready.connect hread hclient hpkce hurl hanswer htokens
  refine ⟨request, ?_⟩
  rw [← hend]
  unfold System.run
  rw [List.foldl_cons, List.foldl_append]
  rfl

/-- The sign-in completes, although somebody else asks for tokens in between. -/
theorem signIn_completes_plain : ∃ request,
    (((System.empty.run plainFlowTools plainServer [.start plainConfig {} plainDraw]).run
      plainFlowTools plainServer (.visit plainBegun.url "c1".toList
        :: ([.redeem "code=c1".toList] ++ [.connect 0 (.ok plainCallback)]))).logins[0]?).map
          (·.flow)
      = some (.ended (some request) (some (.ok { accessToken := "at-1".toList }))) := by
  obtain ⟨hreadable, herror, hstate, hcode⟩ := plainCallback_params
  refine signIn_completes plainFlowTools_readsBack rfl _ plainBegun_login rfl ?_ ?_ hreadable herror
    hstate hcode rfl
  · intro authorizeUrl hmem
    obtain rfl := Option.some.inj hmem
    exact forall_mem_of_all (by decide)
  · exact List.forall_mem_singleton.mpr trivial

end Runs

end Gabriel.Engine.Oauth
