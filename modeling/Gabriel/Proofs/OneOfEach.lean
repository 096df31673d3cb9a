import Gabriel.Cli.Collection
import Gabriel.Proofs.Preparation
import Gabriel.Proofs.Redirects

/-!
# `Gabriel.Proofs.OneOfEach`: one credential header of each kind

The headers of a request come from the request file and the collection's defaults, from the body,
from the authentication, and on each hop from the cookie jars. `apply_defaults` fills gaps by
name ("a request's own header always wins") and a body's content type does the same, but the
authentication and the cookies are pushed whatever is there.

So the question is about the four sources: whether two of them give the same one of `Authorization`,
`Cookie` and `Content-Type` (`OneSource`). Later hops send fewer of the same headers. Requests to a
token endpoint have each kind once in any case. The theorems:

* `oauthToken_adds`, `makeReady_adds`: what a token endpoint is asked, call by call.
* `applyAuth_headers`, `prepareParts_contentType`: what two of the sources add.
* `makeReady_sources`: the sources of a request that is ready.
* `turn_headers_sublist`: the headers of every turn are among those of the request.
* `oneOfEach_iff`: every request that a run sends has each kind at most once, exactly when no two
  sources give the same one.
-/

set_option autoImplicit false

namespace Gabriel.Engine

open Gabriel.Core Gabriel.Cli Text Fallible Orbit

variable {Url : Type}

/-! ### Headers of a name -/

/-- The headers with this name, in any letter case. -/
def named (name : Text) (headers : List (Text × Text)) : List (Text × Text) :=
  headers.filter fun e => eqIgnoreAsciiCase e.1 name

/-- The headers of a name in two lists, one after the other. -/
theorem named_append (name : Text) (a b : List (Text × Text)) :
    named name (a ++ b) = named name a ++ named name b := List.filter_append ..

/-- Only the names count. -/
theorem length_named (name : Text) (headers : List (Text × Text)) :
    (named name headers).length
      = (headers.map Prod.fst).countP fun other => eqIgnoreAsciiCase other name := by
  rw [List.countP_map, List.countP_eq_length_filter]
  rfl

/-- The headers that must not be repeated. -/
def credentialKinds : List Text :=
  ["authorization".toList, "cookie".toList, "content-type".toList]

/-- At most one header of each kind. -/
def EachOnce (headers : List (Text × Text)) : Prop :=
  ∀ kind ∈ credentialKinds, (named kind headers).length ≤ 1

instance (headers : List (Text × Text)) : Decidable (EachOnce headers) :=
  inferInstanceAs (Decidable (∀ kind ∈ credentialKinds, _))

/-- Fewer headers have each kind at most once too. -/
theorem EachOnce.sublist {a b : List (Text × Text)} (h : EachOnce b) (hsub : a.Sublist b) :
    EachOnce a := fun kind hkind => (hsub.filter _).length_le.trans (h kind hkind)

/-! ### Requests to a token endpoint -/

/-- What was added to the wire has each kind at most once. -/
def AddsEachOnce (s t : EngineState Url) : Prop :=
  ∃ added, t.wire = s.wire ++ added ∧ ∀ request ∈ added, EachOnce request.headers

/-- Nothing is added to a wire that stays. -/
theorem addsEachOnce_refl (s : EngineState Url) : AddsEachOnce s s := ⟨[], by simp, by simp⟩

/-- What two calls add has each kind at most once in each request. -/
theorem addsEachOnce_trans (s t u : EngineState Url) (hst : AddsEachOnce s t)
    (htu : AddsEachOnce t u) : AddsEachOnce s u := by
  obtain ⟨first, hfirst, honce⟩ := hst
  obtain ⟨second, hsecond, honce'⟩ := htu
  refine ⟨first ++ second, by rw [hsecond, hfirst, List.append_assoc], ?_⟩
  intro request hrequest
  rcases List.mem_append.mp hrequest with hold | hnew
  · exact honce request hold
  · exact honce' request hnew

/-- A call that sends nothing. -/
theorem keeps_addsEachOnce {α : Type} {call : EngineM Url α}
    (h : ∀ s, (exec call s).2.wire = s.wire) : Keeps AddsEachOnce call :=
  fun s => ⟨[], by rw [h s, List.append_nil], by simp⟩

/-- The headers of a request to a token endpoint. -/
theorem eachOnce_token (inBody : Bool) (basic contentType : Text) :
    EachOnce ((if inBody then [] else [("Authorization".toList, basic)])
      ++ [("Content-Type".toList, contentType)]) := by
  intro kind hkind
  rw [length_named]
  cases inBody with
  | true =>
    have honce : ∀ kind ∈ credentialKinds, ["Content-Type".toList].countP
        (fun name => eqIgnoreAsciiCase name kind) ≤ 1 := by decide
    exact honce kind hkind
  | false =>
    have honce : ∀ kind ∈ credentialKinds, ["Authorization".toList, "Content-Type".toList].countP
        (fun name => eqIgnoreAsciiCase name kind) ≤ 1 := by decide
    exact honce kind hkind

section Sources

variable (platform : Platform) (network : Network Url) (ctx : RunContext)

/-- Resolving a text adds nothing. -/
theorem resolveText_adds (template : Text) :
    Keeps AddsEachOnce (resolveText platform template : EngineM Url Text) :=
  keeps_addsEachOnce fun s => (resolveText_keeps platform template s).wire

/-- Nor does resolving a text that may not be there. -/
theorem resolveOption_adds (template : Option Text) :
    Keeps AddsEachOnce (resolveOption platform template : EngineM Url (Option Text)) := by
  cases template with
  | none => exact keeps_pure addsEachOnce_refl _
  | some template =>
    exact keeps_bind addsEachOnce_trans (resolveText_adds platform template) fun _ =>
      keeps_pure addsEachOnce_refl _

/-- Asking for a token sends one request, with one header of each kind. -/
theorem fetchToken_adds (config : OAuth2) (tokenUrl clientId : Text)
    (clientSecret scope : Option Text) :
    Keeps AddsEachOnce
      (fetchToken platform network config tokenUrl clientId clientSecret scope) := by
  -- In the order of the source: the grant, the audience, the client, the URL, the request, the
  -- answer.
  unfold fetchToken
  split
  · exact keeps_throw addsEachOnce_refl _
  · dsimp only
    refine keeps_bind addsEachOnce_trans (resolveOption_adds platform config.audience) ?_
    intro audience
    split
    · exact keeps_throw addsEachOnce_refl _
    · split
      · exact keeps_throw addsEachOnce_refl _
      -- Only here something is sent.
      · refine keeps_bind addsEachOnce_trans (fun s => ⟨[_], rfl, ?_⟩) ?_
        · intro request hrequest
          rw [List.mem_singleton.mp hrequest]
          exact eachOnce_token config.credentialsInBody _ _
        · intro _
          refine keeps_bind addsEachOnce_trans (keeps_get addsEachOnce_refl) ?_
          intro s
          split
          · exact keeps_throw addsEachOnce_refl _
          · split
            · exact keeps_throw addsEachOnce_refl _
            · exact keeps_pure addsEachOnce_refl _

/-- A token request has each kind at most once. -/
theorem oauthToken_adds (config : OAuth2) :
    Keeps AddsEachOnce (oauthToken platform network config) := by
  -- A look at the cache sends nothing.
  have hcached : ∀ key, Keeps AddsEachOnce (cachedToken network key) := fun key =>
    keeps_addsEachOnce fun s => by
      unfold cachedToken
      rw [exec_bind_ok (exec_get s)]
      cases s.oauthTokens.get? key <;> rfl
  -- Everything but the fetch resolves texts or keeps books.
  unfold oauthToken
  refine keeps_bind addsEachOnce_trans (resolveText_adds platform _) ?_
  intro tokenUrl
  refine keeps_bind addsEachOnce_trans (resolveText_adds platform _) ?_
  intro clientId
  refine keeps_bind addsEachOnce_trans (resolveOption_adds platform _) ?_
  intro scope
  refine keeps_bind addsEachOnce_trans (hcached _) ?_
  intro cached
  split
  · exact keeps_pure addsEachOnce_refl _
  · refine keeps_bind addsEachOnce_trans (resolveOption_adds platform _) ?_
    intro clientSecret
    refine keeps_bind addsEachOnce_trans
      (fetchToken_adds platform network config tokenUrl clientId clientSecret scope) ?_
    intro fetched
    refine keeps_bind addsEachOnce_trans (keeps_addsEachOnce fun _ => rfl) ?_
    intro now
    exact keeps_bind addsEachOnce_trans (keeps_addsEachOnce fun _ => rfl) fun _ =>
      keeps_pure addsEachOnce_refl _

/-- Before the first hop, only a token endpoint is asked. -/
theorem makeReady_adds (spec : RequestSpec) :
    Keeps AddsEachOnce (makeReady platform network ctx spec false) := by
  -- What stays offline adds no request.
  have hoffline : ∀ {α : Type} {call : EngineM Url α}, Keeps Offline call →
      Keeps AddsEachOnce call := fun hcall => keeps_addsEachOnce fun s => (hcall s).wire
  have hauth : ∀ url, Keeps AddsEachOnce (applyAuth platform network url spec.auth) := by
    intro url
    unfold applyAuth
    split
    · exact keeps_bind addsEachOnce_trans (oauthToken_adds platform network _) fun _ =>
        keeps_pure addsEachOnce_refl _
    · exact hoffline (applyKnownAuth_keeps platform network url _)
  -- The parts, the authentication, the identity and the client, and only the second can send.
  unfold makeReady
  refine keeps_bind addsEachOnce_trans
    (hoffline (prepareParts_keeps platform network ctx spec false)) ?_
  intro parts
  refine keeps_bind addsEachOnce_trans (hauth parts.url) ?_
  intro auth
  refine keeps_bind addsEachOnce_trans
      (hoffline (resolveIdentity_keeps platform network ctx spec)) ?_
  intro identity
  refine keeps_bind addsEachOnce_trans
    (hoffline (clientForMode_offline network spec identity false)) ?_
  intro client
  split
  · exact keeps_throw addsEachOnce_refl _
  · exact keeps_pure addsEachOnce_refl _

/-! ### The sources of the headers -/

variable {platform network ctx}

/-- The authentication adds at most one header. -/
theorem applyAuth_headers {spec : RequestSpec} {url url' : Url} {headers : List (Text × Text)}
    {s t : EngineState Url}
    (h : exec (applyAuth platform network url spec.auth) s = (.ok (url', headers), t)) :
    headers.length ≤ 1 := by
  unfold applyAuth at h
  -- Each kind of authentication gives one header, or none.
  split at h
  · obtain ⟨token, u, -, h⟩ := exec_bind_eq_ok.mp h
    rw [exec_pure, Prod.mk.injEq, Except.ok.injEq, Prod.mk.injEq] at h
    rw [← h.1.2]
    exact Nat.le_refl 1
  · unfold applyKnownAuth at h
    split at h
    · obtain ⟨token, u, -, h⟩ := exec_bind_eq_ok.mp h
      -- A bearer token and a password; an API key goes into a header or into the query.
      rw [exec_pure, Prod.mk.injEq, Except.ok.injEq, Prod.mk.injEq] at h
      rw [← h.1.2]
      exact Nat.le_refl 1
    · obtain ⟨username, u, -, h⟩ := exec_bind_eq_ok.mp h
      obtain ⟨password, u', -, h⟩ := exec_bind_eq_ok.mp h
      rw [exec_pure, Prod.mk.injEq, Except.ok.injEq, Prod.mk.injEq] at h
      rw [← h.1.2]
      exact Nat.le_refl 1
    · obtain ⟨key, u, -, h⟩ := exec_bind_eq_ok.mp h
      obtain ⟨value, u', -, h⟩ := exec_bind_eq_ok.mp h
      split at h
      · rw [exec_pure, Prod.mk.injEq, Except.ok.injEq, Prod.mk.injEq] at h
        rw [← h.1.2]
        exact Nat.le_refl 1
      · rw [exec_pure, Prod.mk.injEq, Except.ok.injEq, Prod.mk.injEq] at h
        rw [← h.1.2]
        exact Nat.zero_le 1
    · rw [exec_pure, Prod.mk.injEq, Except.ok.injEq, Prod.mk.injEq] at h
      rw [← h.1.2]
      exact Nat.zero_le 1

/-- A map without a key has no pair of that name. -/
theorem named_iterPairs_of_not_containsKey {map : FieldMap} {name : Text}
    (h : map.containsKey name = false) : named name map.iterPairs = [] := by
  unfold named
  rw [List.filter_eq_nil_iff]
  rintro ⟨k, v⟩ hpair
  unfold FieldMap.iterPairs at hpair
  obtain ⟨entry, hentry, hin⟩ := List.mem_flatMap.mp hpair
  unfold FieldMap.entryPairs at hin
  obtain ⟨value, -, heq⟩ := List.mem_map.mp hin
  have hkey : entry.1 = k := congrArg Prod.fst heq
  unfold FieldMap.containsKey at h
  have hother := (List.any_eq_false.mp h) entry.1 (List.mem_map_of_mem hentry)
  rw [← hkey]
  exact hother

/-- The body adds its content type only when the request names none. -/
theorem prepareParts_contentType {spec : RequestSpec} {parts : Parts Url} {s t : EngineState Url}
    (h : exec (prepareParts platform network ctx spec false) s = (.ok parts, t)) :
    parts.contentType = [] ∨ ((∃ value, parts.contentType = [("Content-Type".toList, value)]) ∧
      named "content-type".toList parts.headers = []) := by
  unfold prepareParts at h
  obtain ⟨resolvedUrl, s₁, -, h⟩ := exec_bind_eq_ok.mp h
  split at h
  · exact absurd (congrArg Prod.fst h) (by simp)
  · obtain ⟨query, s₂, -, h⟩ := exec_bind_eq_ok.mp h
    obtain ⟨headers, s₃, -, h⟩ := exec_bind_eq_ok.mp h
    obtain ⟨body, s₄, -, h⟩ := exec_bind_eq_ok.mp h
    rw [exec_pure, Prod.mk.injEq, Except.ok.injEq] at h
    rw [← h.1]
    dsimp only
    cases body.bind (·.contentType) with
    | none => exact Or.inl rfl
    | some contentType =>
      dsimp only
      cases hkey : headers.containsKey "content-type".toList with
      | true => exact Or.inl (if_pos rfl)
      | false =>
        refine Or.inr ⟨⟨contentType, if_neg Bool.false_ne_true⟩, ?_⟩
        rw [if_neg (fun hstream => Bool.false_ne_true hstream.1), List.append_nil]
        exact named_iterPairs_of_not_containsKey hkey

/-- What the sources of a request that is ready give. -/
theorem makeReady_sources {spec : RequestSpec} {ready : Ready Url} {s s₁ : EngineState Url}
    (h : exec (makeReady platform network ctx spec false) s = (.ok ready, s₁)) :
    ready.authHeaders.length ≤ 1 ∧
      (ready.parts.contentType = [] ∨
        ((∃ value, ready.parts.contentType = [("Content-Type".toList, value)]) ∧
          named "content-type".toList ready.parts.headers = [])) := by
  unfold makeReady at h
  obtain ⟨parts, t, hparts, h⟩ := exec_bind_eq_ok.mp h
  obtain ⟨⟨url, authHeaders⟩, t', hauth, h⟩ := exec_bind_eq_ok.mp h
  obtain ⟨identity, t'', -, h⟩ := exec_bind_eq_ok.mp h
  obtain ⟨client, t''', -, h⟩ := exec_bind_eq_ok.mp h
  split at h
  · exact absurd (congrArg Prod.fst h) (by simp)
  · rw [exec_pure, Prod.mk.injEq, Except.ok.injEq] at h
    rw [← h.1]
    exact ⟨applyAuth_headers hauth, prepareParts_contentType hparts⟩

end Sources

/-! ### The promise -/

/-- Every request that running a request of a collection sends has at most one header of each
kind; and when the request names `Authorization`, the ones that are sent are its own. -/
def OneOfEach (platform : Platform) (network : Network Url) (ctx : RunContext)
    (collection : Collection) (spec : RequestSpec) (s : EngineState Url) : Prop :=
  let spec := collection.applyDefaults spec
  AddsEachOnce s (exec (execute platform network ctx spec) s).2 ∧
    ∀ ready s₁, exec (makeReady platform network ctx spec false) s = (.ok ready, s₁) →
      named "authorization".toList ready.parts.headers ≠ [] →
        ∀ turn ∈ runTurns network ctx spec ready s₁,
          builds network (turn.request network ctx spec) = true →
            ∀ e ∈ named "authorization".toList (turn.request network ctx spec).headers,
              e ∈ ready.parts.headers

/-- No two sources give the same header: the request with its defaults has each kind at most
once, the authentication adds none that is there, and a hop on which the request still has a
`Cookie` takes none from the jars. -/
structure OneSource (network : Network Url) (ctx : RunContext) (spec : RequestSpec)
    (ready : Ready Url) (s₁ : EngineState Url) : Prop where
  headers : EachOnce ready.parts.headers
  auth : ∀ kind ∈ credentialKinds, named kind ready.authHeaders ≠ [] →
    named kind (ready.parts.headers ++ ready.parts.contentType) = []
  cookies : ∀ turn ∈ runTurns network ctx spec ready s₁,
    builds network (turn.request network ctx spec) = true →
      named "cookie".toList turn.chain.headers ≠ [] → turn.cookie network ctx spec = none

section Chain

variable {platform : Platform} {network : Network Url} {ctx : RunContext} {spec : RequestSpec}
  {ready : Ready Url} {s s₁ : EngineState Url}

/-- The headers of every turn are among those of the request. -/
theorem turn_headers_sublist {turn : Turn Url} (h : turn ∈ runTurns network ctx spec ready s₁) :
    turn.chain.headers.Sublist ready.headerList := by
  refine orbit_invariant (P := fun turn : Turn Url => turn.chain.headers.Sublist ready.headerList)
    (List.Sublist.refl _) ?_ turn h
  intro turn turn' hturn hnext
  obtain ⟨raw, target, hstep⟩ := redirects_of_next hnext
  exact hstep.headers_sublist.trans hturn

/-- A request of a hop: the headers of the turn, and a cookie. -/
theorem named_request (kind : Text) (turn : Turn Url) :
    named kind (turn.request network ctx spec).headers = named kind turn.chain.headers
      ++ named kind (((turn.cookie network ctx spec).map fun c => ("Cookie".toList, c)).toList) :=
  named_append kind _ _

/-- A cookie of the jars is a `Cookie`. -/
theorem named_cookie (cookie : Text) :
    named "cookie".toList [("Cookie".toList, cookie)] = [("Cookie".toList, cookie)] := by
  have hname : eqIgnoreAsciiCase "Cookie".toList "cookie".toList = true := by decide
  exact List.filter_cons_of_pos hname

/-- A cookie of the jars is nothing else. -/
theorem named_cookie_of_ne {kind : Text} (hkind : kind ∈ credentialKinds)
    (hne : kind ≠ "cookie".toList) (cookie : Option Text) :
    named kind ((cookie.map fun c => ("Cookie".toList, c)).toList) = [] := by
  cases cookie with
  | none => rfl
  | some cookie =>
    have hother : ∀ kind ∈ credentialKinds, kind ≠ "cookie".toList →
        ¬ eqIgnoreAsciiCase "Cookie".toList kind = true := by decide
    exact List.filter_cons_of_neg (hother kind hkind hne)

/-- When the first hop is not sent, nothing is. -/
theorem first_built_of_mem {turn : Turn Url} (h : turn ∈ runTurns network ctx spec ready s₁)
    (hbuilds : builds network (turn.request network ctx spec) = true) :
    builds network ((firstTurn spec ready s₁).request network ctx spec) = true := by
  unfold runTurns turns at h
  cases hnext : (firstTurn spec ready s₁).next network ctx spec with
  | none =>
    rw [orbit_of_none hnext, List.mem_singleton] at h
    rwa [h] at hbuilds
  | some turn' =>
    obtain ⟨raw, target, hstep⟩ := redirects_of_next hnext
    exact hstep.sent

/-- A request whose sources differ has each kind at most once. -/
theorem eachOnce_headerList (hready : exec (makeReady platform network ctx spec false) s
      = (.ok ready, s₁)) (hsource : OneSource network ctx spec ready s₁) :
    EachOnce ready.headerList := by
  intro kind hkind
  obtain ⟨hauth, hbody⟩ := makeReady_sources hready
  unfold Ready.headerList
  rw [named_append, List.length_append]
  -- The authentication has one header at most, and the other sources are apart from each other.
  have hadded : (named kind ready.authHeaders).length ≤ 1 :=
    (List.length_filter_le _ _).trans hauth
  have hown : (named kind (ready.parts.headers ++ ready.parts.contentType)).length ≤ 1 := by
    rw [named_append, List.length_append]
    rcases hbody with hnone | ⟨⟨value, hvalue⟩, hnamed⟩
    · rw [hnone]
      exact hsource.headers kind hkind
    -- The body adds a `Content-Type`, which is none of the kinds of credentials.
    · by_cases hct : kind = "content-type".toList
      · rw [hct, hnamed, hvalue]
        exact Nat.le_refl 1
      · have hother : ∀ kind ∈ credentialKinds, kind ≠ "content-type".toList →
            ¬ eqIgnoreAsciiCase "Content-Type".toList kind = true := by decide
        have hno : named kind ready.parts.contentType = [] := by
          rw [hvalue]
          exact List.filter_cons_of_neg (hother kind hkind hct)
        rw [hno]
        exact hsource.headers kind hkind
  -- Where the authentication adds this kind, the others have none.
  by_cases hempty : named kind ready.authHeaders = []
  · rw [hempty]
    exact hown
  · rw [hsource.auth kind hkind hempty, List.length_nil, Nat.zero_add]
    exact hadded

/-- Different sources: every hop has each kind at most once. -/
theorem eachOnce_request (hready : exec (makeReady platform network ctx spec false) s
      = (.ok ready, s₁)) (hsource : OneSource network ctx spec ready s₁) {turn : Turn Url}
    (hturn : turn ∈ runTurns network ctx spec ready s₁)
    (hbuilds : builds network (turn.request network ctx spec) = true) :
    EachOnce (turn.request network ctx spec).headers := by
  intro kind hkind
  have honce := (eachOnce_headerList hready hsource).sublist (turn_headers_sublist hturn) kind hkind
  rw [named_request, List.length_append]
  by_cases hcookie : kind = "cookie".toList
  · by_cases hown : named "cookie".toList turn.chain.headers = []
    · rw [hcookie, hown]
      cases turn.cookie network ctx spec with
      | none => exact Nat.zero_le 1
      | some cookie =>
        rw [List.length_nil, Nat.zero_add]
        exact List.length_filter_le _ [("Cookie".toList, cookie)]
    · rw [hsource.cookies turn hturn hbuilds hown]
      exact honce
  · rw [named_cookie_of_ne hkind hcookie]
    exact honce

/-- When every hop has each kind at most once, the sources differ. -/
theorem oneSource_of_eachOnce
    (hfirst : builds network ((firstTurn spec ready s₁).request network ctx spec) = true)
    (h : ∀ turn ∈ runTurns network ctx spec ready s₁,
      builds network (turn.request network ctx spec) = true →
        EachOnce (turn.request network ctx spec).headers) :
    OneSource network ctx spec ready s₁ := by
  -- The first hop is one of the turns, and its headers are the list.
  have hmem : firstTurn spec ready s₁ ∈ runTurns network ctx spec ready s₁ := by
    obtain ⟨rest, hturns⟩ := runTurns_eq_cons network ctx spec ready s₁
    rw [hturns]
    exact List.mem_cons_self
  have hlist : EachOnce ready.headerList :=
    (h _ hmem hfirst).sublist (List.sublist_append_left ready.headerList _)
  have hown : (ready.parts.headers ++ ready.parts.contentType).Sublist ready.headerList :=
    List.sublist_append_left _ _
  refine ⟨hlist.sublist ((List.sublist_append_left _ _).trans hown), ?_, ?_⟩
  -- Two sources with one kind would make two of it in the first hop.
  · intro kind hkind hadds
    have htotal := hlist kind hkind
    unfold Ready.headerList at htotal
    rw [named_append, List.length_append] at htotal
    have hpos := List.length_pos_iff.mpr hadds
    exact List.length_eq_zero_iff.mp (by omega)
  -- And a cookie of the jar beside one of the list would make two of it in that hop.
  · intro turn hturn hbuilds hcookie
    have htotal := h turn hturn hbuilds "cookie".toList (by decide)
    rw [named_request, List.length_append] at htotal
    have hpos := List.length_pos_iff.mpr hcookie
    cases hjar : turn.cookie network ctx spec with
    | none => rfl
    | some cookie =>
      rw [hjar] at htotal
      change _ + (named "cookie".toList [("Cookie".toList, cookie)]).length ≤ 1 at htotal
      rw [named_cookie, List.length_singleton] at htotal
      omega

end Chain

/-- Running a request of a collection sends at most one header of each kind, its own
`Authorization` first, exactly when no two sources give the same header of a request that is
sent. -/
theorem oneOfEach_iff (platform : Platform) (network : Network Url) (ctx : RunContext)
    (collection : Collection) (spec : RequestSpec) (s : EngineState Url) :
    OneOfEach platform network ctx collection spec s ↔
      ∀ ready s₁, exec (makeReady platform network ctx (collection.applyDefaults spec) false) s
          = (.ok ready, s₁) →
        builds network ((firstTurn (collection.applyDefaults spec) ready s₁).request network ctx
            (collection.applyDefaults spec)) = true →
          OneSource network ctx (collection.applyDefaults spec) ready s₁ := by
  unfold OneOfEach
  dsimp only
  generalize collection.applyDefaults spec = spec
  have hadds := makeReady_adds platform network ctx spec s
  rcases hready : exec (makeReady platform network ctx spec false) s with ⟨error | ready, s₁⟩
  all_goals
    rw [hready] at hadds
    dsimp only at hadds ⊢
  · rw [execute_of_error hready]
    exact ⟨fun _ ready s₁ h => absurd h (by simp), fun _ =>
      ⟨hadds, fun ready s₁ h => absurd h (by simp)⟩⟩
  · rw [execute_of_ready hready]
    have hwire := runReady_wire platform network ctx spec ready s₁
    constructor
    · rintro ⟨⟨added, hadded, honce⟩, -⟩ ready' s₁' hready' hfirst
      rw [Prod.mk.injEq, Except.ok.injEq] at hready'
      obtain ⟨rfl, rfl⟩ := hready'
      refine oneSource_of_eachOnce hfirst ?_
      intro turn hturn hbuilds
      refine honce _ ?_
      -- What the chain sent is among what was added.
      obtain ⟨tokens, htokens, -⟩ := hadds
      rw [hwire, htokens, List.append_assoc] at hadded
      rw [← List.append_cancel_left hadded]
      exact List.mem_append_right _ (List.mem_filter.mpr ⟨List.mem_map_of_mem hturn, hbuilds⟩)
    · intro hsource
      have hbuilt : ∀ turn ∈ runTurns network ctx spec ready s₁,
          builds network (turn.request network ctx spec) = true →
            OneSource network ctx spec ready s₁ := fun turn hturn hbuilds =>
        hsource ready s₁ rfl (first_built_of_mem hturn hbuilds)
      constructor
      · refine addsEachOnce_trans _ _ _ hadds ⟨_, hwire, ?_⟩
        intro request hrequest
        obtain ⟨hmem, hbuilds⟩ := List.mem_filter.mp hrequest
        obtain ⟨turn, hturn, rfl⟩ := List.mem_map.mp hmem
        exact eachOnce_request hready (hbuilt turn hturn hbuilds) hturn hbuilds
      · intro ready' s₁' hready' hown turn hturn hbuilds e he
        rw [Prod.mk.injEq, Except.ok.injEq] at hready'
        obtain ⟨rfl, rfl⟩ := hready'
        have hone := hbuilt turn hturn hbuilds
        have hkind : "authorization".toList ∈ credentialKinds := by decide
        -- The authentication adds none, as the request has one.
        have hauth : named "authorization".toList ready.authHeaders = [] := by
          by_contra hadds'
          have hnone := hone.auth _ hkind hadds'
          rw [named_append, List.append_eq_nil_iff] at hnone
          exact hown hnone.1
        rw [named_request, named_cookie_of_ne hkind (by decide), List.append_nil] at he
        have hlisted : e ∈ named "authorization".toList ready.headerList :=
          ((turn_headers_sublist hturn).filter _).subset he
        unfold Ready.headerList at hlisted
        rw [named_append, named_append, hauth, List.append_nil] at hlisted
        rcases List.mem_append.mp hlisted with hheader | htype
        · exact (List.mem_filter.mp hheader).1
        · obtain ⟨-, hbody⟩ := makeReady_sources hready
          rcases hbody with hnone | ⟨⟨value, hvalue⟩, -⟩
          · rw [hnone] at htype
            exact absurd htype List.not_mem_nil
          · have hno : ¬ eqIgnoreAsciiCase "Content-Type".toList "authorization".toList = true := by
              decide
            rw [hvalue] at htype
            obtain ⟨hin, hname⟩ := List.mem_filter.mp htype
            rw [List.mem_singleton.mp hin] at hname
            exact absurd hname hno

/-! ### A default that is added -/

/-- A collection whose requests log in with a token unless they say otherwise. -/
def bearerCollection : Collection :=
  { root := "gabriel".toList, requests := [], problems := []
    manifest :=
      { name := none, vars := .empty
        defaults :=
          { headers := .empty, auth := some (.bearer "t0ken".toList), settings := none } } }

/-- A request with an `Authorization` of its own. -/
def signedRequest : RequestSpec :=
  { RequestSpec.new id "GET".toList "https://app.test/".toList with
    headers := FieldMap.fromIter [("Authorization".toList, "Basic YTpi".toList)] }

/-- A request with an `Authorization` of its own is sent with two. -/
theorem not_oneOfEach_own :
    ¬ OneOfEach emptyPlatform (scriptedNetwork []) defaultContext bearerCollection signedRequest
      .fresh := by
  rintro ⟨⟨added, hadded, honce⟩, -⟩
  have hwire : (exec (execute emptyPlatform (scriptedNetwork []) defaultContext
      (bearerCollection.applyDefaults signedRequest)) EngineState.fresh).2.wire.all
        (fun request => decide (EachOnce request.headers)) = false := by decide +kernel
  rw [hadded] at hwire
  have hall : added.all (fun request => decide (EachOnce request.headers)) = true :=
    List.all_eq_true.mpr fun request hrequest => decide_eq_true (honce request hrequest)
  exact absurd (hall.symm.trans hwire) (by decide)

end Gabriel.Engine
