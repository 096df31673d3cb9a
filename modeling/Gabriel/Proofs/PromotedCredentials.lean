import Gabriel.Proofs.OneOfEach
import Gabriel.Proofs.Report
import Gabriel.Proofs.VaultNames

/-!
# `Gabriel.Proofs.PromotedCredentials`: does promotion lose a credential?

A capture is promoted with the default options, what it suggests is stored, and the request is
run from the same session. `KeepsCredentials` says that the first request on the wire has the
cookies of the session when the capture had a `Cookie`, and the captured value of each
`Authorization`, once.

A bearer value and a cookie compete for the one authentication of a request, and the bearer value
wins (`Capture.promoteHeaders_auth`). Every `Authorization` value is stored under the same name,
so the last one stays, and a bearer token is trimmed. Promotion writes references into the saved
file, so its headers are followed from the capture through the map of templates to the wire.
The theorems:

* `promoted_authorizations`, `promoted_cookies`: what the saved file has of the credentials.
* `stored_of_authorizations`: the reference leads to the last captured credential.
* `prepareParts_headers`: the headers of a prepared request have the names of the file, and its
  values resolved.
* `wire_credentials`: the credentials of the first request on the wire.
* `authorization_kept_iff`: these are the captured ones exactly when there is one, or all are the
  same bearer value without blanks around it (`OneAuthorization`).
* `keepsCredentials_iff`: no credential is lost exactly when that holds, and the capture has not
  both a `Cookie` and a bearer value.
-/

set_option autoImplicit false

namespace Gabriel.Engine

open Gabriel.Core Gabriel.Core.Capture Gabriel.Core.Resolver Gabriel.Cli Text Fallible

/-! ### What a body leaves of the resolver -/

section Body

/-- A resolver call inside the engine. -/
theorem liftCore_keeps {R : Resolver → Resolver → Prop} {α : Type} {call : ResolverM α}
    (h : Keeps R call) : Keeps R (liftCore call) := by
  intro r
  unfold liftCore
  rw [exec_adapt]
  exact h r

variable {R : Resolver → Resolver → Prop} (hR : KeptByLookups R)

include hR

/-- Resolving a text keeps what every lookup keeps. -/
theorem resolve_keeps (world : World) (template : Text) :
    Keeps R (liftCore (Resolver.resolve world template)) :=
  liftCore_keeps (hR.resolve template)

/-- So does putting a GraphQL payload together. -/
theorem graphQlPayload_keeps (platform : Platform) (query : Text)
    (vars operationName : Option Text) :
    Keeps R (graphQlPayload platform query vars operationName) := by
  have hresolve := resolve_keeps hR platform.world
  have hpure : ∀ {α : Type} (a : α), Keeps R (pure a : BodyM α) := keeps_pure hR.refl
  unfold graphQlPayload
  -- Every step resolves a text or parses one, and only resolving touches the state.
  refine keeps_bind hR.trans (hresolve _) fun _ => ?_
  cases operationName with
  | none =>
    cases vars with
    | none => exact hpure _
    | some vars =>
      refine keeps_bind hR.trans (hresolve _) fun resolved => ?_
      cases platform.parseJson (Utf8.encode resolved) with
      | ok parsed => exact hpure _
      | error message => exact keeps_throw hR.refl _
  | some name =>
    -- With a name for the operation one more text is resolved at the end.
    have hname : ∀ payload : SortedMap Text Json, Keeps R (do
        let resolved ← liftCore (Resolver.resolve platform.world name)
        let payload ← pure (payload.insert "operationName".toList (.string resolved))
        pure (Json.object payload.entries) : BodyM Json) := fun _ =>
      keeps_bind hR.trans (hresolve _) fun _ => hpure _
    cases vars with
    | none => exact hname _
    | some vars =>
      refine keeps_bind hR.trans (hresolve _) fun resolved => ?_
      cases platform.parseJson (Utf8.encode resolved) with
      | ok parsed => exact hname _
      | error message => exact keeps_throw hR.refl _

/-- Building a body looks names up, and nothing else. -/
theorem buildBody_keeps (platform : Platform) (baseDir : Text) (spec : RequestSpec) :
    Keeps R (buildBody platform baseDir spec) := by
  have hresolve := resolve_keeps hR platform.world
  have hpure : ∀ {α : Type} (a : α), Keeps R (pure a : BodyM α) := keeps_pure hR.refl
  have hthrow : ∀ {α : Type} (e : EngineError), Keeps R (throw e : BodyM α) := keeps_throw hR.refl
  unfold buildBody
  split
  · exact hpure _
  · exact hpure _
  · exact keeps_bind hR.trans (hresolve _) fun _ => hpure _
  · exact keeps_bind hR.trans (hresolve _) fun _ => hpure _
  · refine keeps_bind hR.trans ?_ fun _ => hpure _
    refine keeps_foldlM hR.refl hR.trans (fun encoded field => ?_) _ _
    exact keeps_bind hR.trans (hresolve _) fun _ =>
      keeps_bind hR.trans (hresolve _) fun _ => hpure _
  · exact keeps_bind hR.trans (graphQlPayload_keeps hR platform _ _ _) fun _ => hpure _
  · refine keeps_bind hR.trans (hresolve _) fun _ => ?_
    dsimp only
    split
    · exact hpure _
    · exact hthrow _

end Body

/-! ### Values of a name -/

/-- The values of the headers of a name, in any letter case. -/
def valuesNamed (name : Text) (headers : List (Text × Text)) : List Text :=
  (named name headers).map (·.2)

/-- The values of a name in two lists, one after the other. -/
theorem valuesNamed_append (name : Text) (a b : List (Text × Text)) :
    valuesNamed name (a ++ b) = valuesNamed name a ++ valuesNamed name b := by
  unfold valuesNamed
  rw [named_append, List.map_append]

/-- The values of a name behind a first pair. -/
theorem valuesNamed_cons (name : Text) (e : Text × Text) (rest : List (Text × Text)) :
    valuesNamed name (e :: rest)
      = if eqIgnoreAsciiCase e.1 name = true then e.2 :: valuesNamed name rest
        else valuesNamed name rest := by
  unfold valuesNamed named
  rw [List.filter_cons]
  split
  · rfl
  · rfl

/-- Pairs with the same names have values that correspond. -/
theorem valuesNamed_forall₂ {R : Text → Text → Prop} {a b : List (Text × Text)}
    (h : List.Forall₂ (fun e e' => e'.1 = e.1 ∧ R e.2 e'.2) a b) (name : Text) :
    List.Forall₂ R (valuesNamed name a) (valuesNamed name b) := by
  induction h with
  | nil => exact List.Forall₂.nil
  | @cons e e' a b he _ ih =>
    rw [valuesNamed_cons, valuesNamed_cons, he.1]
    split
    · exact List.Forall₂.cons he.2 ih
    · exact ih

/-- Entries with the same keys, and values that correspond, have pairs that do. -/
theorem flatMap_entryPairs_forall₂ {R : Text → Text → Prop} {a b : List (Text × FieldValue)}
    (h : List.Forall₂ (fun e e' : Text × FieldValue => e'.1 = e.1
      ∧ List.Forall₂ R e.2.toList e'.2.toList) a b) :
    List.Forall₂ (fun e e' => e'.1 = e.1 ∧ R e.2 e'.2) (a.flatMap FieldMap.entryPairs)
      (b.flatMap FieldMap.entryPairs) := by
  induction h with
  | nil => exact List.Forall₂.nil
  | @cons e e' a b he _ ih =>
    obtain ⟨hname, hvalues⟩ := he
    rw [List.flatMap_cons, List.flatMap_cons]
    refine List.rel_append ?_ ih
    unfold FieldMap.entryPairs
    rw [hname]
    refine List.forall₂_map_left_iff.mpr (List.forall₂_map_right_iff.mpr ?_)
    exact hvalues.imp fun _ _ hvalue => ⟨rfl, hvalue⟩

/-- The pairs of a resolved map whose keys are no templates: the same keys, and the values
resolved. -/
theorem resolvedPairs_ok {world : World} {map map' : FieldMap} {r r' : Resolver}
    (hkeys : ∀ e ∈ map.fields.entries, ¬ opening <:+: e.1)
    (h : exec (resolveMap world map) r = (.ok map', r')) :
    List.Forall₂ (fun e e' => e'.1 = e.1 ∧ Resolved world r e.2 e'.2) map.iterPairs
      map'.iterPairs := by
  obtain ⟨entries, rfl, hentries⟩ := resolveMap_ok h
  have hsame : List.Forall₂ (fun e e' : Text × FieldValue => e'.1 = e.1
      ∧ List.Forall₂ (Resolved world r) e.2.toList e'.2.toList) map.fields.entries entries := by
    refine ((List.forall₂_and_left _ _).mpr ⟨hkeys, hentries⟩).imp ?_
    rintro e e' ⟨hclean, ⟨s, s', -, hkey⟩, hvalues⟩
    rw [resolve_clean hclean] at hkey
    exact ⟨(Except.ok.inj (Prod.mk.inj hkey).1).symm, hvalues⟩
  -- So the resolved entries are in order, as the map had them.
  have hnames : entries.map Prod.fst = map.fields.entries.map Prod.fst := by
    have heq := hsame.imp fun e e' he => he.1.symm
    exact (List.forall₂_eq_eq_eq ▸ List.forall₂_map_left_iff.mpr
      (List.forall₂_map_right_iff.mpr heq) : map.fields.entries.map Prod.fst
        = entries.map Prod.fst).symm
  have hsorted : (entries.map Prod.fst).Pairwise (· < ·) := by
    rw [hnames]
    exact List.pairwise_map.mpr map.fields.sorted
  show List.Forall₂ _ (map.fields.entries.flatMap FieldMap.entryPairs)
    ((SortedMap.ofList entries).entries.flatMap FieldMap.entryPairs)
  rw [SortedMap.entries_ofList_of_sorted (List.pairwise_map.mp hsorted)]
  exact flatMap_entryPairs_forall₂ hsame

/-! ### What promotion writes -/

section Promoted

variable (capture : Capture)

/-- The captured values of `Authorization`. -/
def authorizations : List Text :=
  valuesNamed "authorization".toList capture.request.headers.iterPairs

/-- A bearer value. -/
def isBearerValue (value : Text) : Bool := "Bearer ".toList <+: value

/-- The vault entry of the captured credentials. Every value is stored under one name, so the last
one stays. -/
def storedSecret : Text := ((authorizations capture).getLast?.map authorizationSecret).getD []

/-- A header is an `Authorization`. -/
theorem named_authorization_iff (e : Text × Text) :
    eqIgnoreAsciiCase e.1 "authorization".toList = true ↔ asciiLower e.1 = "authorization".toList :=
  eqIgnoreAsciiCase_iff

/-- The captured bearer values are those of the bearer headers. -/
theorem any_isBearer :
    capture.request.headers.iterPairs.any isBearer
        = (authorizations capture).any isBearerValue := by
  unfold authorizations
  generalize capture.request.headers.iterPairs = headers
  induction headers with
  | nil => rfl
  | cons e headers ih =>
    rw [List.any_cons, ih, valuesNamed_cons]
    unfold isBearer
    by_cases hname : asciiLower e.1 = "authorization".toList
    · rw [if_pos ((named_authorization_iff e).mpr hname), List.any_cons]
      simp only [hname, true_and]
      rfl
    · rw [if_neg fun h => hname ((named_authorization_iff e).mp h)]
      simp only [hname, false_and, decide_false, Bool.false_or]

/-- The saved file has no cookie. -/
theorem promoted_cookies :
    valuesNamed "cookie".toList (capture.promoteHeaders {}).headers.iterPairs = [] := by
  unfold valuesNamed named
  rw [List.map_eq_nil_iff, List.filter_eq_nil_iff]
  rintro ⟨k, w⟩ hmem hcookie
  obtain ⟨v, -, hwritten⟩ := mem_promoteHeaders.mp hmem
  have hname : asciiLower k = "cookie".toList := eqIgnoreAsciiCase_iff.mp hcookie
  unfold headerWritten at hwritten
  rw [if_pos (.inr hname)] at hwritten
  exact nomatch hwritten

/-- The saved file has a reference for each `Authorization` that is no bearer value. -/
theorem promoted_authorizations :
    valuesNamed "authorization".toList (capture.promoteHeaders {}).headers.iterPairs
      = List.replicate ((authorizations capture).countP fun value => !isBearerValue value)
        (secretRef (suggestSecretName capture.request.url)) := by
  rw [List.eq_replicate_iff]
  constructor
  · -- Collecting the headers only changes their order.
    have hperm := FieldMap.iterPairs_fromIter_perm
      (capture.request.headers.iterPairs.filterMap fun h =>
        (headerWritten capture.request.url h).map fun value => (h.1, value))
    rw [← promoteHeaders_headers] at hperm
    unfold authorizations valuesNamed named
    rw [List.length_map, ← List.countP_eq_length_filter, hperm.countP_eq]
    generalize capture.request.headers.iterPairs = headers
    induction headers with
    | nil => rfl
    | cons e headers ih =>
      rw [List.filterMap_cons, List.filter_cons]
      by_cases hname : asciiLower e.1 = "authorization".toList
      · rw [if_pos ((named_authorization_iff e).mpr hname), List.map_cons, List.countP_cons]
        have hhop : ¬ (asciiLower e.1 ∈ hopByHop ∨ asciiLower e.1 = "cookie".toList) := by
          rw [hname]
          decide
        unfold headerWritten
        rw [if_neg hhop, if_pos hname]
        -- A bearer value is dropped, and any other value becomes a reference.
        by_cases hbearer : "Bearer ".toList <+: e.2
        · rw [if_pos hbearer]
          have hvalue : isBearerValue e.2 = true := decide_eq_true hbearer
          rw [hvalue]
          exact ih
        · rw [if_neg hbearer]
          have hvalue : isBearerValue e.2 = false := decide_eq_false hbearer
          rw [hvalue]
          show List.countP _ ((e.1, _) :: _) = _
          rw [List.countP_cons, if_pos ((named_authorization_iff e).mpr hname), Bool.not_false,
            if_pos rfl]
          exact congrArg (· + 1) ih
      -- A header of another name never becomes one of this name.
      · rw [if_neg fun h => hname ((named_authorization_iff e).mp h)]
        cases headerWritten capture.request.url e with
        | none => exact ih
        | some value =>
          show List.countP _ ((e.1, value) :: _) = _
          rw [List.countP_cons, if_neg fun h => hname ((named_authorization_iff (e.1, value)).mp h)]
          exact ih
  -- What is left of the name holds the reference.
  · intro w hw
    obtain ⟨⟨k, w'⟩, hmem, rfl⟩ := List.mem_map.mp hw
    obtain ⟨hmem, hname⟩ := List.mem_filter.mp hmem
    obtain ⟨v, -, hwritten⟩ := mem_promoteHeaders.mp hmem
    have hname : asciiLower k = "authorization".toList := eqIgnoreAsciiCase_iff.mp hname
    have hhop : ¬ (asciiLower k ∈ hopByHop ∨ asciiLower k = "cookie".toList) := by
      rw [hname]
      decide
    unfold headerWritten at hwritten
    rw [if_neg hhop, if_pos hname] at hwritten
    split at hwritten
    · exact nomatch hwritten
    · exact (Option.some.inj hwritten).symm

/-- The suggested vault entries, one for each captured `Authorization`. -/
theorem promoted_secrets :
    (capture.promoteHeaders {}).secrets = (authorizations capture).map fun value =>
      (suggestSecretName capture.request.url, authorizationSecret value) := by
  rw [promoteHeaders_secrets]
  unfold authorizations
  generalize capture.request.headers.iterPairs = headers
  induction headers with
  | nil => rfl
  | cons e headers ih =>
    rw [List.filterMap_cons, valuesNamed_cons]
    unfold headerSecret
    by_cases hname : asciiLower e.1 = "authorization".toList
    · rw [if_pos hname, if_pos ((named_authorization_iff e).mpr hname), List.map_cons]
      exact congrArg _ ih
    · rw [if_neg hname, if_neg fun h => hname ((named_authorization_iff e).mp h)]
      exact ih

/-- What a promotion suggests is in the vault and among the variables. -/
structure Stores (promotion : Promotion) (r : Resolver) : Prop where
  secrets : ∃ vault : SortedMap Text Text, r.secrets = (vault.insertAll promotion.secrets).get?
  vars : ∃ vars : SortedMap Text Text, r.vars = vars.insertAll promotion.vars

variable {capture}

/-- The reference leads to the last captured credential. -/
theorem stored_of_authorizations {promotion : Promotion} {r : Resolver}
    (hsecrets : promotion.secrets = (capture.promoteHeaders {}).secrets)
    (hstores : Stores promotion r) (hsome : authorizations capture ≠ []) :
    r.secrets (suggestSecretName capture.request.url) = some (storedSecret capture) := by
  obtain ⟨vault, hvault⟩ := hstores.secrets
  rw [hvault, hsecrets, promoted_secrets]
  unfold storedSecret
  obtain ⟨values, last, hlast⟩ : ∃ values last, authorizations capture = values ++ [last] :=
    ⟨_, _, (List.dropLast_append_getLast hsome).symm⟩
  rw [hlast, List.map_append, List.getLast?_concat]
  unfold SortedMap.insertAll
  rw [List.foldl_append]
  exact SortedMap.get?_insert_self _ _ _

end Promoted

/-! ### What goes on the wire -/

section Wire

variable {Url : Type} {platform : Platform} {network : Network Url} {ctx : RunContext}

/-- The resolver has the same setup. -/
def SameResolver (s t : EngineState Url) : Prop := SameSetup s.resolver t.resolver

/-- A call that keeps the setup of a resolver keeps that of the engine's resolver. -/
theorem onResolver_sameResolver {α : Type} {call : BodyM α} (h : Keeps SameSetup call) :
    Keeps SameResolver (onResolver call : EngineM Url α) := by
  intro s
  unfold onResolver
  rw [exec_zoom]
  exact h s.resolver

/-- The setup stays over two calls. -/
theorem sameResolver_trans (s t u : EngineState Url) (hst : SameResolver s t)
    (htu : SameResolver t u) : SameResolver s u := sameSetup_trans _ _ _ hst htu

/-- The headers of the parts of a request: the same names, and the values resolved. -/
theorem prepareParts_headers {spec : RequestSpec} {parts : Parts Url} {s t : EngineState Url}
    (hkeys : ∀ e ∈ spec.headers.fields.entries, ¬ opening <:+: e.1)
    (h : exec (prepareParts platform network ctx spec false) s = (.ok parts, t)) :
    SameResolver s t ∧ List.Forall₂ (fun e e' => e'.1 = e.1
      ∧ Resolved platform.world s.resolver e.2 e'.2) spec.headers.iterPairs parts.headers := by
  have hlift : ∀ {α : Type} {call : ResolverM α}, Keeps SameSetup call →
      Keeps SameResolver (onResolver (liftCore call) : EngineM Url α) := fun hcall =>
    onResolver_sameResolver (liftCore_keeps hcall)
  have hmap : ∀ map, Keeps SameSetup (resolveMap platform.world map) := kept_sameSetup.resolveMap
  unfold prepareParts at h
  obtain ⟨text, s₁, htext, h⟩ := exec_bind_eq_ok.mp h
  have h₁ : SameResolver s s₁ := by
    have hresolve : Keeps SameSetup (resolve platform.world spec.url) :=
        kept_sameSetup.resolve spec.url
    have hkeep := hlift hresolve s
    unfold resolveText at htext
    rwa [htext] at hkeep
  split at h
  · exact nomatch congrArg Prod.fst h
  · obtain ⟨query, s₂, hquery, h⟩ := exec_bind_eq_ok.mp h
    have h₂ : SameResolver s₁ s₂ := by
      have hkeep := hlift (hmap spec.query) s₁
      rwa [hquery] at hkeep
    obtain ⟨headers, s₃, hheaders, h⟩ := exec_bind_eq_ok.mp h
    have h₃ : SameResolver s₂ s₃ := by
      have hkeep := hlift (hmap spec.headers) s₂
      rwa [hheaders] at hkeep
    obtain ⟨body, s₄, hbody, h⟩ := exec_bind_eq_ok.mp h
    have h₄ : SameResolver s₃ s₄ := by
      have hkeep := @onResolver_sameResolver Url _ _
        (buildBody_keeps kept_sameSetup platform ctx.baseDir spec) s₃
      rwa [hbody] at hkeep
    have hstart := sameResolver_trans _ _ _ h₁ h₂
    obtain ⟨hparts, rfl⟩ := Prod.mk.inj h
    obtain rfl := Except.ok.inj hparts
    refine ⟨sameResolver_trans _ _ _ hstart (sameResolver_trans _ _ _ h₃ h₄), ?_⟩
    -- The headers are resolved by a resolver with the same setup.
    have hrun : exec (resolveMap platform.world spec.headers) s₂.resolver
        = (.ok headers, s₃.resolver) := by
      unfold onResolver at hheaders
      rw [exec_zoom] at hheaders
      obtain ⟨hok, hstate⟩ := Prod.mk.inj hheaders
      refine exec_liftCore_eq_ok.mp (Prod.ext hok ?_)
      rw [← hstate]
    show List.Forall₂ _ _ (headers.iterPairs ++ if false = true ∧ _ then _ else [])
    rw [if_neg (fun hstream => Bool.false_ne_true hstream.1), List.append_nil]
    refine (resolvedPairs_ok hkeys hrun).imp ?_
    rintro e e' ⟨hname, u, u', hu, hvalue⟩
    exact ⟨hname, u, u', sameSetup_trans _ _ _ hstart hu, hvalue⟩

/-- A content type is no credential. -/
theorem valuesNamed_contentType {spec : RequestSpec} {parts : Parts Url} {s t : EngineState Url}
    (h : exec (prepareParts platform network ctx spec false) s = (.ok parts, t)) :
    valuesNamed "authorization".toList parts.contentType = []
      ∧ valuesNamed "cookie".toList parts.contentType = [] := by
  rcases prepareParts_contentType h with hnone | ⟨⟨value, hone⟩, -⟩
  · rw [hnone]
    exact ⟨rfl, rfl⟩
  · rw [hone]
    exact ⟨rfl, rfl⟩

/-- A secret reference is resolved to its secret. -/
theorem resolved_secretRef {world : World} {r : Resolver} {url secret value : Text}
    (hsecret : r.secrets (suggestSecretName url) = some secret)
    (h : Resolved world r (secretRef (suggestSecretName url)) value) : value = secret := by
  obtain ⟨s, s', hs, hrun⟩ := h
  have hvalue := resolve_secretRef world (derived_suggestSecretName url) s
      (by rw [hs.2.1]; exact hsecret)
  rw [hrun] at hvalue
  exact Except.ok.inj hvalue

variable {upper : Text → Text} {nowMs : UInt64} {capture : Capture} {promotion : Promotion}
  {s : EngineState Url} {first : WireRequest Url} {rest : List (WireRequest Url)}

variable (network ctx capture s) in
/-- The cookies that the session of the capture has for a URL. -/
def jarCookies (url : Url) : Option Text :=
  sessionCookie network.urls ctx (some (.session capture.session)) s.sessions
    (network.clock s.ticks) url

/-- What corresponds to copies of one thing. -/
theorem eq_replicate_of_forall₂ {α : Type} {R : α → α → Prop} {n : Nat} {x z : α} {l : List α}
    (h : List.Forall₂ R (List.replicate n x) l) (hR : 0 < n → ∀ y, R x y → y = z) :
    l = List.replicate n z := by
  rw [List.eq_replicate_iff]
  have hlength := h.length_eq
  rw [List.length_replicate] at hlength
  refine ⟨hlength.symm, fun y hy => ?_⟩
  obtain ⟨x', hx', hxy⟩ := forall₂_exists_of_mem_right h hy
  obtain rfl := List.eq_of_mem_replicate hx'
  refine hR ?_ y hxy
  rw [hlength]
  exact List.length_pos_of_mem hy

/-- The authentication of a promoted request. -/
theorem promoted_auth (hpromote : capture.promote upper nowMs {} = some promotion) :
    promotion.spec.auth = if (authorizations capture).any isBearerValue then
        some (.bearer (secretRef (suggestSecretName capture.request.url)))
      else if capture.request.headers.iterPairs.any isCookie then some (.session capture.session)
      else none := by
  obtain ⟨base, hspec⟩ := promote_spec hpromote
  rw [hspec.auth, promoteHeaders_auth, any_isBearer]

/-- A promoted request fetches no token. -/
theorem promoted_noToken (hpromote : capture.promote upper nowMs {} = some promotion) :
    NoToken promotion.spec := by
  intro config hconfig
  rw [promoted_auth hpromote] at hconfig
  split_ifs at hconfig
  · exact nomatch Option.some.inj hconfig
  · exact nomatch Option.some.inj hconfig

/-- The names of a promoted request are captured ones. -/
theorem promoted_keys (hpromote : capture.promote upper nowMs {} = some promotion)
    (hnames : ∀ e ∈ capture.request.headers.iterPairs, ¬ opening <:+: e.1) :
    ∀ e ∈ promotion.spec.headers.fields.entries, ¬ opening <:+: e.1 := by
  obtain ⟨base, hspec⟩ := promote_spec hpromote
  rw [hspec.headers]
  intro e he
  have hsome : e.2.toList ≠ [] := by
    rw [promoteHeaders_headers] at he
    exact FieldMap.toList_ne_nil_of_fromIter he
  obtain ⟨w, hw⟩ := List.exists_mem_of_ne_nil _ hsome
  have hpair : (e.1, w) ∈ (capture.promoteHeaders {}).headers.iterPairs :=
    List.mem_flatMap.mpr ⟨e, he, List.mem_map_of_mem hw⟩
  obtain ⟨v, hv, -⟩ := mem_promoteHeaders.mp hpair
  exact hnames (e.1, v) hv

/-- The credentials of the first request of a promoted request. -/
theorem wire_credentials (hpromote : capture.promote upper nowMs {} = some promotion)
    (hnames : ∀ e ∈ capture.request.headers.iterPairs, ¬ opening <:+: e.1)
    (hstores : Stores promotion s.resolver)
    (hsent : (exec (execute platform network ctx promotion.spec) s).2.wire
      = s.wire ++ first :: rest) :
    valuesNamed "authorization".toList first.headers
        = List.replicate ((authorizations capture).countP fun value => !isBearerValue value)
            (storedSecret capture)
          ++ (if (authorizations capture).any isBearerValue then
            ["Bearer ".toList ++ storedSecret capture] else [])
      ∧ valuesNamed "cookie".toList first.headers
        = if (authorizations capture).any isBearerValue then []
          else if capture.request.headers.iterPairs.any isCookie then
            (jarCookies network ctx capture s first.url).toList
          else [] := by
  obtain ⟨base, hspec⟩ := promote_spec hpromote
  obtain ⟨ready, s₁, hready, hoffline, hfirst⟩ :=
    ready_of_sent (promoted_noToken hpromote) hsent
  rw [firstTurn_request, hoffline.sessions, hoffline.ticks] at hfirst
  unfold makeReady at hready
  obtain ⟨parts, t, hparts, hready⟩ := exec_bind_eq_ok.mp hready
  obtain ⟨⟨url, authHeaders⟩, t₁, hauth, hready⟩ := exec_bind_eq_ok.mp hready
  obtain ⟨identity, t₂, -, hready⟩ := exec_bind_eq_ok.mp hready
  obtain ⟨client, t₃, -, hready⟩ := exec_bind_eq_ok.mp hready
  have hmade : ready = { parts, url, authHeaders } := by
    split at hready
    · exact nomatch congrArg Prod.fst hready
    · exact (Except.ok.inj (Prod.mk.inj hready).1).symm
  obtain ⟨hsame, hpairs⟩ := prepareParts_headers (promoted_keys hpromote hnames) hparts
  obtain ⟨hnoAuth, hnoCookie⟩ := valuesNamed_contentType hparts
  rw [hspec.headers] at hpairs
  -- The references in the file lead to the last captured credential.
  have hwritten : valuesNamed "authorization".toList parts.headers
      = List.replicate ((authorizations capture).countP fun value => !isBearerValue value)
        (storedSecret capture) := by
    have hresolved := valuesNamed_forall₂ hpairs "authorization".toList
    rw [promoted_authorizations] at hresolved
    refine eq_replicate_of_forall₂ hresolved fun hpos value hvalue => ?_
    obtain ⟨v, hv, -⟩ := List.countP_pos_iff.mp hpos
    exact resolved_secretRef
      (stored_of_authorizations hspec.secrets hstores (List.ne_nil_of_mem hv)) hvalue
  have hcookieless : valuesNamed "cookie".toList parts.headers = [] := by
    have hresolved := valuesNamed_forall₂ hpairs "cookie".toList
    rw [promoted_cookies] at hresolved
    exact List.forall₂_nil_left_iff.mp hresolved
  rw [applyAuth_of_noToken platform network (promoted_noToken hpromote),
    promoted_auth hpromote] at hauth
  rw [hfirst, hmade]
  unfold Ready.headerList
  dsimp only
  rw [promoted_auth hpromote]
  simp only [valuesNamed_append, hnoAuth, hnoCookie, hwritten, hcookieless, List.append_nil,
    List.nil_append]
  cases hbearer : (authorizations capture).any isBearerValue with
  | true =>
    simp only [hbearer, if_true] at hauth ⊢
    obtain ⟨token, t₄, htoken, hout⟩ := exec_bind_eq_ok.mp hauth
    obtain ⟨v, hv, -⟩ := List.any_eq_true.mp hbearer
    have hvalue : token = storedSecret capture := by
      unfold resolveText onResolver at htoken
      rw [exec_zoom] at htoken
      obtain ⟨hok, hstate⟩ := Prod.mk.inj htoken
      have hrun := exec_liftCore_eq_ok.mp
        (Prod.ext hok rfl : exec (liftCore (resolve platform.world _)) t.resolver = (.ok token, _))
      exact resolved_secretRef
        (stored_of_authorizations hspec.secrets hstores (List.ne_nil_of_mem hv))
        ⟨_, _, hsame, hrun⟩
    obtain ⟨rfl, rfl⟩ := Prod.mk.inj (Except.ok.inj (Prod.mk.inj hout).1)
    rw [hvalue, List.append_assoc]
    exact ⟨rfl, rfl⟩
  | false =>
    simp only [hbearer, Bool.false_eq_true, if_false] at hauth ⊢
    cases hcookie : capture.request.headers.iterPairs.any isCookie with
    | true =>
      simp only [hcookie, if_true] at hauth ⊢
      obtain ⟨rfl, rfl⟩ := Prod.mk.inj (Except.ok.inj (Prod.mk.inj hauth).1)
      rw [List.append_assoc]
      change List.replicate _ _ ++ valuesNamed _ ((jarCookies network ctx capture s parts.url).map
          fun c => ("Cookie".toList, c)).toList = _ ∧ valuesNamed _
          ((jarCookies network ctx capture s parts.url).map fun c =>
              ("Cookie".toList, c)).toList = _
      cases jarCookies network ctx capture s parts.url with
      | none => exact ⟨rfl, rfl⟩
      | some cookies => exact ⟨rfl, rfl⟩
    | false =>
      simp only [hcookie, Bool.false_eq_true, if_false] at hauth ⊢
      obtain ⟨rfl, rfl⟩ := Prod.mk.inj (Except.ok.inj (Prod.mk.inj hauth).1)
      rw [List.append_assoc]
      exact ⟨rfl, rfl⟩

end Wire

/-! ### The promise -/

section Promise

variable {Url : Type} {platform : Platform} {network : Network Url} {ctx : RunContext}
  {upper : Text → Text} {nowMs : UInt64} {capture : Capture} {promotion : Promotion}
  {s : EngineState Url} {first : WireRequest Url} {rest : List (WireRequest Url)}

variable (network ctx capture s) in
/-- The first request has the cookies of the session when the capture had a `Cookie`, and each
captured `Authorization`, once. -/
structure KeepsCredentials (first : WireRequest Url) : Prop where
  cookie : capture.request.headers.iterPairs.any isCookie = true →
    ∀ cookies, jarCookies network ctx capture s first.url = some cookies →
      valuesNamed "cookie".toList first.headers = [cookies]
  authorization : ∀ value ∈ authorizations capture,
    valuesNamed "authorization".toList first.headers = [value]

/-- The captured `Authorization` values are one that is no bearer value, or all the same bearer
value, whose token has no white space around it. -/
def OneAuthorization (values : List Text) : Prop :=
  (∃ value, values = [value] ∧ isBearerValue value = false)
    ∨ ∃ token, trim token = token ∧ ∀ value ∈ values, value = "Bearer ".toList ++ token

/-- A bearer value is one. -/
theorem isBearerValue_append (token : Text) :
    isBearerValue ("Bearer ".toList ++ token) = true := decide_eq_true (List.prefix_append _ _)

/-- The secret of a bearer value is its token. -/
theorem authorizationSecret_bearer (token : Text) :
    authorizationSecret ("Bearer ".toList ++ token) = trim token := by
  unfold authorizationSecret
  rw [if_pos (List.prefix_append _ _), List.drop_left]

/-- The values that go on the wire for those that were captured. -/
theorem authorization_kept_iff (capture : Capture) :
    (∀ value ∈ authorizations capture,
        List.replicate ((authorizations capture).countP fun value => !isBearerValue value)
            (storedSecret capture)
          ++ (if (authorizations capture).any isBearerValue then
            ["Bearer ".toList ++ storedSecret capture] else []) = [value])
      ↔ OneAuthorization (authorizations capture) := by
  unfold storedSecret
  generalize authorizations capture = values
  constructor
  · intro hkept
    rcases values.eq_nil_or_concat with rfl | ⟨front, last, rfl⟩
    · exact .inr ⟨[], rfl, fun value hvalue => absurd hvalue List.not_mem_nil⟩
    · rw [List.concat_eq_append] at hkept ⊢
      rw [List.getLast?_concat] at hkept
      change ∀ value ∈ front ++ [last], List.replicate _ (authorizationSecret last) ++ _ = [value]
        at hkept
      cases hbearer : (front ++ [last]).any isBearerValue with
      | true =>
        -- Every value is the one bearer value, so that its token is its own trim.
        rw [if_pos hbearer] at hkept
        have hall : ∀ value ∈ front ++ [last],
            value = "Bearer ".toList ++ authorizationSecret last := by
          intro value hvalue
          have hone := hkept value hvalue
          have hlength := congrArg List.length hone
          rw [List.length_append, List.length_replicate, List.length_singleton,
            List.length_singleton] at hlength
          have hnone : ((front ++ [last]).countP fun value => !isBearerValue value) = 0 := by
            omega
          rw [hnone, List.replicate_zero, List.nil_append] at hone
          exact (List.singleton_inj.mp hone).symm
        refine .inr ⟨authorizationSecret last, ?_, hall⟩
        have hlast := hall last (List.mem_append_right _ List.mem_cons_self)
        have htrim : authorizationSecret last = trim (authorizationSecret last) := by
          conv_lhs => rw [hlast]
          exact authorizationSecret_bearer _
        exact htrim.symm
      | false =>
        have hplain : ∀ value ∈ front ++ [last], isBearerValue value = false := by
          intro value hvalue
          exact Bool.eq_false_iff.mpr (List.any_eq_false.mp hbearer value hvalue)
        have hcount : ((front ++ [last]).countP fun value => !isBearerValue value)
            = (front ++ [last]).length := by
          refine List.countP_eq_length.mpr fun value hvalue => ?_
          rw [hplain value hvalue]
          rfl
        have hone := hkept last (List.mem_append_right _ List.mem_cons_self)
        rw [hbearer, if_neg Bool.false_ne_true, List.append_nil, hcount] at hone
        have hlength := congrArg List.length hone
        rw [List.length_replicate, List.length_append, List.length_singleton] at hlength
        have hfront : front = [] := List.eq_nil_of_length_eq_zero (by omega)
        refine .inl ⟨last, ?_, hplain last (List.mem_append_right _ List.mem_cons_self)⟩
        rw [hfront, List.nil_append]
  · rintro (⟨value, rfl, hplain⟩ | ⟨token, htoken, hall⟩) v hv
    · obtain rfl := List.mem_singleton.mp hv
      have hsecret : authorizationSecret v = v := if_neg (of_decide_eq_false hplain)
      rw [List.countP_singleton, List.any_cons, List.any_nil, hplain]
      show [authorizationSecret v] ++ [] = [v]
      rw [hsecret, List.append_nil]
    · have hbearer : ∀ value ∈ values, isBearerValue value = true := by
        intro value hvalue
        rw [hall value hvalue]
        exact isBearerValue_append token
      have hnone : (values.countP fun value => !isBearerValue value) = 0 := by
        refine List.countP_eq_zero.mpr fun value hvalue => ?_
        rw [hbearer value hvalue]
        exact Bool.false_ne_true
      have hlast : values.getLast? = some ("Bearer ".toList ++ token) := by
        obtain ⟨last, hlast⟩ := List.getLast?_isSome.mpr (List.ne_nil_of_mem hv)
          |> Option.isSome_iff_exists.mp
        rw [hlast, hall last (List.mem_of_getLast? hlast)]
      rw [hnone, if_pos (List.any_eq_true.mpr ⟨v, hv, hbearer v hv⟩), hlast, hall v hv]
      show [] ++ ["Bearer ".toList ++ authorizationSecret ("Bearer ".toList ++ token)] = _
      rw [authorizationSecret_bearer, htoken, List.nil_append]

/-- **When promotion loses no credential**: the capture has not both a `Cookie` and a bearer value,
and its `Authorization` values are one that is no bearer value, or one bearer value. -/
theorem keepsCredentials_iff (hpromote : capture.promote upper nowMs {} = some promotion)
    (hnames : ∀ e ∈ capture.request.headers.iterPairs, ¬ opening <:+: e.1)
    (hstores : Stores promotion s.resolver)
    (hsent : (exec (execute platform network ctx promotion.spec) s).2.wire
      = s.wire ++ first :: rest)
    (hjar : capture.request.headers.iterPairs.any isCookie = true →
      (jarCookies network ctx capture s first.url).isSome) :
    KeepsCredentials network ctx capture s first
      ↔ ¬ (capture.request.headers.iterPairs.any isCookie = true
          ∧ (authorizations capture).any isBearerValue = true)
        ∧ OneAuthorization (authorizations capture) := by
  obtain ⟨hauthorization, hcookie⟩ := wire_credentials hpromote hnames hstores hsent
  rw [← authorization_kept_iff, ← hauthorization]
  constructor
  · intro hkeeps
    refine ⟨fun ⟨hcookies, hbearer⟩ => ?_, hkeeps.authorization⟩
    obtain ⟨cookies, hsome⟩ := Option.isSome_iff_exists.mp (hjar hcookies)
    have hlost := hkeeps.cookie hcookies cookies hsome
    rw [hcookie, if_pos hbearer] at hlost
    exact absurd hlost.symm (List.cons_ne_nil _ _)
  · rintro ⟨hapart, hkept⟩
    refine ⟨fun hcookies cookies hsome => ?_, hkept⟩
    rw [hcookie, if_neg (fun hbearer => hapart ⟨hcookies, hbearer⟩), if_pos hcookies, hsome]
    rfl

end Promise

/-! ### Two captures -/

section Samples

/-- A store whose session `work` is logged in. -/
def workSessions : SessionStore :=
  SessionStore.new.insert 0 "work".toList
    { name := "sid".toList, value := "abc".toList, domain := "api.test".toList,
      path := "/".toList, hostOnly := true, secure := true, httpOnly := true, expiresMs := none }

/-- An engine with these sessions and with what a promotion suggests. -/
def storedState (promotion : Promotion) : EngineState (Text × Text) :=
  { EngineState.fresh with
    resolver :=
      { Resolver.new with
        secrets := (SortedMap.empty.insertAll promotion.secrets).get?
        vars := SortedMap.empty.insertAll promotion.vars }
    sessions := workSessions }

/-- The vault of the sample holds what the promotion stores. -/
theorem stores_storedState (promotion : Promotion) :
    Stores promotion (storedState promotion).resolver :=
  ⟨⟨SortedMap.empty, rfl⟩, ⟨SortedMap.empty, rfl⟩⟩

/-- A capture with a cookie and a bearer token. -/
def cookieBearerCapture : Capture :=
  sampleCapture "https://api.test/v1".toList
    [("Cookie".toList, "sid=abc".toList), ("Authorization".toList, "Bearer tok".toList)]

/-- The first request of a promoted capture, run with what its promotion suggests. -/
def firstWire (capture : Capture) : Option (WireRequest (Text × Text)) :=
  (capture.promote asciiUpper 0 {}).bind fun promotion =>
    (exec (execute emptyPlatform (scriptedNetwork []) defaultContext promotion.spec)
      (storedState promotion)).2.wire.head?

/-- It is the first one of a run from a state that has sent nothing. -/
theorem exists_of_firstWire {capture : Capture} {first : WireRequest (Text × Text)}
    (h : firstWire capture = some first) :
    ∃ promotion rest, capture.promote asciiUpper 0 {} = some promotion
      ∧ (exec (execute emptyPlatform (scriptedNetwork []) defaultContext promotion.spec)
          (storedState promotion)).2.wire = (storedState promotion).wire ++ first :: rest := by
  obtain ⟨promotion, hpromote, hfirst⟩ := Option.bind_eq_some_iff.mp h
  obtain ⟨rest, hwire⟩ := List.head?_eq_some_iff.mp hfirst
  exact ⟨promotion, rest, hpromote, hwire⟩

/-- A bearer token without a cookie is kept. -/
theorem keepsCredentials_iff_bearer : ∃ promotion first rest,
    bearerCapture.promote asciiUpper 0 {} = some promotion
      ∧ (exec (execute emptyPlatform (scriptedNetwork []) defaultContext promotion.spec)
          (storedState promotion)).2.wire = (storedState promotion).wire ++ first :: rest
      ∧ KeepsCredentials (scriptedNetwork []) defaultContext bearerCapture
          (storedState promotion) first := by
  have hsome : (firstWire bearerCapture).isSome = true := by decide +kernel
  obtain ⟨first, hfirst⟩ := Option.isSome_iff_exists.mp hsome
  obtain ⟨promotion, rest, hpromote, hwire⟩ := exists_of_firstWire hfirst
  refine ⟨promotion, first, rest, hpromote, hwire, ?_⟩
  have hnone : bearerCapture.request.headers.iterPairs.any isCookie = false := by decide
  have hvalues : authorizations bearerCapture = ["Bearer ".toList ++ "tok".toList] := by decide
  refine (keepsCredentials_iff hpromote (by decide) (stores_storedState promotion) hwire
    fun hcookie => ?_).mpr ⟨fun hboth => ?_, .inr ⟨"tok".toList, by decide, ?_⟩⟩
  · rw [hnone] at hcookie
    exact absurd hcookie Bool.false_ne_true
  · rw [hnone] at hboth
    exact absurd hboth.1 Bool.false_ne_true
  · rw [hvalues]
    exact fun value hvalue => List.mem_singleton.mp hvalue

/-- With a cookie beside it, the cookie of the session is not sent. -/
theorem not_keepsCredentials_cookie : ∃ promotion first rest,
    cookieBearerCapture.promote asciiUpper 0 {} = some promotion
      ∧ Stores promotion (storedState promotion).resolver
      ∧ (exec (execute emptyPlatform (scriptedNetwork []) defaultContext promotion.spec)
          (storedState promotion)).2.wire = (storedState promotion).wire ++ first :: rest
      ∧ jarCookies (scriptedNetwork []) defaultContext cookieBearerCapture
          (storedState promotion) first.url = some "sid=abc".toList
      ∧ ¬ KeepsCredentials (scriptedNetwork []) defaultContext cookieBearerCapture
          (storedState promotion) first := by
  -- The first request on the wire, found by running the program.
  have hsent : (firstWire cookieBearerCapture).any (fun first =>
      first.url == ("api.test".toList, "/v1".toList)
        && valuesNamed "cookie".toList first.headers == []) = true := by decide +kernel
  obtain ⟨first, hfirst, htest⟩ := (Option.any_eq_true _ _).mp hsent
  obtain ⟨hurl, hcookie⟩ := Bool.and_eq_true_iff.mp htest
  obtain ⟨promotion, rest, hpromote, hwire⟩ := exists_of_firstWire hfirst
  -- The session has a cookie for the URL of the request.
  have hjar : jarCookies (scriptedNetwork []) defaultContext cookieBearerCapture
      (storedState promotion) first.url = some "sid=abc".toList := by
    rw [eq_of_beq hurl]
    show sessionCookie httpsUrls defaultContext (some (.session (some "work".toList)))
      workSessions 0 ("api.test".toList, "/v1".toList) = _
    decide +kernel
  refine ⟨promotion, first, rest, hpromote, stores_storedState promotion, hwire, hjar, ?_⟩
  -- The request does not have it, though.
  intro hkeeps
  have hlost := hkeeps.cookie (by decide) _ hjar
  rw [eq_of_beq hcookie] at hlost
  exact absurd hlost.symm (List.cons_ne_nil _ _)

end Samples

end Gabriel.Engine
