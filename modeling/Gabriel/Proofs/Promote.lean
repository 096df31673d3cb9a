import Gabriel.Core.Capture
import Gabriel.Core.Vars
import Gabriel.Proofs.FieldMap

/-!
# `Gabriel.Proofs.Promote`: what promotion makes of the headers

The header loop of `promote`, under the default options, read one header at a time:
`headerWritten` is the value a header has in the saved file, `headerSecret` the vault entry it
suggests, `headerAuth` the authentication behind it. The loop collects these over all captured
headers, from any state.

Promotion extracts a credential from three header names only, and drops the hop-by-hop ones. A
captured header of another credential name is written into the file as it was. The theorems:

* `promote_spec`: where the parts of a promotion come from; `isSome_promote`: where it panics.
* `foldl_promoteHeader`: the loop over any headers, by induction.
* `promoteHeaders_headers`, `promoteHeaders_secrets`, `promoteHeaders_auth`: what it collects.
* `mem_secrets`: a listed secret is the credential of a captured `Authorization`.
* `writesNoCredential_iff`: no captured credential is written exactly when each captured credential
  header has an extracted name, or already holds the reference that is written for it.
-/

set_option autoImplicit false

namespace Gabriel.Core

open Text

namespace Capture

/-- Where the parts of a promotion come from. -/
structure PromoteSpec (capture : Capture) (opts : PromoteOptions) (promotion : Promotion)
    (base : Text) : Prop where
  splitQuery : splitQuery capture.request.url = some (base, promotion.spec.query)
  url : (promotion.spec.url, promotion.vars) = promoteUrl opts base
  body : capture.promoteBody = some promotion.spec.body
  settings : promotion.spec.settings = {}
  captures : promotion.spec.captures = []
  headers : promotion.spec.headers = (capture.promoteHeaders opts).headers
  auth : promotion.spec.auth = (capture.promoteHeaders opts).auth
  secrets : promotion.secrets = (capture.promoteHeaders opts).secrets

/-- A promotion that does not panic is made of the split URL, the header loop and the body. -/
theorem promote_spec {upper : Text → Text} {nowMs : UInt64} {capture : Capture}
    {opts : PromoteOptions} {promotion : Promotion}
    (h : capture.promote upper nowMs opts = some promotion) :
    ∃ base, PromoteSpec capture opts promotion base := by
  simp only [promote, Option.bind_eq_bind, Option.bind_eq_some_iff] at h
  obtain ⟨⟨base, query⟩, hquery, body, hbody, hp⟩ := h
  cases hp
  exact ⟨base, hquery, rfl, hbody, rfl, rfl, rfl, rfl, rfl⟩

/-- Promotion panics only in the query of the URL or in the body. -/
theorem isSome_promote (upper : Text → Text) (nowMs : UInt64) (capture : Capture)
    (opts : PromoteOptions) :
    (capture.promote upper nowMs opts).isSome
      = ((Gabriel.Core.splitQuery capture.request.url).isSome && capture.promoteBody.isSome) := by
  unfold promote
  cases Gabriel.Core.splitQuery capture.request.url with
  | none => rfl
  | some split => cases capture.promoteBody <;> rfl

/-- The credential an `Authorization` value holds: the token of a bearer value, any other value
whole. -/
def authorizationSecret (value : Text) : Text :=
  if "Bearer ".toList <+: value then trim (value.drop "Bearer ".toList.length) else value

/-- The value a captured header has in the saved file; `none` when it is not written. -/
def headerWritten (url : Text) (header : Text × Text) : Option Text :=
  let lower := asciiLower header.1
  if lower ∈ hopByHop ∨ lower = "cookie".toList then none
  else if lower = "authorization".toList then
    if "Bearer ".toList <+: header.2 then none else some (secretRef (suggestSecretName url))
  else some header.2

/-- The vault entry a captured header suggests. -/
def headerSecret (url : Text) (header : Text × Text) : Option (Text × Text) :=
  if asciiLower header.1 = "authorization".toList then
    some (suggestSecretName url, authorizationSecret header.2)
  else none

/-- Whether a header is a bearer `Authorization`. -/
def isBearer (header : Text × Text) : Bool :=
  asciiLower header.1 = "authorization".toList ∧ "Bearer ".toList <+: header.2

/-- Whether a header is a `Cookie`. -/
def isCookie (header : Text × Text) : Bool := asciiLower header.1 = "cookie".toList

/-- The authentication after one more header: a bearer value wins over everything before it, a
cookie only fills a gap. -/
def headerAuth (capture : Capture) (auth : Option Auth) (header : Text × Text) : Option Auth :=
  if isCookie header then some (auth.getD (.session capture.session))
  else if isBearer header then
    some (.bearer (secretRef (suggestSecretName capture.request.url)))
  else auth

/-- One step of the header loop. -/
theorem promoteHeader_default (capture : Capture) (acc : HeaderLoop) (header : Text × Text) :
    capture.promoteHeader {} acc header =
      { headers := match headerWritten capture.request.url header with
          | some value => acc.headers.insert header.1 value
          | none => acc.headers
        auth := capture.headerAuth acc.auth header
        secrets := acc.secrets ++ (headerSecret capture.request.url header).toList } := by
  obtain ⟨key, value⟩ := header
  -- None of the three special names is another one, so the tests exclude each other.
  have hauthHop : "authorization".toList ∉ hopByHop := by decide
  have hcookieHop : "cookie".toList ∉ hopByHop := by decide
  have hne : "authorization".toList ≠ "cookie".toList := by decide
  unfold promoteHeader headerWritten headerAuth headerSecret isCookie isBearer authorizationSecret
  dsimp only
  -- A hop-by-hop header is dropped whatever its name is.
  by_cases hhop : asciiLower key ∈ hopByHop
  · have hna : asciiLower key ≠ "authorization".toList := by
      intro h
      exact hauthHop (h ▸ hhop)
    have hnc : asciiLower key ≠ "cookie".toList := by
      intro h
      exact hcookieHop (h ▸ hhop)
    simp only [hhop, hna, hnc, true_or, if_true, if_false, false_and, decide_false,
      Bool.false_eq_true, Option.toList_none, List.append_nil]
  -- The tests of the source in their order: cookie, authorization, anything else.
  · by_cases hc : asciiLower key = "cookie".toList
    · simp only [hc, hcookieHop, hne.symm, Bool.false_eq_true, not_false_eq_true, and_self,
        if_true, if_false, or_true, decide_true, Option.toList_none, List.append_nil]
    · by_cases ha : asciiLower key = "authorization".toList
      -- A bearer value becomes the authentication, any other value a secret.
      · by_cases hb : "Bearer ".toList <+: value
        · simp only [ha, hauthHop, hne, hb, false_and, or_self, if_true, if_false, decide_true,
            decide_false, and_self, Bool.false_eq_true, Option.toList_some]
        · simp only [ha, hauthHop, hne, hb, false_and, or_self, if_true, if_false, decide_false,
            and_false, Bool.false_eq_true, Option.toList_some]
      · simp only [hhop, hc, ha, false_and, or_self, if_false, decide_false,
          Bool.false_eq_true, Option.toList_none, List.append_nil]

/-- The loop over any headers, from any state. -/
theorem foldl_promoteHeader (capture : Capture) (headers : List (Text × Text))
    (acc : HeaderLoop) :
    headers.foldl (capture.promoteHeader {}) acc =
      { headers := (headers.filterMap fun h =>
            (headerWritten capture.request.url h).map fun value => (h.1, value)).foldl
          (fun map e => map.insert e.1 e.2) acc.headers
        auth := headers.foldl capture.headerAuth acc.auth
        secrets := acc.secrets ++ headers.filterMap (headerSecret capture.request.url) } := by
  induction headers generalizing acc with
  | nil => simp
  | cons header headers ih =>
    rw [List.foldl_cons, ih, promoteHeader_default]
    cases hw : headerWritten capture.request.url header <;>
      cases hs : headerSecret capture.request.url header <;>
      simp [hw, hs]

/-- The headers of the saved file. -/
theorem promoteHeaders_headers (capture : Capture) :
    (capture.promoteHeaders {}).headers = FieldMap.fromIter
      (capture.request.headers.iterPairs.filterMap fun h =>
        (headerWritten capture.request.url h).map fun value => (h.1, value)) := by
  rw [promoteHeaders, foldl_promoteHeader]
  rfl

/-- The suggested vault entries. -/
theorem promoteHeaders_secrets (capture : Capture) :
    (capture.promoteHeaders {}).secrets =
      capture.request.headers.iterPairs.filterMap (headerSecret capture.request.url) := by
  rw [promoteHeaders, foldl_promoteHeader]
  rfl

/-- The authentication of the saved file: a bearer reference when some `Authorization` is a
bearer value, else the session when there is a cookie. -/
theorem promoteHeaders_auth (capture : Capture) :
    (capture.promoteHeaders {}).auth =
      if capture.request.headers.iterPairs.any isBearer then
        some (.bearer (secretRef (suggestSecretName capture.request.url)))
      else if capture.request.headers.iterPairs.any isCookie then
        some (.session capture.session)
      else none := by
  rw [promoteHeaders, foldl_promoteHeader]
  show capture.request.headers.iterPairs.foldl capture.headerAuth none = _
  -- The loop carries the session, the bearer reference or nothing: induct from the end.
  induction capture.request.headers.iterPairs using List.reverseRecOn with
  | nil => rfl
  | append_singleton headers header ih =>
    rw [List.foldl_append, List.foldl_cons, List.foldl_nil, ih, headerAuth, List.any_append,
      List.any_append]
    have hboth : isCookie header = true → isBearer header = false := by
      intro hc
      simp only [isCookie, decide_eq_true_eq] at hc
      simp only [isBearer, hc, decide_eq_false_iff_not, not_and]
      intro h
      exact absurd h (by decide)
    cases hc : isCookie header <;> cases hb : isBearer header <;>
      cases headers.any isBearer <;> cases headers.any isCookie <;> simp_all

/-- A header of the saved file comes from a captured header of the same name. -/
theorem mem_promoteHeaders {capture : Capture} {k w : Text} :
    (k, w) ∈ (capture.promoteHeaders {}).headers.iterPairs ↔
      ∃ v, (k, v) ∈ capture.request.headers.iterPairs ∧
        headerWritten capture.request.url (k, v) = some w := by
  rw [promoteHeaders_headers, FieldMap.mem_iterPairs, FieldMap.valuesOf_fromIter]
  simp only [List.mem_map, List.mem_filter, List.mem_filterMap, Option.map_eq_some_iff,
    decide_eq_true_eq, Prod.exists, Prod.mk.injEq]
  constructor
  · rintro ⟨k', w', ⟨⟨k0, v, hmem, w0, hw, rfl, rfl⟩, rfl⟩, rfl⟩
    exact ⟨v, hmem, hw⟩
  · rintro ⟨v, hmem, hw⟩
    exact ⟨k, w, ⟨⟨k, v, hmem, w, hw, rfl, rfl⟩, rfl⟩, rfl⟩

/-! ### Credentials in the saved file -/

/-- Every header of the saved file with a credential name is a reference to a listed secret,
whose value is one that was captured under that name. -/
def WritesNoCredential (capture : Capture) (promotion : Promotion) : Prop :=
  ∀ k w, (k, w) ∈ promotion.spec.headers.iterPairs → isCredentialHeader k = true →
    ∃ name value, w = secretRef name ∧ (name, value) ∈ promotion.secrets ∧
      (k, value) ∈ capture.request.headers.iterPairs

/-- The credential names that promotion takes out of the file. -/
def extractedHeaders : List Text :=
  ["authorization".toList, "cookie".toList, "proxy-authorization".toList]

/-- Every captured credential header has one of the three extracted names, or already holds the
text of the secret reference that promotion makes, with an `Authorization` header whose
credential is that same text. -/
def CredentialsExtracted (capture : Capture) : Prop :=
  ∀ k v, (k, v) ∈ capture.request.headers.iterPairs → isCredentialHeader k = true →
    asciiLower k ∈ extractedHeaders ∨
      (v = secretRef (suggestSecretName capture.request.url) ∧
        ∃ a u, (a, u) ∈ capture.request.headers.iterPairs ∧
          asciiLower a = "authorization".toList ∧ authorizationSecret u = v)

/-- A listed secret is the credential of a captured `Authorization` header, under the name that
promotion gives it. -/
theorem mem_secrets {capture : Capture} {name value : Text} :
    (name, value) ∈ (capture.promoteHeaders {}).secrets ↔
      name = suggestSecretName capture.request.url ∧
        ∃ a u, (a, u) ∈ capture.request.headers.iterPairs ∧
          asciiLower a = "authorization".toList ∧ authorizationSecret u = value := by
  rw [promoteHeaders_secrets]
  simp only [List.mem_filterMap, headerSecret, Prod.exists]
  constructor
  · rintro ⟨a, u, hmem, hsecret⟩
    split at hsecret
    · rename_i ha
      cases hsecret
      exact ⟨rfl, a, u, hmem, ha, rfl⟩
    · simp at hsecret
  · rintro ⟨rfl, a, u, hmem, ha, rfl⟩
    exact ⟨a, u, hmem, by rw [if_pos ha]⟩

/-- Whatever the options, a listed secret has the name that its URL suggests. -/
theorem name_of_mem_secrets {capture : Capture} {opts : PromoteOptions} {e : Text × Text}
    (h : e ∈ (capture.promoteHeaders opts).secrets) :
    e.1 = suggestSecretName capture.request.url := by
  -- Every header keeps this of the secrets collected so far.
  have hloop : ∀ (headers : List (Text × Text)) (acc : HeaderLoop),
      (∀ e ∈ acc.secrets, e.1 = suggestSecretName capture.request.url) →
        ∀ e ∈ (headers.foldl (capture.promoteHeader opts) acc).secrets,
          e.1 = suggestSecretName capture.request.url := by
    intro headers
    induction headers with
    | nil => exact fun acc h => h
    | cons header headers ih =>
      intro acc hacc
      have hone : ∀ value, ∀ e ∈ acc.secrets ++ [(suggestSecretName capture.request.url, value)],
          e.1 = suggestSecretName capture.request.url := by
        intro value e he
        rcases List.mem_append.mp he with he | he
        · exact hacc e he
        · rw [List.mem_singleton.mp he]
      rw [List.foldl_cons]
      apply ih
      unfold promoteHeader
      dsimp only
      repeat' split
      all_goals first | exact hacc | exact hone _
  exact hloop _ _ (fun e he => absurd he List.not_mem_nil) e h

/-- A hop-by-hop header with a credential name is `Proxy-Authorization`. -/
theorem extracted_of_hopByHop {k : Text} (hcred : isCredentialHeader k = true)
    (hhop : asciiLower k ∈ hopByHop) : asciiLower k ∈ extractedHeaders := by
  -- The hop-by-hop names hold no white space, so the name is its own trim.
  have hclean : ∀ c ∈ k, isWhitespace c = false := by
    intro c hc
    have hlower : ∀ d ∈ hopByHop.flatten, isWhitespace d = false :=
      forall_mem_of_all (by decide)
    rw [← isWhitespace_toLower]
    exact hlower _ (List.mem_flatten_of_mem hhop (List.mem_map_of_mem hc))
  have hboth : ∀ name ∈ hopByHop, name ∈ credentialHeaders → name ∈ extractedHeaders := by decide
  rw [isCredentialHeader, trim_of_forall hclean] at hcred
  exact hboth _ hhop (by simpa using hcred)

/-- A credential header of another name is written as it was. -/
theorem headerWritten_of_credential {url k v : Text} (hcred : isCredentialHeader k = true)
    (hex : asciiLower k ∉ extractedHeaders) : headerWritten url (k, v) = some v := by
  have hhop : asciiLower k ∉ hopByHop := fun hhop => hex (extracted_of_hopByHop hcred hhop)
  have hnames : asciiLower k ≠ "cookie".toList ∧ asciiLower k ≠ "authorization".toList := by
    constructor <;>
    · intro hk
      exact hex (by rw [hk]; decide)
  simp only [headerWritten, hhop, hnames.1, hnames.2, or_self, if_false]

/-- A promotion with the default options writes no captured credential exactly when every
captured credential header is one it extracts. -/
theorem writesNoCredential_iff (upper : Text → Text) (nowMs : UInt64) (capture : Capture)
    (promotion : Promotion) (h : capture.promote upper nowMs {} = some promotion) :
    WritesNoCredential capture promotion ↔ CredentialsExtracted capture := by
  obtain ⟨base, hspec⟩ := promote_spec h
  unfold WritesNoCredential CredentialsExtracted
  rw [hspec.headers, hspec.secrets]
  constructor
  · intro hsafe k v hmem hcred
    -- An extracted header is fine by itself.
    by_cases hex : asciiLower k ∈ extractedHeaders
    · exact Or.inl hex
    · -- The header is written as it was, so its value must be a listed reference by accident.
      have hwritten : ∀ u, (k, u) ∈ capture.request.headers.iterPairs →
          (k, u) ∈ (capture.promoteHeaders {}).headers.iterPairs := by
        intro u hu
        exact mem_promoteHeaders.mpr ⟨u, hu, headerWritten_of_credential hcred hex⟩
      obtain ⟨name, value, hv, hlisted, hcaptured⟩ := hsafe k v (hwritten v hmem) hcred
      obtain ⟨name', _, hvalue, hlisted', -⟩ := hsafe k value (hwritten value hcaptured) hcred
      obtain ⟨rfl, a, u, hu, ha, hsecret⟩ := mem_secrets.mp hlisted
      obtain ⟨rfl, -⟩ := mem_secrets.mp hlisted'
      -- A written credential is a reference to a secret that was extracted from the capture.
      exact Or.inr ⟨hv, a, u, hu, ha, by rw [hsecret, hvalue, hv]⟩
  · intro hex k w hmem hcred
    obtain ⟨v, hv, hw⟩ := mem_promoteHeaders.mp hmem
    by_cases hk : asciiLower k ∈ extractedHeaders
    · -- Of the three extracted names only `Authorization` is ever written.
      have hauth : asciiLower k = "authorization".toList := by
        by_contra hne
        have hnone : headerWritten capture.request.url (k, v) = none := by
          simp only [extractedHeaders, List.mem_cons, List.not_mem_nil, or_false] at hk
          rcases hk with hk | hk | hk
          · exact absurd hk hne
          · simp only [headerWritten, hk, or_true, if_true]
          · have hhop : "proxy-authorization".toList ∈ hopByHop := by decide
            simp only [headerWritten, hk, hhop, true_or, if_true]
        rw [hnone] at hw
        exact absurd hw (by simp)
      have hhop : "authorization".toList ∉ hopByHop := by decide
      have hcookie : "authorization".toList ≠ "cookie".toList := by decide
      simp only [headerWritten, hauth, hhop, hcookie, or_self, if_false, if_true] at hw
      split at hw
      · simp at hw
      · rename_i hbearer
        cases hw
        exact ⟨_, v, rfl, mem_secrets.mpr ⟨rfl, k, v, hv, hauth, if_neg hbearer⟩, hv⟩
    -- A credential that is not extracted is written as it was.
    · rw [headerWritten_of_credential hcred hk] at hw
      have hvw : v = w := Option.some.inj hw
      rw [← hvw]
      obtain ⟨href, a, u, hu, ha, hsecret⟩ := (hex k v hv hcred).resolve_left hk
      exact ⟨_, v, href, mem_secrets.mpr ⟨rfl, a, u, hu, ha, hsecret⟩, hv⟩

/-- A capture of a request with these headers and nothing else of note. -/
def sampleCapture (url : Text) (headers : List (Text × Text)) : Capture :=
  { id := "cap_1".toList, atMs := 0, durationMs := 0, session := some "work".toList, page := none
    request := { method := "GET".toList, url, httpVersion := [],
                 headers := FieldMap.fromIter headers, body := none }
    response := none }

/-- A captured API key. -/
def apiKeyCapture : Capture :=
  sampleCapture "https://api.test/v1".toList [("X-Api-Key".toList, "k-live-1".toList)]

/-- The API key is written into the file. -/
theorem not_writesNoCredential_apiKey : ∃ promotion,
    apiKeyCapture.promote asciiUpper 0 {} = some promotion ∧
      ¬ WritesNoCredential apiKeyCapture promotion := by
  cases hp : apiKeyCapture.promote asciiUpper 0 {} with
  | none => exact absurd hp (by decide)
  | some promotion =>
    refine ⟨promotion, rfl, ?_⟩
    intro hsafe
    obtain ⟨base, hspec⟩ := promote_spec hp
    have hwritten : ("X-Api-Key".toList, "k-live-1".toList)
        ∈ promotion.spec.headers.iterPairs := by
      rw [hspec.headers, mem_promoteHeaders]
      exact ⟨"k-live-1".toList, by decide, by decide⟩
    obtain ⟨name, value, href, -⟩ := hsafe _ _ hwritten (by decide)
    have hhead : some 'k' = some '{' := congrArg List.head? href
    exact absurd hhead (by decide)

/-- A captured bearer token. -/
def bearerCapture : Capture :=
  sampleCapture "https://api.test/v1".toList [("Authorization".toList, "Bearer tok".toList)]

/-- A bearer token is taken out of the file. -/
theorem writesNoCredential_iff_bearer : ∃ promotion,
    bearerCapture.promote asciiUpper 0 {} = some promotion ∧
      WritesNoCredential bearerCapture promotion := by
  cases hp : bearerCapture.promote asciiUpper 0 {} with
  | none => exact absurd hp (by decide)
  | some promotion =>
    refine ⟨promotion, rfl, (writesNoCredential_iff asciiUpper 0 bearerCapture promotion hp).mpr ?_⟩
    intro k v hmem hcred
    have hall : ∀ h ∈ bearerCapture.request.headers.iterPairs,
        asciiLower h.1 ∈ extractedHeaders := by decide
    exact Or.inl (hall _ hmem)

end Capture

end Gabriel.Core
