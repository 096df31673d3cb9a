import Gabriel.Core.Har

/-!
# `Gabriel.Proofs.HarCookies`: the cookies of an exported exchange

`Cookie` and `Set-Cookie` have two grammars. The pairs of a `Cookie` are its cookies, and of a
`Set-Cookie` the first pair is the cookie and the others are its attributes. The export reads both
with one splitter, which takes every pair whose name is not in a list of attribute names.

`requestCookies` and `responseCookies` are the cookies by the two grammars. The splitter gives the
first exactly when no cookie has the name of an attribute, and the second when, besides, every
attribute is in the list (`AttributesKnown`). A list of parts each of which is a part of the right
one is equal to it only part by part, which gives the converse. The theorems:

* `cookieOfPair_eq`: the splitter takes the pairs with other names.
* `cookiesFromHeader_cookie_iff`: when the pairs of `Cookie` headers are taken.
* `flatMap_eq_iff_of_sublist`: joined lists of parts are equal only when all the parts are.
* `cookiesFromHeader_setCookie_iff`: when each `Set-Cookie` gives its cookie.
* `cookiesExact_iff`: when the cookies of an exported exchange are those of its headers.
-/

set_option autoImplicit false

namespace Gabriel.Core.Har

open Text

/-! ### The two grammars -/

/-- The pair of a piece, when it has a name. -/
def namedPair (piece : Text) : Option Cookie :=
  (splitOnce ['='] piece).bind fun e =>
    if trim e.1 ≠ [] then some ⟨trim e.1, trim e.2⟩ else none

/-- The pairs of a header value. -/
def namedPairs (value : Text) : List Cookie := (value.splitOn ';').filterMap namedPair

/-- The first pair of a header value, when it has a name. -/
def firstPair (value : Text) : Option Cookie := (value.splitOn ';').head?.bind namedPair

/-- The values of a header. -/
def headerTexts (headers : FieldMap) (header : Text) : List Text :=
  (headers.iterPairs.filter fun e => eqIgnoreAsciiCase e.1 header).map (·.2)

/-- The cookies of a request: the pairs of its `Cookie` headers. -/
def requestCookies (headers : FieldMap) : List Cookie :=
  (headerTexts headers "cookie".toList).flatMap namedPairs

/-- The cookies of a response: one for each `Set-Cookie` header that has a name. -/
def responseCookies (headers : FieldMap) : List Cookie :=
  (headerTexts headers "set-cookie".toList).filterMap firstPair

/-! ### The splitter -/

/-- Whether the name of a pair is in the list of attributes. -/
def isAttribute (cookie : Cookie) : Bool := asciiLower cookie.name ∈ cookieAttributes

/-- The splitter takes the pairs with other names. -/
theorem cookieOfPair_eq (piece : Text) :
    cookieOfPair piece = (namedPair piece).filter fun cookie => !isAttribute cookie := by
  unfold cookieOfPair namedPair
  cases splitOnce ['='] piece with
  | none => rfl
  | some e =>
    show (if trim e.1 ≠ [] ∧ asciiLower (trim e.1) ∉ cookieAttributes then some _ else none) = _
    by_cases hname : trim e.1 ≠ []
    · by_cases hattribute : asciiLower (trim e.1) ∈ cookieAttributes
      · rw [if_neg fun h => h.2 hattribute, Option.bind_some, if_pos hname, Option.filter_some,
          if_neg (by simp [isAttribute, hattribute])]
      · rw [if_pos ⟨hname, hattribute⟩, Option.bind_some, if_pos hname, Option.filter_some,
          if_pos (by simp [isAttribute, hattribute])]
    · rw [if_neg fun h => hname h.1, Option.bind_some, if_neg hname]
      rfl

/-- The pairs of a header value that the splitter takes. -/
theorem filterMap_cookieOfPair (pieces : List Text) :
    pieces.filterMap cookieOfPair
      = (pieces.filterMap namedPair).filter fun cookie => !isAttribute cookie := by
  rw [List.filter_filterMap]
  exact congrArg (List.filterMap · pieces) (funext cookieOfPair_eq)

/-- The splitter on the values of a header. -/
theorem cookiesFromHeader_eq (headers : FieldMap) (header : Text) :
    cookiesFromHeader headers header
      = (headerTexts headers header).flatMap fun value =>
        (namedPairs value).filter fun cookie => !isAttribute cookie := by
  unfold cookiesFromHeader headerTexts namedPairs
  rw [List.flatMap_map]
  exact congrArg (List.flatMap · _) (funext fun e => filterMap_cookieOfPair _)

/-! ### Cookies of a request -/

/-- The pairs of `Cookie` headers are taken exactly when none has the name of an attribute. -/
theorem cookiesFromHeader_cookie_iff (headers : FieldMap) :
    cookiesFromHeader headers "cookie".toList = requestCookies headers ↔
      ∀ cookie ∈ requestCookies headers, isAttribute cookie = false := by
  rw [cookiesFromHeader_eq, ← List.filter_flatMap]
  show (requestCookies headers).filter _ = requestCookies headers ↔ _
  rw [List.filter_eq_self]
  exact forall₂_congr fun cookie _ => by rw [Bool.not_eq_true']

/-! ### Cookies of a response -/

/-- Joined lists of parts are equal only when all the parts are. -/
theorem flatMap_eq_iff_of_sublist {α β : Type} {f g : α → List β} {l : List α}
    (h : ∀ a ∈ l, (g a).Sublist (f a)) : l.flatMap f = l.flatMap g ↔ ∀ a ∈ l, f a = g a := by
  induction l with
  | nil => exact iff_of_true rfl fun a ha => absurd ha List.not_mem_nil
  | cons a l ih =>
    obtain ⟨hhead, htail⟩ := List.forall_mem_cons.mp h
    have hrest : (l.flatMap g).Sublist (l.flatMap f) := by
      clear ih h hhead
      induction l with
      | nil => exact List.Sublist.refl _
      | cons b l ih =>
        obtain ⟨hb, hl⟩ := List.forall_mem_cons.mp htail
        exact hb.append (ih hl)
    rw [List.flatMap_cons, List.flatMap_cons, List.forall_mem_cons, ← ih htail]
    constructor
    · intro heq
      -- The parts can only be longer, and are as long together.
      have hlength := congrArg List.length heq
      rw [List.length_append, List.length_append] at hlength
      have hle := hhead.length_le
      have hle' := hrest.length_le
      have hparts := hhead.eq_of_length (by omega)
      rw [hparts] at heq
      exact ⟨hparts.symm, List.append_cancel_left heq⟩
    · rintro ⟨hparts, heq⟩
      rw [hparts, heq]

/-- Every attribute behind the first pair of a `Set-Cookie` is in the list. -/
def AttributesKnown (value : Text) : Prop :=
  ∀ piece ∈ (value.splitOn ';').tail, ∀ pair, namedPair piece = some pair → isAttribute pair = true

/-- The first pair and the others. -/
theorem namedPairs_eq (value : Text) :
    namedPairs value
      = (firstPair value).toList ++ (value.splitOn ';').tail.filterMap namedPair := by
  unfold namedPairs firstPair
  cases hpieces : value.splitOn ';' with
  | nil => exact absurd hpieces (List.splitOn_ne_nil _ _)
  | cons first rest =>
    rw [List.filterMap_cons, List.head?_cons, Option.bind_some, List.tail_cons]
    cases namedPair first with
    | none => rfl
    | some cookie => rfl

/-- What the splitter takes of a `Set-Cookie` whose cookie has no name of the list: the cookie, and
the pairs behind it that are not in the list either. -/
theorem filter_namedPairs {value : Text}
    (h : ∀ cookie, firstPair value = some cookie → isAttribute cookie = false) :
    (namedPairs value).filter (fun cookie => !isAttribute cookie)
      = (firstPair value).toList ++ ((value.splitOn ';').tail.filterMap namedPair).filter
        fun cookie => !isAttribute cookie := by
  rw [namedPairs_eq, List.filter_append]
  congr 1
  refine List.filter_eq_self.mpr fun cookie hcookie => ?_
  rw [h cookie (Option.mem_toList.mp hcookie)]
  rfl

/-- It takes nothing else exactly when the attributes are in the list. -/
theorem filter_namedPairs_eq_iff {value : Text}
    (h : ∀ cookie, firstPair value = some cookie → isAttribute cookie = false) :
    (namedPairs value).filter (fun cookie => !isAttribute cookie) = (firstPair value).toList ↔
      AttributesKnown value := by
  rw [filter_namedPairs h, List.append_right_eq_self, List.filter_eq_nil_iff]
  constructor
  · intro hnone piece hpiece pair hpair
    have hattribute := hnone pair (List.mem_filterMap.mpr ⟨piece, hpiece, hpair⟩)
    simpa using hattribute
  · intro hknown pair hmem
    obtain ⟨piece, hpiece, hpair⟩ := List.mem_filterMap.mp hmem
    simp [hknown piece hpiece pair hpair]

/-- Each `Set-Cookie` gives its cookie exactly when no cookie has the name of an attribute, and
every attribute is in the list. -/
theorem cookiesFromHeader_setCookie_iff (headers : FieldMap) :
    cookiesFromHeader headers "set-cookie".toList = responseCookies headers ↔
      ∀ value ∈ headerTexts headers "set-cookie".toList,
        (∀ cookie, firstPair value = some cookie → isAttribute cookie = false) ∧
          AttributesKnown value := by
  have hfirsts : responseCookies headers
      = (headerTexts headers "set-cookie".toList).flatMap fun value => (firstPair value).toList :=
    List.filterMap_eq_flatMap_toList _ _
  constructor
  · intro heq
    -- The splitter gives no pair with the name of an attribute.
    have hfirst : ∀ value ∈ headerTexts headers "set-cookie".toList,
        ∀ cookie, firstPair value = some cookie → isAttribute cookie = false := by
      intro value hvalue cookie hcookie
      have hmem : cookie ∈ cookiesFromHeader headers "set-cookie".toList := by
        rw [heq]
        exact List.mem_filterMap.mpr ⟨value, hvalue, hcookie⟩
      rw [cookiesFromHeader_eq, ← List.filter_flatMap] at hmem
      simpa using (List.mem_filter.mp hmem).2
    rw [cookiesFromHeader_eq, hfirsts, flatMap_eq_iff_of_sublist] at heq
    · exact fun value hvalue => ⟨hfirst value hvalue,
        (filter_namedPairs_eq_iff (hfirst value hvalue)).mp (heq value hvalue)⟩
    · intro value hvalue
      rw [filter_namedPairs (hfirst value hvalue)]
      exact List.sublist_append_left _ _
  · intro h
    rw [cookiesFromHeader_eq, hfirsts]
    refine List.flatMap_congr fun value hvalue => ?_
    exact (filter_namedPairs_eq_iff (h value hvalue).1).mpr (h value hvalue).2

/-! ### An exported exchange -/

/-- The cookies of an exported exchange are those of its headers. -/
structure CookiesExact (b64Decode : Text → Option (List UInt8)) (capture : Capture) : Prop where
  request : (entryFromCapture b64Decode capture).request.cookies
    = requestCookies capture.request.headers
  response : (entryFromCapture b64Decode capture).response.map (·.cookies)
    = capture.response.map fun response => responseCookies response.headers

/-- **The cookies are exact exactly when** no cookie of the request has the name of an attribute,
and each `Set-Cookie` of the response names its cookie otherwise and has known attributes only. -/
theorem cookiesExact_iff (b64Decode : Text → Option (List UInt8)) (capture : Capture) :
    CookiesExact b64Decode capture ↔
      (∀ cookie ∈ requestCookies capture.request.headers, isAttribute cookie = false) ∧
        ∀ response, capture.response = some response →
          ∀ value ∈ headerTexts response.headers "set-cookie".toList,
            (∀ cookie, firstPair value = some cookie → isAttribute cookie = false) ∧
              AttributesKnown value := by
  -- Without a response there is nothing to compare.
  have hresponse : (entryFromCapture b64Decode capture).response.map (·.cookies)
        = capture.response.map (fun response => responseCookies response.headers) ↔
      ∀ response, capture.response = some response →
        cookiesFromHeader response.headers "set-cookie".toList
          = responseCookies response.headers := by
    show (capture.response.map (responseOf b64Decode capture.request.httpVersion)).map _ = _ ↔ _
    cases capture.response with
    | none => exact iff_of_true rfl fun response h => absurd h.symm (Option.some_ne_none _)
    | some response =>
      rw [Option.map_some, Option.map_some, Option.map_some, Option.some.injEq]
      constructor
      · intro h response' hsame
        rw [← Option.some.inj hsame]
        exact h
      · exact fun h => h response rfl
  -- Both halves of the statement are about one header each.
  have hiff : CookiesExact b64Decode capture ↔
      cookiesFromHeader capture.request.headers "cookie".toList
          = requestCookies capture.request.headers ∧
        ∀ response, capture.response = some response →
          cookiesFromHeader response.headers "set-cookie".toList
            = responseCookies response.headers :=
    ⟨fun h => ⟨h.request, hresponse.mp h.response⟩, fun h => ⟨h.1, hresponse.mpr h.2⟩⟩
  rw [hiff, cookiesFromHeader_cookie_iff]
  exact and_congr_right' (forall₂_congr fun response _ =>
    cookiesFromHeader_setCookie_iff response.headers)

/-- An exchange with a `Cookie` and a `Set-Cookie`. -/
def cookieExchange (cookie setCookie : Text) : Capture :=
  { id := "c1".toList, atMs := 1785283200000, durationMs := 42, session := none, page := none
    request :=
      { method := "GET".toList, url := "https://app.test/".toList, httpVersion := "HTTP/1.1".toList
        headers := .fromIter [("Cookie".toList, cookie)], body := none }
    response := some
      { status := 200, statusText := "OK".toList
        headers := .fromIter [("Set-Cookie".toList, setCookie)], body := none } }

/-- A cookie of the name `path` is left out, and an attribute that is not in the list is taken for
a cookie. -/
theorem not_cookiesExact_path :
    ¬ CookiesExact (fun _ => none)
        (cookieExchange "sid=a; path=home".toList "sid=b; Path=/".toList) ∧
      ¬ CookiesExact (fun _ => none)
        (cookieExchange "sid=a".toList "sid=b; Priority=High".toList) :=
  ⟨fun h => absurd h.request (by decide +kernel), fun h => absurd h.response (by decide +kernel)⟩

end Gabriel.Core.Har
