import Gabriel.Lib.FormUrlencoded

/-!
# `Gabriel.Lib.UrlText`: absolute URLs as texts

An `AbsoluteUrl` is `scheme://authority[/path][?query][#fragment]`, with the characters each
part may not hold as fields. `text` writes it out. The two cuts that programs make, at the
first `?` and at the first `#`, are computed here once, from the characters that the parts hold.

`appendPairs` adds form-encoded pairs to the query and leaves the other parts. A `PairEncoder` is
what it needs of the encoder. The theorems:

* `splitOnce_hash`: the first `#` starts the fragment.
* `splitOnce_query`: the first `?` of the resource starts the query.
* `splitOnce_scheme`, `takeWhile_authority`: the scheme and the authority.
* `text_injective`: a text is at most one URL.
* `queryPairs_appendPairs`: pairs added to a URL without a query are its pairs.
-/

set_option autoImplicit false

open Text

/-- A URL with a scheme and an authority, cut at its delimiters. -/
structure AbsoluteUrl where
  scheme : Text
  authority : Text
  path : Text
  query : Option Text
  fragment : Option Text
  scheme_ok : ∀ c ∈ scheme, c.isAlphanum ∨ c ∈ "+-.".toList
  authority_ok : ∀ c ∈ authority, c ∉ "/?#".toList
  path_head : path = [] ∨ path.head? = some '/'
  path_ok : ∀ c ∈ path, c ∉ "?#".toList
  query_ok : ∀ q ∈ query, '#' ∉ q

/-- An encoder for the pairs of a query: correct as a form encoder, and without `#`. -/
structure PairEncoder where
  encode : Text → Text
  correct : FormUrlencoded.Encoder encode
  noHash : ∀ t, '#' ∉ encode t

namespace AbsoluteUrl

/-- A delimiter and the part after it, when the part is there. -/
def suffixText (delimiter : Char) : Option Text → Text
  | some part => delimiter :: part
  | none => []

/-- Scheme, authority and path. -/
def front (u : AbsoluteUrl) : Text := u.scheme ++ "://".toList ++ u.authority ++ u.path

/-- The URL without its fragment. -/
def resource (u : AbsoluteUrl) : Text := u.front ++ suffixText '?' u.query

/-- The URL written out. -/
def text (u : AbsoluteUrl) : Text := u.resource ++ suffixText '#' u.fragment

/-- The pairs of the query; none without a query. -/
def queryPairs (u : AbsoluteUrl) : List (Text × Text) :=
  (u.query.map FormUrlencoded.parse).getD []

/-- A scheme holds no delimiter. -/
theorem not_mem_scheme (u : AbsoluteUrl) {c : Char} (hc : c ∈ "/?#:".toList) : c ∉ u.scheme := by
  intro hmem
  have hall : ∀ d ∈ "/?#:".toList, d.isAlphanum = false ∧ d ∉ "+-.".toList :=
    forall_mem_of_all (by decide)
  rcases u.scheme_ok c hmem with h | h
  · rw [(hall c hc).1] at h
    exact absurd h (by simp)
  · exact (hall c hc).2 h

/-- The front holds neither `?` nor `#`. -/
theorem not_mem_front (u : AbsoluteUrl) {c : Char} (hc : c ∈ "?#".toList) : c ∉ u.front := by
  have hsub : ∀ d ∈ "?#".toList, d ∈ "/?#:".toList ∧ d ∉ "://".toList ∧ d ∈ "/?#".toList :=
    forall_mem_of_all (by decide)
  obtain ⟨hscheme, hmid, hauth⟩ := hsub c hc
  simp only [front, List.mem_append, not_or]
  exact ⟨⟨⟨u.not_mem_scheme hscheme, hmid⟩, fun h => u.authority_ok c h hauth⟩,
    fun h => u.path_ok c h hc⟩

/-- The resource holds no `#`. -/
theorem hash_not_mem_resource (u : AbsoluteUrl) : '#' ∉ u.resource := by
  rw [resource, List.mem_append, not_or]
  refine ⟨u.not_mem_front (by decide), ?_⟩
  cases hq : u.query with
  | none => simp [suffixText]
  | some q =>
    have hhash := u.query_ok q hq
    simp [suffixText, hhash]

/-- The first `#` starts the fragment. -/
theorem splitOnce_hash (u : AbsoluteUrl) :
    splitOnce ['#'] u.text = u.fragment.map fun f => (u.resource, f) := by
  rw [text]
  cases u.fragment with
  | none =>
    rw [suffixText, List.append_nil]
    exact splitOnce_singleton_eq_none.mpr u.hash_not_mem_resource
  | some f => exact splitOnce_singleton_iff.mpr ⟨rfl, u.hash_not_mem_resource⟩

/-- The first `?` of the resource starts the query. -/
theorem splitOnce_query (u : AbsoluteUrl) :
    splitOnce ['?'] u.resource = u.query.map fun q => (u.front, q) := by
  have hfront : '?' ∉ u.front := u.not_mem_front (by decide)
  rw [resource]
  cases u.query with
  | none =>
    rw [suffixText, List.append_nil]
    exact splitOnce_singleton_eq_none.mpr hfront
  | some q => exact splitOnce_singleton_iff.mpr ⟨rfl, hfront⟩

/-- What follows the scheme. -/
theorem splitOnce_scheme (u : AbsoluteUrl) (rest : Text) :
    splitOnce "://".toList (u.front ++ rest) = some (u.scheme, u.authority ++ u.path ++ rest) := by
  rw [splitOnce_eq_some_iff]
  constructor
  · simp only [front, List.append_assoc]
  · -- A scheme holds no colon, so the delimiter starts nowhere inside it.
    intro p s hps hs hpre
    cases s with
    | nil => exact hs rfl
    | cons c s =>
      have hc : c = ':' := by
        have hhead := hpre.head (by simp)
        simpa using hhead.symm
      have hmem : ':' ∈ u.scheme := by
        rw [hps, hc]
        simp
      exact u.not_mem_scheme (by decide) hmem

/-- The authority is what stands before the path. -/
theorem takeWhile_authority (u : AbsoluteUrl) :
    (u.authority ++ u.path).takeWhile (· ≠ '/') = u.authority ∧
      (u.authority ++ u.path).dropWhile (· ≠ '/') = u.path := by
  have hall : ∀ c ∈ u.authority, (decide (c ≠ '/')) = true := by
    intro c hc
    have hno := u.authority_ok c hc
    simp only [show "/?#".toList = ['/', '?', '#'] from rfl, List.mem_cons, not_or] at hno
    exact decide_eq_true hno.1
  rw [List.takeWhile_append_of_pos hall, List.dropWhile_append_of_pos hall]
  rcases u.path_head with hpath | hpath
  · simp [hpath]
  · cases hp : u.path with
    | nil => simp
    | cons c path =>
      rw [hp] at hpath
      obtain rfl : c = '/' := by simpa using hpath
      simp

/-- A text is at most one URL. -/
theorem text_injective {u v : AbsoluteUrl} (h : u.text = v.text) : u = v := by
  -- The number sign, the question mark and the scheme are each found at their first place.
  have hfrag := congrArg (splitOnce ['#']) h
  rw [splitOnce_hash, splitOnce_hash] at hfrag
  -- Both have a fragment or neither has one.
  have hresource : u.resource = v.resource ∧ u.fragment = v.fragment := by
    cases hu : u.fragment with
    | none =>
      cases hv : v.fragment with
      | none => simpa [text, hu, hv, suffixText] using h
      | some g => simp [hu, hv] at hfrag
    | some f =>
      cases hv : v.fragment with
      | none => simp [hu, hv] at hfrag
      | some g => simpa [hu, hv] using hfrag
  have hquery := congrArg (splitOnce ['?']) hresource.1
  rw [splitOnce_query, splitOnce_query] at hquery
  -- The same for the query.
  have hfront : u.front = v.front ∧ u.query = v.query := by
    cases hu : u.query with
    | none =>
      cases hv : v.query with
      | none => simpa [resource, hu, hv, suffixText] using hresource.1
      | some g => simp [hu, hv] at hquery
    | some f =>
      cases hv : v.query with
      | none => simp [hu, hv] at hquery
      | some g => simpa [hu, hv] using hquery
  have hscheme := congrArg (splitOnce "://".toList) hfront.1
  have hu := u.splitOnce_scheme []
  have hv := v.splitOnce_scheme []
  simp only [List.append_nil] at hu hv
  rw [hu, hv, Option.some.injEq, Prod.mk.injEq] at hscheme
  -- The authority ends at the first slash, and the path is what follows.
  have hauth : u.authority = v.authority := by
    rw [← u.takeWhile_authority.1, ← v.takeWhile_authority.1, hscheme.2]
  have hpath : u.path = v.path := by
    rw [← u.takeWhile_authority.2, ← v.takeWhile_authority.2, hscheme.2]
  cases u
  cases v
  simp only [mk.injEq]
  exact ⟨hscheme.1, hauth, hpath, hfront.2, hresource.2⟩

/-! ### Adding pairs to the query -/

/-- The query after adding pairs: nothing changes without a pair, and a nonempty query gets a
separator. -/
def extendQuery (encode : Text → Text) (query : Option Text) (pairs : List (Text × Text)) :
    Option Text :=
  if pairs = [] then query
  else match query with
    | none => some (FormUrlencoded.serialize encode pairs)
    | some [] => some (FormUrlencoded.serialize encode pairs)
    | some q => some (q ++ '&' :: FormUrlencoded.serialize encode pairs)

/-- Written pairs hold no `#`. -/
theorem hash_not_mem_serialize (enc : PairEncoder) (pairs : List (Text × Text)) :
    '#' ∉ FormUrlencoded.serialize enc.encode pairs := by
  have hpair : ∀ pair, '#' ∉ FormUrlencoded.writePair enc.encode pair := by
    intro pair
    simp [FormUrlencoded.writePair, enc.noHash]
  unfold FormUrlencoded.serialize
  induction pairs with
  | nil => simp
  | cons pair pairs ih =>
    cases pairs with
    | nil => simpa using hpair pair
    | cons pair' pairs =>
      rw [List.map_cons, List.map_cons, List.intercalate_cons_cons, List.mem_append,
        List.mem_append]
      rw [List.map_cons] at ih
      simp [hpair pair, ih]

/-- Add form-encoded pairs to the query. -/
def appendPairs (enc : PairEncoder) (u : AbsoluteUrl) (pairs : List (Text × Text)) : AbsoluteUrl :=
  { u with
    query := extendQuery enc.encode u.query pairs
    query_ok := by
      intro q hq
      have hnew := hash_not_mem_serialize enc pairs
      unfold extendQuery at hq
      split at hq
      · exact u.query_ok q hq
      · split at hq
        · obtain rfl := Option.some.inj hq
          exact hnew
        · obtain rfl := Option.some.inj hq
          exact hnew
        · rename_i q' _ hq'
          obtain rfl := Option.some.inj hq
          have hold := u.query_ok q' hq'
          simp [hold, hnew] }

/-- Pairs added to a URL without a query are its pairs. -/
theorem queryPairs_appendPairs (enc : PairEncoder) {u : AbsoluteUrl} (h : u.query = none)
    (pairs : List (Text × Text)) : (u.appendPairs enc pairs).queryPairs = pairs := by
  show ((extendQuery enc.encode u.query pairs).map FormUrlencoded.parse).getD [] = pairs
  rw [h, extendQuery]
  split
  · rename_i hnil
    rw [hnil]
    rfl
  · exact enc.correct.parse_serialize pairs

end AbsoluteUrl
