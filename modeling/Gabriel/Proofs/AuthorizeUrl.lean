import Gabriel.Proofs.Callback
import Gabriel.Proofs.Decoders

/-!
# `Gabriel.Proofs.AuthorizeUrl`: the parameters of the authorization URL

What `build_authorize_url` adds stands behind the query that the URL has of its own, and of two
parameters with one name `parse_query` takes the later one. So every added parameter is found with
its value, whatever is in front. The text in front only has to be one that `urldecode` does not
panic on, which every ASCII text is.

A query is read as a list of raw pairs, which are then decoded. The raw pairs of two queries put
together are those of both, and each added parameter is one pair, since the encoder writes no
separator. The theorems:

* `rawParams_append`: the raw pairs of two queries with an `&` between them.
* `rawParams_added`: the raw pairs of what the URL adds.
* `decodeParam_added`: every added parameter is decoded to itself.
* `parseQuery_buildAuthorizeUrl`: `parse_query` finds every added parameter behind any ASCII query.
* `encoding_inverse`: each encoder is read back by its decoder, over every text.
-/

set_option autoImplicit false

namespace Gabriel.Engine

open Gabriel.Core Text

/-! ### Queries -/

/-- The pairs of two queries put together. -/
theorem rawParams_append (query rest : Text) :
    rawParams (query ++ '&' :: rest) = rawParams query ++ rawParams rest := by
  unfold rawParams
  rw [List.splitOn_append_cons_self, List.filter_append, List.filterMap_append]

/-- The characters of a pair stand in its query. -/
theorem mem_of_mem_rawParams {query : Text} {pair : Text × Text} (h : pair ∈ rawParams query)
    {x : Char} (hx : x ∈ pair.1 ∨ x ∈ pair.2) : x ∈ query := by
  obtain ⟨piece, hpiece, hsplit⟩ := List.mem_filterMap.mp h
  have hmem : x ∈ piece → x ∈ query := mem_of_mem_splitOn (List.mem_of_mem_filter hpiece)
  have heq := eq_of_splitOnce hsplit
  refine hmem ?_
  rw [heq]
  rcases hx with hx | hx
  · exact List.mem_append_left _ (List.mem_append_left _ hx)
  · exact List.mem_append_right _ hx

/-- Every pair of an ASCII query can be decoded. -/
theorem decodes_of_ascii {query : Text} (h : ∀ c ∈ query, c.toNat < 0x80) :
    ∀ pair ∈ rawParams query, Decodes pair.1 ∧ Decodes pair.2 := by
  have hbytes : ∀ t : Text, (∀ c ∈ t, c.toNat < 0x80) → Decodes t := by
    intro t ht
    refine everyEscape_onBoundary_of_ascii ?_
    intro b hb
    obtain ⟨c, hc, hb⟩ := List.mem_flatMap.mp hb
    have hascii := ht c hc
    rw [Utf8.utf8EncodeChar_of_lt hascii, List.mem_singleton] at hb
    rw [hb]
    simpa [Nat.mod_eq_of_lt (show c.toNat < 256 by omega)] using hascii
  intro pair hpair
  exact ⟨hbytes _ fun c hc => h c (mem_of_mem_rawParams hpair (Or.inl hc)),
    hbytes _ fun c hc => h c (mem_of_mem_rawParams hpair (Or.inr hc))⟩

/-! ### The added parameters -/

namespace Oauth

/-- The names of the parameters that the URL adds. -/
def paramNames : List Text :=
  ["response_type".toList, "client_id".toList, "redirect_uri".toList, "state".toList,
    "code_challenge".toList, "code_challenge_method".toList, "scope".toList, "audience".toList]

/-- A name has no separator and decodes to itself. -/
theorem paramNames_plain : ∀ name ∈ paramNames,
    '&' ∉ name ∧ '=' ∉ name ∧ percentDecode name = some name := by
  decide +kernel

section Params

variable (config : OAuth2) (redirectUri : Text) (pkce : Pkce) (state : Text)

/-- The names of the parameters are these, some of the last two left out. -/
theorem names_sublist :
    ((authorizeParams config redirectUri pkce state).map (·.1)).Sublist paramNames := by
  unfold authorizeParams paramNames
  rw [List.map_append, List.map_append, List.append_assoc]
  refine List.Sublist.append (List.Sublist.refl _) ?_
  show List.Sublist _ (["scope".toList] ++ ["audience".toList])
  refine List.Sublist.append ?_ ?_
  · cases config.scope with
    | none => exact List.nil_sublist _
    | some scope => exact List.Sublist.refl _
  · cases config.audience with
    | none => exact List.nil_sublist _
    | some audience => exact List.Sublist.refl _

/-- No two parameters have one name. -/
theorem names_nodup : ((authorizeParams config redirectUri pkce state).map (·.1)).Nodup :=
  (names_sublist config redirectUri pkce state).nodup (by decide +kernel)

variable {config redirectUri pkce state} {param : Text × Text}

/-- The names of the parameters need no escaping. -/
theorem plain_of_mem (h : param ∈ authorizeParams config redirectUri pkce state) :
    '&' ∉ param.1 ∧ '=' ∉ param.1 ∧ percentDecode param.1 = some param.1 :=
  paramNames_plain _ ((names_sublist config redirectUri pkce state).subset
    (List.mem_map_of_mem h))

/-- The encoder writes no separator between parameters. -/
theorem not_mem_urlencode (t : Text) : '&' ∉ urlencode t := by
  intro hmem
  obtain ⟨b, -, hb⟩ := List.mem_flatMap.mp hmem
  by_cases hspace : b = 0x20
  · rw [hspace] at hb
    exact absurd hb (by decide)
  · -- The two encoders differ in the space only.
    have hsame : urlencodeByte b = Engine.urlencodeByte b := by
      unfold urlencodeByte Engine.urlencodeByte
      rw [if_neg hspace]
    rw [hsame] at hb
    exact (separators_urlencodeByte hb).1 rfl

/-- The text of a parameter is a piece of its own, cut at the `=` that was written. -/
theorem paramText_piece (h : param ∈ authorizeParams config redirectUri pkce state) :
    '&' ∉ paramText param ∧ paramText param ≠ [] ∧
      splitOnce ['='] (paramText param) = some (param.1, urlencode param.2) := by
  obtain ⟨hamp, heq, -⟩ := plain_of_mem h
  refine ⟨?_, List.append_ne_nil_of_right_ne_nil _ (List.cons_ne_nil _ _),
    splitOnce_singleton_iff.mpr ⟨rfl, heq⟩⟩
  intro hmem
  rcases List.mem_append.mp hmem with hmem | hmem
  · exact hamp hmem
  · rcases List.mem_cons.mp hmem with hmem | hmem
    · exact absurd hmem (by decide)
    · exact not_mem_urlencode _ hmem

variable (config redirectUri pkce state)

/-- The pairs of what the URL adds. -/
theorem rawParams_added :
    rawParams (List.intercalate ['&']
        ((authorizeParams config redirectUri pkce state).map paramText))
      = (authorizeParams config redirectUri pkce state).map fun param =>
        (param.1, urlencode param.2) := by
  have hpiece : ∀ l ∈ (authorizeParams config redirectUri pkce state).map paramText,
      '&' ∉ l ∧ l ≠ [] := by
    intro l hl
    obtain ⟨param, hparam, rfl⟩ := List.mem_map.mp hl
    exact ⟨(paramText_piece hparam).1, (paramText_piece hparam).2.1⟩
  unfold rawParams
  rw [List.splitOn_intercalate _ (fun l hl => (hpiece l hl).1) (List.cons_ne_nil _ _),
    List.filter_eq_self.mpr fun l hl => decide_eq_true (hpiece l hl).2, List.filterMap_map]
  rw [← List.filterMap_eq_map]
  exact List.filterMap_congr fun param hparam => (paramText_piece hparam).2.2

/-- Every added parameter is decoded to itself. -/
theorem decodeParam_added (h : param ∈ authorizeParams config redirectUri pkce state) :
    decodeParam (param.1, urlencode param.2) = some param := by
  have hname : urldecode param.1 = some param.1 := (plain_of_mem h).2.2
  unfold decodeParam
  rw [hname, urldecode_urlencode]
  rfl

/-- A key that stands once is bound to its value, behind any entries. -/
theorem get?_ofList_append {front entries : List (Text × Text)} (h : (entries.map (·.1)).Nodup)
    {entry : Text × Text} (hmem : entry ∈ entries) :
    (SortedMap.ofList (front ++ entries)).get? entry.1 = some entry.2 := by
  have hsplit : SortedMap.ofList (front ++ entries) = (SortedMap.ofList front).insertAll entries :=
    List.foldl_append
  have hbound : (SortedMap.ofList entries).get? entry.1 = some entry.2 := by
    cases hget : (SortedMap.ofList entries).get? entry.1 with
    | none =>
      exact absurd (List.mem_map_of_mem hmem) (SortedMap.get?_ofList_eq_none_iff.mp hget)
    | some value =>
      have hpair := SortedMap.mem_of_get?_ofList hget
      rw [← List.inj_on_of_nodup_map h hpair hmem rfl]
  rw [hsplit, SortedMap.get?_insertAll, hbound]
  rfl

/-- **`parse_query` finds every added parameter**, behind any ASCII query. -/
theorem parseQuery_buildAuthorizeUrl {authorizeUrl : Text}
    (hascii : ∀ c ∈ authorizeUrl, c.toNat < 0x80) :
    ∃ base query params,
      splitOnce ['?'] (buildAuthorizeUrl authorizeUrl config redirectUri pkce state)
        = some (base, query) ∧ parseQuery query = some params ∧
      ∀ param ∈ authorizeParams config redirectUri pkce state,
        params.get? param.1 = some param.2 := by
  -- What was encoded is decoded without an error, and comes back as it was.
  have hadded : ∀ pair ∈ (authorizeParams config redirectUri pkce state).map
      (fun param => (param.1, urlencode param.2)), Decodes pair.1 ∧ Decodes pair.2 := by
    intro pair hpair
    obtain ⟨param, hparam, rfl⟩ := List.mem_map.mp hpair
    rw [← isSome_decodeParam, decodeParam_added config redirectUri pkce state hparam]
    rfl
  have hdecoded : ((authorizeParams config redirectUri pkce state).map
        fun param => (param.1, urlencode param.2)).filterMap decodeParam
      = authorizeParams config redirectUri pkce state := by
    rw [List.filterMap_map]
    conv_rhs => rw [← List.map_id (authorizeParams config redirectUri pkce state)]
    rw [← List.filterMap_eq_map]
    exact List.filterMap_congr fun param hparam =>
      decodeParam_added config redirectUri pkce state hparam
  unfold buildAuthorizeUrl
  dsimp only
  by_cases hmark : '?' ∈ authorizeUrl
  · -- The URL has a query of its own, and the parameters stand behind it.
    have hsome : (splitOnce ['?'] authorizeUrl).isSome = true := by
      rw [splitOnce_isSome_iff, List.singleton_infix_iff]
      exact hmark
    obtain ⟨⟨base, own⟩, hsplit⟩ := Option.isSome_iff_exists.mp hsome
    obtain ⟨heq, hbase⟩ := splitOnce_singleton_iff.mp hsplit
    rw [if_pos hmark]
    refine ⟨base, own ++ '&' :: List.intercalate ['&']
      ((authorizeParams config redirectUri pkce state).map paramText), _, ?_, parseQuery_eq ?_, ?_⟩
    · rw [splitOnce_singleton_iff]
      refine ⟨?_, hbase⟩
      rw [heq, List.append_assoc, List.cons_append]
    · rw [rawParams_append, rawParams_added]
      intro pair hpair
      rcases List.mem_append.mp hpair with hpair | hpair
      · refine decodes_of_ascii (fun c hc => hascii c ?_) pair hpair
        rw [heq]
        exact List.mem_append_right _ (List.mem_cons_of_mem _ hc)
      · exact hadded pair hpair
    · intro param hparam
      rw [rawParams_append, rawParams_added, List.filterMap_append, hdecoded]
      exact get?_ofList_append (names_nodup config redirectUri pkce state) hparam
  -- The URL has no query, so the parameters are all of it.
  · rw [if_neg hmark]
    refine ⟨authorizeUrl, List.intercalate ['&']
      ((authorizeParams config redirectUri pkce state).map paramText), _,
      splitOnce_singleton_iff.mpr ⟨rfl, hmark⟩, parseQuery_eq ?_, ?_⟩
    · rw [rawParams_added]
      exact hadded
    · intro param hparam
      rw [rawParams_added, hdecoded, ← List.nil_append (authorizeParams _ _ _ _)]
      exact get?_ofList_append (names_nodup config redirectUri pkce state) hparam

end Params

/-- **Encoding and decoding are inverse.** Each encoder is read back by its decoder, and
`parse_query` finds in the authorization URL every parameter that was added, with its value,
whatever query the URL had of its own. -/
theorem encoding_inverse :
    (∀ t, percentDecode (Engine.urlencode t) = some t) ∧
    (∀ t, urldecode (urlencode t) = some t) ∧
    ∀ authorizeUrl : Text, (∀ c ∈ authorizeUrl, c.toNat < 0x80) →
      ∀ config redirectUri pkce state, ∃ base query params,
        splitOnce ['?'] (buildAuthorizeUrl authorizeUrl config redirectUri pkce state)
          = some (base, query) ∧ parseQuery query = some params ∧
        ∀ param ∈ authorizeParams config redirectUri pkce state,
          params.get? param.1 = some param.2 := by
  refine ⟨percentDecode_urlencode, urldecode_urlencode, ?_⟩
  intro authorizeUrl hascii config redirectUri pkce state
  exact parseQuery_buildAuthorizeUrl config redirectUri pkce state hascii

/-- A provider for the example below. -/
def exampleConfig : OAuth2 :=
  { grant := .authorizationCode, tokenUrl := [], authorizeUrl := none, redirectUri := none,
    clientId := "a&b".toList, clientSecret := none, scope := some "openid é".toList,
    audience := none, credentialsInBody := false }

/-- A URL with a query that has one of the names already. -/
theorem encoding_inverse_query : ∃ base query params,
    splitOnce ['?'] (buildAuthorizeUrl "https://a.test/?client_id=x".toList exampleConfig
      "http://127.0.0.1/cb".toList ⟨[], "c+".toList⟩ "s=1".toList) = some (base, query) ∧
    parseQuery query = some params ∧
    ∀ param ∈ authorizeParams exampleConfig "http://127.0.0.1/cb".toList ⟨[], "c+".toList⟩
      "s=1".toList, params.get? param.1 = some param.2 :=
  encoding_inverse.2.2 "https://a.test/?client_id=x".toList (forall_mem_of_all (by decide))
    exampleConfig "http://127.0.0.1/cb".toList ⟨[], "c+".toList⟩ "s=1".toList

end Oauth

end Gabriel.Engine
