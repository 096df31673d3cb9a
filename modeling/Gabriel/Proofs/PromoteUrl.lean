import Gabriel.Lib.UrlText
import Gabriel.Proofs.PromoteBody

/-!
# `Gabriel.Proofs.PromoteUrl`: does a promoted request reach the captured URL?

`preservesUrl_iff` says exactly when a promoted request, replayed with `base_url` bound to the
captured origin, goes to the captured URL: the same scheme, authority, path and fragment, and
for each name of the query the same values in the same order.

The split is right except for a `?` in the fragment of a URL without a query, where
`split_query` starts a query. The rest of the condition is about the query: promotion's decoder must
agree with the standard one on its pieces, and no decoded text may hold a `{{`.

For the other direction one resolver must break a bad query. It binds `base_url` and nothing
else. The number of pairs shows that no two keys became one, the slashes that no reference was
to `base_url`, the braces that there was no reference, and the length that the decoders agree.
The theorems:

* `splitQuery_text`: `split_query` on a written URL.
* `promote_url`: the URL and the variable of a promotion.
* `resolve_promotedUrl`: the promoted URL resolves to what is left of the captured one.
* `decodePairs_queryKept`, `queryKept_of_perm`: a query survives exactly when it comes back.
* `preservesUrl_onlyVar`: what one resolver says about all.
* `preservesUrl_iff`: for every captured URL without a template, and every resolver.
-/

set_option autoImplicit false

namespace Gabriel.Engine

open Gabriel.Core Text Fallible FormUrlencoded

/-- The name of the variable for the origin. -/
def baseUrl : Text := "base_url".toList

/-- Two URLs that differ at most in how the names of the query interleave. -/
structure SameTarget (u v : AbsoluteUrl) : Prop where
  scheme : v.scheme = u.scheme
  authority : v.authority = u.authority
  path : v.path = u.path
  fragment : v.fragment = u.fragment
  query : ∀ name, (v.queryPairs.filter (·.1 = name)).map (·.2)
    = (u.queryPairs.filter (·.1 = name)).map (·.2)

/-- The capture is promoted, and every resolver that binds the variable to the origin makes the
captured URL of the promoted one and its query. -/
def PreservesUrl (upper : Text → Text) (nowMs : UInt64) (opts : PromoteOptions) (enc : PairEncoder)
    (capture : Capture) (u : AbsoluteUrl) : Prop :=
  ∃ promotion, capture.promote upper nowMs opts = some promotion ∧
    ∃ origin, promotion.vars = [(baseUrl, origin)] ∧
      ∀ (world : World) (r : Resolver), r.vars.get? baseUrl = some origin →
        ∃ (w : AbsoluteUrl) (query : FieldMap) (s s' : Resolver),
          exec (Resolver.resolve world promotion.spec.url) r = (.ok w.text, s) ∧
          exec (Resolver.resolveMap world promotion.spec.query) s = (.ok query, s') ∧
          SameTarget u (w.appendPairs enc query.iterPairs)

/-- A query survives the decoder and the resolver: no escape is cut inside a character or has a
sign, and nothing is a template. -/
def QueryKept (query : Text) : Prop :=
  (pieces query).all (pieceHolds onBoundary) = true ∧
    (pieces query).all (pieceHolds unsigned) = true ∧ ∀ pair ∈ parse query, PairClean pair

/-- The condition on the URL: a `?` starts its query, and the query survives. -/
def UrlKept (u : AbsoluteUrl) : Prop :=
  (u.query = none → ∀ f ∈ u.fragment, '?' ∉ f) ∧ ∀ q ∈ u.query, QueryKept q

/-- The captured body can be decoded: no escape of a form is cut inside a character. -/
def BodyDecodes (capture : Capture) : Prop :=
  ∀ content, capture.request.body = some (.text content) →
    isFormType capture.contentType = true →
    (pieces content).all (pieceHolds onBoundary) = true

/-! ### Splitting the URL -/

/-- What `split_query` leaves of a fragment: without a query it cuts one out of the fragment. -/
def keptFragment (u : AbsoluteUrl) : Option Text :=
  match u.query with
  | some _ => u.fragment
  | none => u.fragment.map fun f =>
    match splitOnce ['?'] f with
    | none => f
    | some (a, b) => joinFragment a (splitFragment b).2

/-- The text that `split_query` takes for the query. -/
def cutQuery (u : AbsoluteUrl) : Text :=
  match u.query with
  | some q => q
  | none => ((u.fragment.bind (splitOnce ['?'])).map fun cut => (splitFragment cut.2).1).getD []

/-- The URL that `split_query` leaves. -/
def baseOf (u : AbsoluteUrl) : AbsoluteUrl :=
  { u with query := none, fragment := keptFragment u, query_ok := by simp }

/-- Putting a fragment back is writing it. -/
theorem joinFragment_eq (base : Text) (fragment : Option Text) :
    joinFragment base fragment = base ++ AbsoluteUrl.suffixText '#' fragment := by
  cases fragment with
  | none => simp [joinFragment, AbsoluteUrl.suffixText]
  | some f => rfl

/-- `split_query` on a written URL. -/
theorem splitQuery_text (u : AbsoluteUrl) :
    splitQuery u.text = ((pieces (cutQuery u)).mapM decodePair).map fun pairs =>
      ((baseOf u).text, FieldMap.fromIter pairs) := by
  have hfront : '?' ∉ u.front := u.not_mem_front (by decide)
  have hbase : (baseOf u).text = u.front ++ AbsoluteUrl.suffixText '#' (keptFragment u) := by
    show (u.front ++ []) ++ AbsoluteUrl.suffixText '#' (keptFragment u) = _
    rw [List.append_nil]
  unfold splitQuery
  -- With a query the first question mark is its own.
  cases hq : u.query with
  | some q =>
    have hcut : splitOnce ['?'] u.text
        = some (u.front, q ++ AbsoluteUrl.suffixText '#' u.fragment) := by
      rw [splitOnce_singleton_iff]
      refine ⟨?_, hfront⟩
      rw [AbsoluteUrl.text, AbsoluteUrl.resource, hq, AbsoluteUrl.suffixText]
      simp
    have hhash : '#' ∉ q := u.query_ok q hq
    -- What follows it is cut at the number sign, if there is one.
    have hfragment : splitFragment (q ++ AbsoluteUrl.suffixText '#' u.fragment)
        = (q, u.fragment) := by
      unfold splitFragment
      cases u.fragment with
      | none =>
        rw [AbsoluteUrl.suffixText, List.append_nil, splitOnce_singleton_eq_none.mpr hhash]
      | some f => rw [AbsoluteUrl.suffixText, splitOnce_singleton_iff.mpr ⟨rfl, hhash⟩]
    have hkept : keptFragment u = u.fragment := by rw [keptFragment, hq]
    have hquery : cutQuery u = q := by rw [cutQuery, hq]
    rw [hcut]
    dsimp only
    rw [hfragment, hquery, hbase, hkept]
    dsimp only
    rw [joinFragment_eq]
    rfl
  | none =>
    have htext : u.text = u.front ++ AbsoluteUrl.suffixText '#' u.fragment := by
      rw [AbsoluteUrl.text, AbsoluteUrl.resource, hq, AbsoluteUrl.suffixText, List.append_nil]
    -- Without a query a question mark can only be in the fragment.
    cases hf : u.fragment with
    | none =>
      have hnone : splitOnce ['?'] u.text = none := by
        rw [splitOnce_singleton_eq_none, htext, hf, AbsoluteUrl.suffixText, List.append_nil]
        exact hfront
      have hkept : keptFragment u = none := by rw [keptFragment, hq, hf]; rfl
      have hquery : cutQuery u = [] := by rw [cutQuery, hq, hf]; rfl
      rw [hnone, hquery, hbase, hkept, htext, hf]
      rfl
    | some f =>
      -- It is not there either, so nothing is cut.
      cases hcut : splitOnce ['?'] f with
      | none =>
        have hmark : '?' ∉ f := splitOnce_singleton_eq_none.mp hcut
        have hnone : splitOnce ['?'] u.text = none := by
          rw [splitOnce_singleton_eq_none, htext, hf, AbsoluteUrl.suffixText]
          simp [hfront, hmark]
        have hkept : keptFragment u = some f := by
          rw [keptFragment, hq, hf]
          simp [hcut]
        have hquery : cutQuery u = [] := by
          rw [cutQuery, hq, hf]
          simp [hcut]
        rw [hnone, hquery, hbase, hkept, htext, hf]
        rfl
      -- The fragment is cut at its question mark, and the rest of it is read as a query.
      | some cut =>
        obtain ⟨a, b⟩ := cut
        obtain ⟨rfl, hmark⟩ := splitOnce_singleton_iff.mp hcut
        have hsome : splitOnce ['?'] u.text = some (u.front ++ '#' :: a, b) := by
          rw [splitOnce_singleton_iff, htext, hf, AbsoluteUrl.suffixText]
          constructor
          · simp
          · simp [hfront, hmark]
        have hkept : keptFragment u = some (joinFragment a (splitFragment b).2) := by
          rw [keptFragment, hq, hf]
          simp [hcut]
        have hquery : cutQuery u = (splitFragment b).1 := by
          rw [cutQuery, hq, hf]
          simp [hcut]
        rw [hsome, hquery, hbase, hkept]
        dsimp only
        rw [joinFragment_eq, joinFragment_eq, List.append_assoc]
        rfl

/-- What is left of a URL without a template holds no template. -/
theorem baseOf_clean {u : AbsoluteUrl} (h : ¬ Resolver.opening <:+: u.text) :
    ¬ Resolver.opening <:+: (baseOf u).text := by
  have hhash : '#' ∉ Resolver.opening := by decide
  have hmark : '?' ∉ Resolver.opening := by decide
  have hempty : ¬ Resolver.opening <:+: [] := by decide
  have hfront : ¬ Resolver.opening <:+: u.front := by
    intro hdirty
    refine h (hdirty.trans ?_)
    rw [AbsoluteUrl.text, AbsoluteUrl.resource, List.append_assoc]
    exact List.infix_append_left
  have hfragment : ∀ f ∈ u.fragment, ¬ Resolver.opening <:+: f := by
    intro f hf hdirty
    refine h (hdirty.trans ?_)
    rw [AbsoluteUrl.text, Option.mem_def.mp hf, AbsoluteUrl.suffixText]
    exact ((List.suffix_cons '#' f).trans (List.suffix_append _ _)).isInfix
  -- Of the fragment two parts stay, on both sides of a mark.
  have hkept : ∀ f ∈ keptFragment u, ¬ Resolver.opening <:+: f := by
    intro f hf
    unfold keptFragment at hf
    split at hf
    · exact hfragment f hf
    · obtain ⟨g, hg, rfl⟩ := Option.map_eq_some_iff.mp hf
      have hclean := hfragment g hg
      split
      · exact hclean
      · rename_i a b hcut
        obtain ⟨rfl, -⟩ := splitOnce_singleton_iff.mp hcut
        rw [infix_append_cons_iff hmark, not_or] at hclean
        unfold splitFragment
        cases hcut' : splitOnce ['#'] b with
        | none => exact hclean.1
        | some cut =>
          obtain ⟨q, g'⟩ := cut
          obtain ⟨rfl, -⟩ := splitOnce_singleton_iff.mp hcut'
          rw [infix_append_cons_iff hhash, not_or] at hclean
          rw [joinFragment, infix_append_cons_iff hhash, not_or]
          exact ⟨hclean.1, hclean.2.2⟩
  show ¬ Resolver.opening <:+: (u.front ++ []) ++ AbsoluteUrl.suffixText '#' (keptFragment u)
  rw [List.append_nil]
  cases hf : keptFragment u with
  | none =>
    rw [AbsoluteUrl.suffixText, List.append_nil]
    exact hfront
  | some f =>
    rw [AbsoluteUrl.suffixText, infix_append_cons_iff hhash, not_or]
    exact ⟨hfront, hkept f hf⟩

/-- The origin and the path put the URL back together, and the origin holds a slash. -/
theorem splitOrigin_text (v : AbsoluteUrl) :
    ∃ origin path, splitOrigin v.text = some (origin, path) ∧ origin ++ path = v.text ∧
      '/' ∈ origin := by
  have htext : v.text = v.front ++ (AbsoluteUrl.suffixText '?' v.query
      ++ AbsoluteUrl.suffixText '#' v.fragment) := by
    rw [AbsoluteUrl.text, AbsoluteUrl.resource, List.append_assoc]
  have hcut := v.splitOnce_scheme (AbsoluteUrl.suffixText '?' v.query
    ++ AbsoluteUrl.suffixText '#' v.fragment)
  rw [← htext] at hcut
  refine ⟨_, _, by rw [splitOrigin, hcut]; rfl, ?_, ?_⟩
  · rw [List.append_assoc, List.takeWhile_append_dropWhile]
    exact (eq_of_splitOnce hcut).symm
  · rw [List.mem_append, List.mem_append]
    exact Or.inl (Or.inr (by decide))

/-- The URL and the variable of a promotion. -/
theorem promote_url {upper : Text → Text} {nowMs : UInt64} {opts : PromoteOptions}
    {capture : Capture} {u : AbsoluteUrl} {promotion : Promotion}
    (hurl : capture.request.url = u.text) (hopts : opts.baseUrlVar = some baseUrl)
    (h : capture.promote upper nowMs opts = some promotion) :
    ∃ origin path pairs, promotion.vars = [(baseUrl, origin)] ∧
      promotion.spec.url = templateRef baseUrl ++ path ∧ origin ++ path = (baseOf u).text ∧
      '/' ∈ origin ∧ (pieces (cutQuery u)).mapM decodePair = some pairs ∧
      promotion.spec.query = FieldMap.fromIter pairs := by
  obtain ⟨base, hspec⟩ := Capture.promote_spec h
  have hsplit := hspec.splitQuery
  rw [hurl, splitQuery_text] at hsplit
  obtain ⟨pairs, hpairs, hcut⟩ := Option.map_eq_some_iff.mp hsplit
  obtain ⟨rfl, hquery⟩ := Prod.mk.inj hcut
  obtain ⟨origin, path, horigin, hjoin, hslash⟩ := splitOrigin_text (baseOf u)
  have hmade := hspec.url
  rw [Capture.promoteUrl, hopts, horigin] at hmade
  obtain ⟨hurl', hvars⟩ := Prod.mk.inj hmade
  exact ⟨origin, path, pairs, hvars, hurl', hjoin, hslash, hpairs, hquery.symm⟩

/-- The promoted URL resolves to what is left of the captured one. -/
theorem resolve_promotedUrl {world : World} {origin path : Text} {v : AbsoluteUrl} {r : Resolver}
    (hclean : ¬ Resolver.opening <:+: v.text) (hjoin : origin ++ path = v.text)
    (hget : r.vars.get? baseUrl = some origin) :
    exec (Resolver.resolve world (templateRef baseUrl ++ path)) r
      = (.ok v.text, r.noteLookup baseUrl) := by
  have horigin : ¬ Resolver.opening <:+: origin := fun h =>
    hclean (h.trans (hjoin ▸ List.infix_append_left))
  have hpath : ¬ Resolver.opening <:+: path := fun h =>
    hclean (h.trans (hjoin ▸ List.infix_append_right))
  have hvar : Resolver.IsVariableName (trim baseUrl) := by decide
  have hparse : Template.parse Resolver.opening Resolver.closing (templateRef baseUrl ++ path)
      = ⟨[([], baseUrl)], path, true⟩ :=
    Resolver.parse_reference (by decide) (by decide) hpath
  rw [← hjoin]
  exact Resolver.resolve_reference hparse hvar horigin hget

/-- A fragment that stayed whole, without a query, held no mark. -/
theorem not_mark_of_keptFragment {u : AbsoluteUrl} (hq : u.query = none)
    (h : keptFragment u = u.fragment) : ∀ f ∈ u.fragment, '?' ∉ f := by
  intro f hf hmark
  rw [keptFragment, hq, Option.mem_def.mp hf] at h
  cases hcut : splitOnce ['?'] f with
  | none => exact splitOnce_singleton_eq_none.mp hcut hmark
  | some cut =>
    obtain ⟨a, b⟩ := cut
    simp only [Option.map_some, hcut, Option.some.injEq] at h
    -- What is cut out of the fragment holds the mark at least.
    have hlen : (joinFragment a (splitFragment b).2).length ≤ a.length + b.length := by
      unfold splitFragment
      cases hcut' : splitOnce ['#'] b with
      | none => simp [joinFragment]
      | some cut' =>
        obtain ⟨q, g⟩ := cut'
        have hb := congrArg List.length (eq_of_splitOnce hcut')
        simp only [List.length_append, List.length_cons, List.length_nil] at hb
        simp only [joinFragment, List.length_append, List.length_cons]
        omega
    have hf' := congrArg List.length (eq_of_splitOnce hcut)
    rw [h] at hlen
    simp only [List.length_append, List.length_cons, List.length_nil] at hf'
    omega

/-- When a `?` starts the query, what is cut out is the query. -/
theorem cutQuery_of_noMark {u : AbsoluteUrl} (h : u.query = none → ∀ f ∈ u.fragment, '?' ∉ f) :
    parse (cutQuery u) = u.queryPairs ∧ keptFragment u = u.fragment := by
  cases hq : u.query with
  | some q => simp [cutQuery, keptFragment, AbsoluteUrl.queryPairs, hq]
  | none =>
    cases hf : u.fragment with
    | none => simp [cutQuery, keptFragment, AbsoluteUrl.queryPairs, hq, hf, parse, pieces]
    | some f =>
      have hnone : splitOnce ['?'] f = none :=
        splitOnce_singleton_eq_none.mpr (h hq f (by rw [hf]; rfl))
      simp [cutQuery, keptFragment, AbsoluteUrl.queryPairs, hq, hf, hnone, parse, pieces]

/-! ### Resolving the query -/

section Query

variable {world : World} {r : Resolver}

/-- A pair whose name and value are resolved. -/
def PairResolved (world : World) (r : Resolver) (p q : Text × Text) : Prop :=
  Resolver.Resolved world r p.1 q.1 ∧ Resolver.Resolved world r p.2 q.2

/-- A resolved pair, measured. -/
theorem pairResolved_measure {origin : Text} {p q : Text × Text}
    (hr : Resolver.OnlyVar baseUrl origin r) (hclean : ¬ Resolver.opening <:+: origin)
    (hslash : '/' ∈ origin) (h : PairResolved world r p q) :
    pairCount '/' p ≤ pairCount '/' q ∧ (pairCount '/' p = pairCount '/' q →
      pairCount '{' q ≤ pairCount '{' p ∧ (pairCount '{' q = pairCount '{' p →
        PairClean p ∧ q = p)) := by
  obtain ⟨⟨s, s', hs, hkey⟩, t, t', ht, hvalue⟩ := h
  have hname : '/' ∉ baseUrl := by decide
  obtain ⟨hk, hkEq⟩ := Resolver.resolve_onlyVar (hr.of_sameSetup hs) hclean hslash hname hkey
  obtain ⟨hv, hvEq⟩ := Resolver.resolve_onlyVar (hr.of_sameSetup ht) hclean hslash hname hvalue
  unfold pairCount
  refine ⟨by omega, ?_⟩
  intro hslashes
  obtain ⟨hkb, hkSame⟩ := hkEq (by omega)
  obtain ⟨hvb, hvSame⟩ := hvEq (by omega)
  refine ⟨by omega, ?_⟩
  intro hbraces
  obtain ⟨hkc, hk'⟩ := hkSame (by omega)
  obtain ⟨hvc, hv'⟩ := hvSame (by omega)
  exact ⟨⟨hkc, hvc⟩, Prod.ext hk' hv'⟩

/-- Resolving a collected list without losing a pair resolves the pairs one by one. -/
theorem resolveMap_pairs {pairs : List (Text × Text)} {query : FieldMap} {s' : Resolver}
    (h : exec (Resolver.resolveMap world (FieldMap.fromIter pairs)) r = (.ok query, s'))
    (hlen : query.iterPairs.length = pairs.length) :
    ∃ resolved, query.iterPairs.Perm resolved ∧
      List.Forall₂ (PairResolved world r) (FieldMap.fromIter pairs).iterPairs resolved := by
  obtain ⟨entries, rfl, hentries⟩ := Resolver.resolveMap_ok h
  have hpairs : List.Forall₂ (PairResolved world r) (FieldMap.fromIter pairs).iterPairs
      (entries.flatMap FieldMap.entryPairs) := by
    have hentry : ∀ e e' : Text × FieldValue, Resolver.Resolved world r e.1 e'.1 ∧
        List.Forall₂ (Resolver.Resolved world r) e.2.toList e'.2.toList →
        List.Forall₂ (PairResolved world r) (FieldMap.entryPairs e) (FieldMap.entryPairs e') := by
      rintro e e' ⟨hkey, hvalues⟩
      rw [FieldMap.entryPairs, FieldMap.entryPairs, List.forall₂_map_left_iff,
        List.forall₂_map_right_iff]
      exact hvalues.imp fun _ _ hv => ⟨hkey, hv⟩
    exact List.rel_flatMap hentries fun {e e'} he => hentry e e' he
  refine ⟨_, ?_, hpairs⟩
  -- Every entry has a value, so a lost entry would be a lost pair.
  have hpos : ∀ e ∈ entries, 0 < e.2.toList.length := by
    intro e he
    obtain ⟨e', he', hrel⟩ := forall₂_exists_of_mem_right hentries he
    rw [← hrel.2.length_eq, List.length_pos_iff]
    exact FieldMap.toList_ne_nil_of_fromIter he'
  have hcount : ∀ es : List (Text × FieldValue),
      (es.flatMap FieldMap.entryPairs).length = (es.map fun e => e.2.toList.length).sum := by
    intro es
    simp [List.length_flatMap, FieldMap.entryPairs]
  have hsame : (entries.map fun e => e.2.toList.length).sum
      = ((SortedMap.ofList entries).entries.map fun e => e.2.toList.length).sum := by
    rw [← hcount, ← hcount, ← hpairs.length_eq, (FieldMap.iterPairs_fromIter_perm pairs).length_eq,
      ← hlen]
    rfl
  exact (SortedMap.entries_ofList_perm (fun e => e.2.toList.length) hpos hsame.le).flatMap_right _

/-- When the pairs that come back are those of the standard decoder, the decoders agree and
nothing was a template. -/
theorem queryKept_of_perm {origin cut : Text} {pairs : List (Text × Text)} {query : FieldMap}
    {s' : Resolver} (hr : Resolver.OnlyVar baseUrl origin r)
    (hclean : ¬ Resolver.opening <:+: origin) (hslash : '/' ∈ origin)
    (hpairs : (pieces cut).mapM decodePair = some pairs)
    (h : exec (Resolver.resolveMap world (FieldMap.fromIter pairs)) r = (.ok query, s'))
    (hperm : query.iterPairs.Perm (parse cut)) : QueryKept cut := by
  obtain ⟨-, hunsigned, hmarks⟩ := mapM_decodePair_measures hpairs
  have hlen : (parse cut).length = pairs.length := by
    have hdecoded := (Fallible.length_of_mapM hpairs).symm
    rw [parse, List.length_map, hdecoded]
  obtain ⟨resolved, hquery, hrel⟩ := resolveMap_pairs h (hperm.length_eq.trans hlen)
  have hcollected := FieldMap.iterPairs_fromIter_perm pairs
  have hback := hquery.symm.trans hperm
  -- The slashes: no reference was to the origin.
  have hsum : ∀ c ∈ markChars, (resolved.map (pairCount c)).sum
      = ((FieldMap.fromIter pairs).iterPairs.map (pairCount c)).sum := by
    intro c hc
    rw [(hback.map _).sum_nat, (hcollected.map _).sum_nat, hmarks c hc]
    rfl
  have hslashes := forall₂_eq_of_sum_le
    (hrel.imp fun p q hpq => ⟨hpq, (pairResolved_measure hr hclean hslash hpq).1⟩)
    (hsum '/' (by decide)).le
  -- The braces: there was no reference.
  have hbraces := forall₂_eq_of_sum_le (r := fun q p => PairResolved world r p q ∧
      pairCount '/' p = pairCount '/' q) (f := pairCount '{') (g := pairCount '{')
    (hslashes.imp fun p q hpq => ⟨hpq,
      ((pairResolved_measure hr hclean hslash hpq.1).2 hpq.2).1⟩).flip
    (hsum '{' (by decide)).ge
  have hsame : List.Forall₂ (fun q p => PairClean p ∧ q = p) resolved
      (FieldMap.fromIter pairs).iterPairs := by
    refine hbraces.imp ?_
    rintro q p ⟨⟨hpq, hs⟩, hb⟩
    exact ((pairResolved_measure hr hclean hslash hpq).2 hs).2 hb
  have heq : resolved = (FieldMap.fromIter pairs).iterPairs :=
    List.forall₂_eq_eq_eq ▸ hsame.imp fun _ _ hqp => hqp.2
  -- The length: the decoders agree.
  have hdecoded : pairs.Perm (parse cut) := by
    rw [heq] at hback
    exact hcollected.symm.trans hback
  refine ⟨?_, hunsigned (hdecoded.map _).sum_nat, ?_⟩
  · rw [← isSome_mapM_decodePair, hpairs]
    rfl
  · intro pair hpair
    have hmem := hcollected.mem_iff.mpr (hdecoded.mem_iff.mpr hpair)
    obtain ⟨q, -, hkept⟩ := forall₂_exists_of_mem_right hsame hmem
    exact hkept.1

/-- A query that survives decodes to its pairs. -/
theorem decodePairs_queryKept {cut : Text} (h : QueryKept cut) :
    (pieces cut).mapM decodePair = some (parse cut) := by
  obtain ⟨hbound, hsign, -⟩ := h
  rw [← isSome_mapM_decodePair] at hbound
  obtain ⟨pairs, hpairs⟩ := Option.isSome_iff_exists.mp hbound
  rw [hpairs, mapM_decodePair_eq hpairs hsign]
  rfl

/-- A query that survives is the map of its pairs, for every resolver. -/
theorem resolveMap_queryKept {cut : Text} (h : QueryKept cut) :
    exec (Resolver.resolveMap world (FieldMap.fromIter (parse cut))) r
      = (.ok (FieldMap.fromIter (parse cut)), r) := by
  refine Resolver.resolveMap_clean ?_ r
  rintro ⟨k, value⟩ he
  have hpair : ∀ v ∈ value.toList, PairClean (k, v) := by
    intro v hv
    refine h.2.2 _ ((FieldMap.iterPairs_fromIter_perm _).mem_iff.mp ?_)
    exact List.mem_flatMap.mpr ⟨(k, value), he, List.mem_map.mpr ⟨v, hv, rfl⟩⟩
  obtain ⟨v, hv⟩ := List.exists_mem_of_ne_nil _ (FieldMap.toList_ne_nil_of_fromIter he)
  exact ⟨(hpair v hv).1, fun w hw => (hpair w hw).2⟩

end Query

/-! ### The whole URL -/

/-- Promotion panics exactly when the query of the URL or the body holds a badly cut escape. -/
theorem isSome_promote_text {upper : Text → Text} {nowMs : UInt64} {opts : PromoteOptions}
    {capture : Capture} {u : AbsoluteUrl} (hurl : capture.request.url = u.text) :
    (capture.promote upper nowMs opts).isSome = true ↔
      (pieces (cutQuery u)).all (pieceHolds onBoundary) = true ∧ BodyDecodes capture := by
  rw [Capture.isSome_promote, hurl, splitQuery_text, Option.isSome_map, isSome_mapM_decodePair,
    Bool.and_eq_true]
  refine and_congr_right fun _ => ?_
  unfold Capture.promoteBody BodyDecodes
  cases hbody : capture.request.body with
  | none => simp
  | some body =>
    dsimp only
    rw [Option.isSome_map]
    rcases bodyFromCapture_cases body capture.contentType with
      ⟨data, rfl, hcase⟩ | ⟨content, rfl, htype, hcase⟩ | ⟨content, plain, rfl, htype, hcase, -⟩
    · rw [hcase]
      simp
    · rw [hcase, Option.isSome_map, isSome_mapM_decodePair]
      simp [htype]
    · rw [hcase]
      simp [htype]

/-- What a preserved URL says about the resolver that binds the variable and nothing else. -/
theorem preservesUrl_onlyVar {upper : Text → Text} {nowMs : UInt64} {opts : PromoteOptions}
    {enc : PairEncoder} {capture : Capture} {u : AbsoluteUrl}
    (hurl : capture.request.url = u.text) (hclean : ¬ Resolver.opening <:+: u.text)
    (hopts : opts.baseUrlVar = some baseUrl) (h : PreservesUrl upper nowMs opts enc capture u) :
    BodyDecodes capture ∧ keptFragment u = u.fragment ∧
      ∃ origin pairs query r s', Resolver.OnlyVar baseUrl origin r ∧
        ¬ Resolver.opening <:+: origin ∧ '/' ∈ origin ∧
        (pieces (cutQuery u)).mapM decodePair = some pairs ∧
        exec (Resolver.resolveMap emptyPlatform.world (FieldMap.fromIter pairs)) r
          = (.ok query, s') ∧
        query.iterPairs.Perm u.queryPairs := by
  obtain ⟨promotion, hp, origin, hvars, hall⟩ := h
  -- The saved URL has a variable for the origin, with the value of the promotion.
  obtain ⟨origin', path, pairs, hvars', hspecUrl, hjoin, hslash, hpairs, hquery⟩ :=
    promote_url hurl hopts hp
  obtain rfl : origin = origin' := by
    rw [hvars] at hvars'
    simpa using hvars'
  have hbody := (isSome_promote_text hurl).mp (by rw [hp]; rfl)
  -- The base is clean, so its origin is as well.
  have hbase := baseOf_clean hclean
  have horigin : ¬ Resolver.opening <:+: origin := fun hdirty =>
    hbase (hdirty.trans (hjoin ▸ List.infix_append_left))
  have hget : (Resolver.new.withVars [(baseUrl, origin)]).vars.get? baseUrl = some origin :=
    SortedMap.get?_insert_self _ _ _
  have honly : Resolver.OnlyVar baseUrl origin
      ((Resolver.new.withVars [(baseUrl, origin)]).noteLookup baseUrl) :=
    (Resolver.onlyVar_new baseUrl origin).of_sameSetup ⟨rfl, rfl, rfl⟩
  -- The resolved URL is the base of the captured one.
  obtain ⟨w, query, s, s', hw, hq, htarget⟩ := hall emptyPlatform.world _ hget
  rw [hspecUrl, resolve_promotedUrl hbase hjoin hget] at hw
  obtain ⟨hwText, rfl⟩ := Prod.mk.inj hw
  obtain rfl : baseOf u = w := AbsoluteUrl.text_injective (Except.ok.inj hwText)
  -- Equal targets have the same pairs, in some order.
  rw [hquery] at hq
  have hperm := FieldMap.perm_of_values htarget.query
  rw [AbsoluteUrl.queryPairs_appendPairs enc rfl] at hperm
  exact ⟨hbody.2, htarget.fragment, origin, pairs, query, _, s', honly, horigin, hslash, hpairs,
    hq, hperm⟩

/-- A query that a `?` starts is the one that is cut out. -/
theorem cutQuery_kept {u : AbsoluteUrl} (hmark : u.query = none → ∀ f ∈ u.fragment, '?' ∉ f)
    (hquery : ∀ q ∈ u.query, QueryKept q) : QueryKept (cutQuery u) := by
  cases hq : u.query with
  | some q =>
    have hcut : cutQuery u = q := by rw [cutQuery, hq]
    rw [hcut]
    exact hquery q hq
  | none =>
    have hcut : cutQuery u = [] := by
      rw [cutQuery, hq]
      cases hf : u.fragment with
      | none => rfl
      | some f =>
        have hnone : splitOnce ['?'] f = none :=
          splitOnce_singleton_eq_none.mpr (hmark hq f (by rw [hf]; rfl))
        simp [hnone]
    rw [hcut]
    exact ⟨by decide, by decide, by decide⟩

/-- Promotion preserves a captured URL without a template exactly when a `?` starts its query,
the query survives and the body can be decoded. -/
theorem preservesUrl_iff (upper : Text → Text) (nowMs : UInt64) (opts : PromoteOptions)
    (enc : PairEncoder) (capture : Capture) (u : AbsoluteUrl)
    (hurl : capture.request.url = u.text) (hclean : ¬ Resolver.opening <:+: u.text)
    (hopts : opts.baseUrlVar = some baseUrl) :
    PreservesUrl upper nowMs opts enc capture u ↔ UrlKept u ∧ BodyDecodes capture := by
  constructor
  -- The fragment is only kept when it has no question mark, and then the query was cut right.
  · intro h
    obtain ⟨hbody, hkept, origin, pairs, query, r, s', honly, horigin, hslash, hpairs, hq, hperm⟩ :=
      preservesUrl_onlyVar hurl hclean hopts h
    have hmark : u.query = none → ∀ f ∈ u.fragment, '?' ∉ f := fun hnone =>
      not_mark_of_keptFragment hnone hkept
    rw [← (cutQuery_of_noMark hmark).1] at hperm
    have hqueryKept := queryKept_of_perm honly horigin hslash hpairs hq hperm
    refine ⟨⟨hmark, ?_⟩, hbody⟩
    intro q hsome
    have hcut : cutQuery u = q := by rw [cutQuery, Option.mem_def.mp hsome]
    rwa [hcut] at hqueryKept
  -- With both kept the promotion succeeds, and the saved request is resolved.
  · rintro ⟨⟨hmark, hquery⟩, hbody⟩
    obtain ⟨hcut, hfragment⟩ := cutQuery_of_noMark hmark
    have hqueryKept := cutQuery_kept hmark hquery
    have hsome : (capture.promote upper nowMs opts).isSome = true :=
      (isSome_promote_text hurl).mpr ⟨hqueryKept.1, hbody⟩
    obtain ⟨promotion, hp⟩ := Option.isSome_iff_exists.mp hsome
    obtain ⟨origin, path, pairs, hvars, hspecUrl, hjoin, -, hpairs, hspecQuery⟩ :=
      promote_url hurl hopts hp
    refine ⟨promotion, hp, origin, hvars, ?_⟩
    intro world r hget
    have hdecoded := decodePairs_queryKept hqueryKept
    obtain rfl : pairs = parse (cutQuery u) := Option.some.inj (hpairs.symm.trans hdecoded)
    -- The URL, the query, the fragment and the pairs, in this order.
    refine ⟨baseOf u, FieldMap.fromIter (parse (cutQuery u)), r.noteLookup baseUrl,
      r.noteLookup baseUrl, ?_, ?_, rfl, rfl, rfl, hfragment, ?_⟩
    · rw [hspecUrl]
      exact resolve_promotedUrl (baseOf_clean hclean) hjoin hget
    · rw [hspecQuery]
      exact resolveMap_queryKept hqueryKept
    · intro name
      rw [AbsoluteUrl.queryPairs_appendPairs enc rfl, FieldMap.filter_iterPairs,
        FieldMap.valuesOf_fromIter, hcut]

/-- The engine's encoder, as an encoder of query pairs. -/
def urlencodePairs : PairEncoder where
  encode := urlencode
  correct := urlencode_encoder
  noHash := by
    intro t hmem
    obtain ⟨b, -, hb⟩ := List.mem_flatMap.mp hmem
    exact (separators_urlencodeByte hb).2.2 rfl

/-- A URL with a name twice in its query, a space, and a `?` in the fragment. -/
def searchUrl : AbsoluteUrl where
  scheme := "https".toList
  authority := "api.test".toList
  path := "/v1/users".toList
  query := some "tag=%C3%A9&q=ada+l&tag=".toList
  fragment := some "top?".toList
  scheme_ok := forall_mem_of_all (by decide)
  authority_ok := forall_mem_of_all (by decide)
  path_head := by decide
  path_ok := forall_mem_of_all (by decide)
  query_ok := by decide

/-- Replaying its promotion goes to the same URL. -/
theorem preservesUrl_iff_search : PreservesUrl asciiUpper 0 {} urlencodePairs
    (Capture.sampleCapture searchUrl.text []) searchUrl := by
  refine (preservesUrl_iff asciiUpper 0 {} urlencodePairs (Capture.sampleCapture searchUrl.text [])
    searchUrl rfl (by decide) rfl).mpr ⟨⟨fun h => absurd h (by decide), ?_⟩, ?_⟩
  · intro q hq
    obtain rfl := Option.some.inj hq
    exact ⟨by decide, by decide, by decide⟩
  · intro content hcontent
    exact absurd hcontent (by simp [Capture.sampleCapture])

/-- A URL with a `?` in its fragment and no query. -/
def anchorUrl : AbsoluteUrl where
  scheme := "https".toList
  authority := "api.test".toList
  path := "/v1".toList
  query := none
  fragment := some "top?x=1".toList
  scheme_ok := forall_mem_of_all (by decide)
  authority_ok := forall_mem_of_all (by decide)
  path_head := by decide
  path_ok := forall_mem_of_all (by decide)
  query_ok := by decide

/-- Its promotion cuts a query out of the fragment. -/
theorem not_preservesUrl_anchor : ¬ PreservesUrl asciiUpper 0 {} urlencodePairs
    (Capture.sampleCapture anchorUrl.text []) anchorUrl := by
  intro h
  obtain ⟨-, hkept, -⟩ := preservesUrl_onlyVar (u := anchorUrl) rfl (by decide) rfl h
  exact absurd hkept (by decide)

end Gabriel.Engine
