import Gabriel.Proofs.SessionCookies

/-!
# `Gabriel.Proofs.HopCookies`: the merged cookies of a hop

A hop sends the cookies of two jars, merged by name as rendered text: the session's jar and the
jar of the chain. The claim to compare it with has one jar, the session's, with everything
recorded into it that the chain has set.

Both are read as lists. The accepted cookies of a turn are `Turn.puts`, the chain's jar is the
`LastWrite.contents` of the puts so far, and by `LastWrite.foldl_put` the one jar is the session's
jar without the replaced cookies, followed by the chain's. So the two sets of pairs differ in two
ways only, which `HopClear` excludes: by a session cookie that shares its name with a cookie of
the chain but was not replaced by it, and by a replaced one that the engine still has. The theorems:

* `headerPairs_merge`: the merge shows every fresher pair, and the base pairs of other names.
* `jar_recordSetCookies`: recording under a session writes the accepted cookies into its jar.
* `jars_of_turns`: what both jars hold before a turn, by induction over the turns before it.
* `idealPair_iff`, `mem_cookie`: the pairs of the one jar, and those that the hop sends.
* `hopAgrees_iff`: for every turn of every run, the two are the same exactly when `HopClear` holds.

The clock may advance between the turns, but the readings of one turn are equal (`OneMoment`).
-/

set_option autoImplicit false

namespace Gabriel.Engine

open Gabriel.Core Text Fallible Orbit LastWrite

variable {Url : Type} {platform : Platform} {network : Network Url} {ctx : RunContext}
  {spec : RequestSpec}

/-! ### Pairs of a header -/

/-- The pairs of a `Cookie` header. -/
def headerPairs (header : Option Text) : List Text :=
  match header with
  | some text => splitSeq "; ".toList text
  | none => []

/-- A cookie whose pair can be read back from a header. -/
def PlainPair (c : Cookie) : Prop := ';' ∉ c.pair

/-- The attributes of a header do not change the pair. -/
theorem parseAttr_pair {requestHost attr : Text} {c c' : Cookie} {m m' : Option Int64}
    (h : Cookie.parseAttr requestHost (c, m) attr = some (c', m')) :
    c'.name = c.name ∧ c'.value = c.value := by
  unfold Cookie.parseAttr at h
  dsimp only at h
  have hsame : ∀ {d : Cookie} {k : Option Int64}, some (d, k) = some (c', m') →
      d.name = c.name ∧ d.value = c.value → c'.name = c.name ∧ c'.value = c.value := by
    intro d k heq hd
    rw [Option.some.injEq, Prod.mk.injEq] at heq
    rw [← heq.1]
    exact hd
  -- Every branch but a refused `Domain` keeps the name and the value.
  repeat' split at h
  all_goals first
    | exact hsame h ⟨rfl, rfl⟩
    | exact absurd h (Option.some_ne_none _).symm

/-- The attribute loop does not change the pair. -/
theorem parseAttrs_pair {requestHost : Text} {attrs : List Text} {c c' : Cookie}
    {m m' : Option Int64} (h : attrs.foldlM (Cookie.parseAttr requestHost) (c, m) = some (c', m')) :
    c'.name = c.name ∧ c'.value = c.value := by
  induction attrs generalizing c m with
  | nil =>
    rw [List.foldlM_nil] at h
    obtain ⟨rfl, -⟩ := Prod.mk.inj (Option.some.inj h)
    exact ⟨rfl, rfl⟩
  | cons attr attrs ih =>
    rw [List.foldlM_cons] at h
    obtain ⟨⟨c₁, m₁⟩, hstep, hrest⟩ := Option.bind_eq_some_iff.mp h
    obtain ⟨hname, hvalue⟩ := ih hrest
    obtain ⟨hname₁, hvalue₁⟩ := parseAttr_pair hstep
    exact ⟨hname.trans hname₁, hvalue.trans hvalue₁⟩

/-- What the parser makes has a plain pair. -/
theorem plainPair_of_parse {nowMs : UInt64} {header host path : Text} {c : Cookie}
    (h : Cookie.parse nowMs header host path = some c) : PlainPair c := by
  simp only [Cookie.parse, Option.bind_eq_bind, Option.bind_eq_some_iff] at h
  obtain ⟨⟨name, value⟩, ⟨first, hfirst, hsplit⟩, h⟩ := h
  split at h
  · exact absurd h (by simp)
  · obtain ⟨⟨c₁, m₁⟩, hattrs, h⟩ := Option.bind_eq_some_iff.mp h
    obtain ⟨hname, hvalue⟩ := parseAttrs_pair hattrs
    have hsame : c.name = c₁.name ∧ c.value = c₁.value := by
      cases m₁ <;> simp only [Option.some.injEq] at h <;> subst h <;> exact ⟨rfl, rfl⟩
    -- The first piece of the header has no semicolon.
    have hpiece : ';' ∉ first := not_mem_of_mem_splitOn (List.mem_of_mem_head? hfirst)
    rw [(splitOnce_singleton_iff.mp hsplit).1, List.mem_append, List.mem_cons, not_or,
      not_or] at hpiece
    unfold PlainPair Cookie.pair
    rw [hsame.1, hsame.2, hname, hvalue, List.mem_append, List.mem_cons, not_or, not_or]
    exact ⟨fun hmem => hpiece.1 ((isInfix_trim name).subset hmem), hpiece.2.1,
      fun hmem => hpiece.2.2 ((isInfix_trim value).subset hmem)⟩

/-- The text of a `Cookie` header with these cookies. -/
def renderCookies (cs : List Cookie) : Option Text :=
  if cs = [] then none else some (List.intercalate "; ".toList (cs.map Cookie.pair))

/-- A header shows the pairs it was made from. -/
theorem headerPairs_intercalate {pairs : List Text} (hne : pairs ≠ [])
    (h : ∀ pair ∈ pairs, ';' ∉ pair) :
    headerPairs (some (List.intercalate "; ".toList pairs)) = pairs := by
  show splitSeq [';', ' '] (List.intercalate [';', ' '] pairs) = pairs
  exact splitSeq_intercalate hne h

/-- A `Cookie` header shows the pairs of its cookies. -/
theorem headerPairs_renderCookies {cs : List Cookie} (h : ∀ c ∈ cs, PlainPair c) :
    headerPairs (renderCookies cs) = cs.map Cookie.pair := by
  unfold renderCookies
  by_cases hnil : cs = []
  · rw [if_pos hnil, hnil]
    rfl
  · rw [if_neg hnil]
    refine headerPairs_intercalate (fun hmap => hnil (List.map_eq_nil_iff.mp hmap)) ?_
    intro pair hpair
    obtain ⟨c, hc, rfl⟩ := List.mem_map.mp hpair
    exact h c hc

/-- The merge shows every fresher pair, and the base pairs of other names. -/
theorem headerPairs_merge {base fresher : List Cookie} (hbase : ∀ c ∈ base, PlainPair c)
    (hfresher : ∀ c ∈ fresher, PlainPair c) :
    headerPairs (mergeCookieHeaders (renderCookies base) (renderCookies fresher))
      = fresher.map Cookie.pair ++ (base.map Cookie.pair).filter fun pair =>
        cookiePairName pair ∉ (fresher.map Cookie.pair).map cookiePairName := by
  have hpairs := headerPairs_renderCookies hbase
  have hfreshPairs := headerPairs_renderCookies hfresher
  -- Without a base or without fresher pairs the merge is the other one.
  by_cases hb : base = []
  · rw [hb]
    show headerPairs (mergeCookieHeaders none (renderCookies fresher)) = _ ++ []
    rw [List.append_nil, ← hfreshPairs]
    cases renderCookies fresher <;> rfl
  · by_cases hf : fresher = []
    · rw [hf]
      show headerPairs (mergeCookieHeaders (renderCookies base) none)
        = (base.map Cookie.pair).filter fun _ => true
      rw [List.filter_true, ← hpairs]
      cases renderCookies base <;> rfl
    · unfold renderCookies at hpairs hfreshPairs ⊢
      rw [if_neg hb] at hpairs ⊢
      rw [if_neg hf] at hfreshPairs ⊢
      dsimp only [headerPairs] at hpairs hfreshPairs
      dsimp only [mergeCookieHeaders]
      rw [hpairs, hfreshPairs]
      -- Both are there: the pairs of the text are those that were put together.
      refine headerPairs_intercalate (fun hnil => hf ?_) ?_
      · exact List.map_eq_nil_iff.mp (List.append_eq_nil_iff.mp hnil).1
      · intro pair hpair
        rcases List.mem_append.mp hpair with hpair | hpair
        · obtain ⟨c, hc, rfl⟩ := List.mem_map.mp hpair
          exact hfresher c hc
        · obtain ⟨c, hc, rfl⟩ := List.mem_map.mp (List.mem_filter.mp hpair).1
          exact hbase c hc

/-! ### Recorded cookies as writes -/

/-- The cookies accepted from the `Set-Cookie` headers of a response, each with whether it was
live when it was stored. -/
def accepted (host path : Text) : (Nat → UInt64) → List Text → List (Cookie × Bool)
  | _, [] => []
  | clock, header :: headers =>
    match Cookie.parse (clock 0) header host path with
    | some cookie =>
      (cookie, !cookie.isExpired (clock 1)) :: accepted host path (fun n => clock (n + 2)) headers
    | none => accepted host path (fun n => clock (n + 2)) headers

/-- What the parser accepts has a plain pair. -/
theorem plainPair_of_accepted {host path : Text} {clock : Nat → UInt64} {headers : List Text}
    {p : Cookie × Bool} (h : p ∈ accepted host path clock headers) : PlainPair p.1 := by
  induction headers generalizing clock with
  | nil => exact absurd h List.not_mem_nil
  | cons header headers ih =>
    rw [accepted] at h
    cases hparse : Cookie.parse (clock 0) header host path with
    | none =>
      rw [hparse] at h
      exact ih h
    | some cookie =>
      rw [hparse, List.mem_cons] at h
      rcases h with rfl | h
      · exact plainPair_of_parse hparse
      · exact ih h

/-- Cookies as writes on a jar. -/
def writes (puts : List (Cookie × Bool)) : List (Op Cookie) := puts.map fun p => .put p.1 p.2

/-- Recording under a session writes the accepted cookies into its jar. -/
theorem jar_recordSetCookies (store : SessionStore) (session host path : Text)
    (clock : Nat → UInt64) (headers : List Text) :
    (store.recordSetCookies session host path clock headers).1.jar session
      = (writes (accepted host path clock headers)).foldl (step Cookie.identity)
        (store.jar session) := by
  induction headers generalizing store clock with
  | nil => rfl
  | cons header headers ih =>
    rw [SessionStore.recordSetCookies, accepted]
    cases Cookie.parse (clock 0) header host path with
    | none => exact ih store _
    | some cookie =>
      have hinsert : (store.insert (clock 1) session cookie).jar session
          = step Cookie.identity (store.jar session)
              (.put cookie (!cookie.isExpired (clock 1))) := by
        rw [SessionStore.jar_insert, if_pos rfl]
        cases hexp : cookie.isExpired (clock 1) <;> simp [step]
      show ((store.insert (clock 1) session cookie).recordSetCookies session host path _
        headers).1.jar session = _
      rw [ih, hinsert]
      rfl

/-- The cookies that the answer to a turn sets. -/
def Turn.puts (network : Network Url) (ctx : RunContext) (spec : RequestSpec) (turn : Turn Url) :
    List (Cookie × Bool) :=
  match turn.answer network ctx spec with
  | .ok raw => accepted (turn.host network) (turn.path network)
      (fun n => network.clock (turn.engine.ticks + 2 + 2 * (readHeaders raw).2.length + n))
      (readHeaders raw).2
  | .error _ => []

/-- The cookies that the answers to some turns set. -/
def putsOf (network : Network Url) (ctx : RunContext) (spec : RequestSpec)
    (ts : List (Turn Url)) : List (Cookie × Bool) :=
  ts.flatMap (Turn.puts network ctx spec)

/-- One recorded answer. -/
theorem jar_recordAs (session : Text) (turn : Turn Url) (store : SessionStore) :
    (turn.recordAs network ctx spec session store).jar session
      = (writes (turn.puts network ctx spec)).foldl (step Cookie.identity) (store.jar session) := by
  unfold Turn.recordAs Turn.puts
  cases turn.answer network ctx spec with
  | error error => rfl
  | ok raw => exact jar_recordSetCookies ..

/-- Recorded answers are writes on the jar. -/
theorem jar_recordedAs_foldl (session : Text) (ts : List (Turn Url)) (store : SessionStore) :
    (recordedAs network ctx spec session ts store).jar session
      = (writes (putsOf network ctx spec ts)).foldl (step Cookie.identity)
        (store.jar session) := by
  induction ts generalizing store with
  | nil => rfl
  | cons turn ts ih =>
    show (recordedAs network ctx spec session ts
      (turn.recordAs network ctx spec session store)).jar session = _
    rw [ih, jar_recordAs, ← List.foldl_append]
    unfold putsOf writes
    rw [List.flatMap_cons, List.map_append]

/-- Recorded answers drop the cookies they replace from the jar, and stand after the rest. -/
theorem jar_recordedAs (session : Text) (ts : List (Turn Url)) (store : SessionStore) :
    (recordedAs network ctx spec session ts store).jar session
      = ((store.jar session).filter fun c =>
          c.identity ∉ (putsOf network ctx spec ts).map fun p => p.1.identity)
        ++ contents Cookie.identity (writes (putsOf network ctx spec ts)) := by
  rw [jar_recordedAs_foldl, writes, foldl_put]
  -- The two tests compare identities by different instances.
  congr 1
  exact List.filter_congr fun c _ => decide_eq_decide.mpr Iff.rfl

/-- Recorded answers leave the jars of other sessions. -/
theorem jar_recordedAs_of_ne {session other : Text} (h : other ≠ session) (ts : List (Turn Url))
    (store : SessionStore) :
    (recordedAs network ctx spec session ts store).jar other = store.jar other := by
  unfold SessionStore.jar
  rw [get?_recordedAs_of_ne h]

/-! ### The jars before a turn -/

/-- How often a turn reads the clock: for the cookies it sends, and for the ones it receives. -/
def Turn.readings (network : Network Url) (ctx : RunContext) (spec : RequestSpec)
    (turn : Turn Url) : Nat :=
  2 + match turn.answer network ctx spec with
    | .ok raw => 4 * (readHeaders raw).2.length
    | .error _ => 0

/-- A turn takes its clock readings in one moment. -/
def Turn.OneMoment (network : Network Url) (ctx : RunContext) (spec : RequestSpec)
    (turn : Turn Url) : Prop :=
  ∀ n < turn.readings network ctx spec,
    network.clock (turn.engine.ticks + n) = network.clock turn.engine.ticks

/-- Only the readings that a call takes count. -/
theorem recordSetCookies_congr {store : SessionStore} {session host path : Text}
    {clock clock' : Nat → UInt64} {headers : List Text}
    (h : ∀ n < 2 * headers.length, clock n = clock' n) :
    store.recordSetCookies session host path clock headers
      = store.recordSetCookies session host path clock' headers := by
  induction headers generalizing store clock clock' with
  | nil => rfl
  | cons header headers ih =>
    rw [List.length_cons] at h
    have hrest : ∀ n < 2 * headers.length, clock (n + 2) = clock' (n + 2) :=
      fun n hn => h (n + 2) (by omega)
    rw [SessionStore.recordSetCookies, SessionStore.recordSetCookies, h 0 (by omega),
      h 1 (by omega), ih hrest]
    cases Cookie.parse (clock' 0) header host path with
    | none => rfl
    | some cookie =>
      dsimp only
      rw [ih hrest]

/-- In one moment, the chain's jar takes the readings that the session's jar takes. -/
theorem chainJarAfter_eq {turn : Turn Url} {raw : RawResponse}
    (hanswer : turn.answer network ctx spec = .ok raw)
    (hmoment : turn.OneMoment network ctx spec) :
    turn.chainJarAfter network raw
      = turn.recordAs network ctx spec chainSession turn.chain.chainJar := by
  have hreadings : turn.readings network ctx spec = 2 + 4 * (readHeaders raw).2.length := by
    unfold Turn.readings
    rw [hanswer]
  unfold Turn.OneMoment at hmoment
  rw [hreadings] at hmoment
  unfold Turn.chainJarAfter Turn.recordAs
  rw [hanswer]
  dsimp only
  congr 1
  refine recordSetCookies_congr ?_
  intro n hn
  have hchain := hmoment (2 + n) (by omega)
  have hsession := hmoment (2 + 2 * (readHeaders raw).2.length + n) (by omega)
  rw [← Nat.add_assoc] at hchain
  rw [hchain, Nat.add_assoc, Nat.add_assoc, ← Nat.add_assoc 2, hsession]

/-- The jars before a turn hold what the answers before it set: the chain's jar always, the jar
of the context's session when the run records. -/
theorem jars_of_turns {left : Nat} {first turn : Turn Url} {pre post : List (Turn Url)}
    (hmoment : ∀ t ∈ turns network ctx spec left first, t.OneMoment network ctx spec)
    (hsplit : turns network ctx spec left first = pre ++ turn :: post) :
    turn.chain.chainJar = recordedAs network ctx spec chainSession pre first.chain.chainJar ∧
    turn.engine.sessions = if ctx.recordCookies then
        recordedAs network ctx spec ctx.session pre first.engine.sessions
      else first.engine.sessions := by
  induction pre generalizing left first with
  | nil =>
    obtain ⟨rest, hrest⟩ := orbit_eq_cons (Turn.next network ctx spec) left first
    unfold turns at hsplit
    rw [hrest, List.nil_append, List.cons.injEq] at hsplit
    rw [← hsplit.1]
    exact ⟨rfl, (ite_self _).symm⟩
  | cons p pre ih =>
    unfold turns at hsplit hmoment
    cases left with
    | zero =>
      rw [orbit, List.cons_append, List.cons.injEq] at hsplit
      exact absurd hsplit.2.symm (by simp)
    | succ left =>
      cases hnext : first.next network ctx spec with
      | none =>
        rw [orbit_of_none hnext, List.cons_append, List.cons.injEq] at hsplit
        exact absurd hsplit.2.symm (by simp)
      | some first' =>
        rw [orbit_succ_some hnext] at hsplit hmoment
        rw [List.cons_append, List.cons.injEq] at hsplit
        obtain ⟨hchain, hsessions⟩ :=
          ih (fun t ht => hmoment t (List.mem_cons_of_mem first ht)) hsplit.2
        -- One step records one answer.
        obtain ⟨raw, target, hstep⟩ := redirects_of_next hnext
        have hjar : first'.chain.chainJar
            = first.recordAs network ctx spec chainSession first.chain.chainJar := by
          rw [← chainJarAfter_eq hstep.answered (hmoment first List.mem_cons_self), hstep.chain]
          unfold nextHop
          dsimp only
          split <;> rfl
        have hengine : first'.engine.sessions = first.sessionsAfter network ctx raw := by
          rw [hstep.engine]
          rfl
        rw [hchain, hsessions, hjar, hengine, sessionsAfter_eq hstep.answered, ← hsplit.1]
        refine ⟨rfl, ?_⟩
        cases ctx.recordCookies <;> rfl

/-! ### The cookies of a hop -/

/-- The pairs of the `Cookie` headers in a list of headers. -/
def cookiePairs (headers : List (Text × Text)) : List Text :=
  (headers.filter fun e => eqIgnoreAsciiCase e.1 "cookie".toList).flatMap fun e =>
    headerPairs (some e.2)

/-- A cookie of a jar goes with the request of a turn. -/
def Turn.Takes (network : Network Url) (turn : Turn Url) (c : Cookie) : Prop :=
  c.isExpired (network.clock turn.engine.ticks) = false ∧
    c.matchesRequest (turn.host network) (turn.path network)
      (network.urls.scheme turn.chain.url = "https".toList) = true

/-- A pair of the chain's jar. -/
def ChainPair (network : Network Url) (turn : Turn Url) (pair : Text) : Prop :=
  ∃ c ∈ turn.chain.chainJar.jar chainSession, turn.Takes network c ∧ c.pair = pair

/-- A pair of the chain's jar has the name of this pair. -/
def Overridden (network : Network Url) (turn : Turn Url) (pair : Text) : Prop :=
  ∃ fresher, ChainPair network turn fresher ∧ cookiePairName fresher = cookiePairName pair

/-- The answers to some turns set a cookie in place of this one, or remove it. -/
def Replaced (network : Network Url) (ctx : RunContext) (spec : RequestSpec)
    (pre : List (Turn Url)) (c : Cookie) : Prop :=
  ∃ p ∈ putsOf network ctx spec pre, p.1.identity = c.identity

/-- A pair of a jar as it was before the run, of a cookie that was not replaced since. -/
def KeptPair (network : Network Url) (ctx : RunContext) (spec : RequestSpec) (jar : List Cookie)
    (pre : List (Turn Url)) (turn : Turn Url) (pair : Text) : Prop :=
  ∃ c ∈ jar, ¬ Replaced network ctx spec pre c ∧ turn.Takes network c ∧ c.pair = pair

/-- A pair of a jar as it was before the run, of a cookie that was replaced since. -/
def StalePair (network : Network Url) (ctx : RunContext) (spec : RequestSpec) (jar : List Cookie)
    (pre : List (Turn Url)) (turn : Turn Url) (pair : Text) : Prop :=
  ∃ c ∈ jar, Replaced network ctx spec pre c ∧ turn.Takes network c ∧ c.pair = pair

/-- The cookies that the request of a turn sends are those that the jar of the session would
send, with the answers before the turn recorded into it. -/
def HopAgrees (network : Network Url) (ctx : RunContext) (spec : RequestSpec) (session : Text)
    (store : SessionStore) (pre : List (Turn Url)) (turn : Turn Url) : Prop :=
  ∀ pair, pair ∈ cookiePairs (turn.request network ctx spec).headers ↔
    pair ∈ headerPairs ((recordedAs network ctx spec session pre store).cookieHeader
      (network.clock turn.engine.ticks) session (turn.host network) (turn.path network)
      (network.urls.scheme turn.chain.url = "https".toList))

/-- The two jars do not get in each other's way. -/
structure HopClear (network : Network Url) (ctx : RunContext) (spec : RequestSpec) (session : Text)
    (jar : List Cookie) (pre : List (Turn Url)) (turn : Turn Url) : Prop where
  /-- A `Cookie` header of the request file has no pair of its own. -/
  own : ∀ pair ∈ cookiePairs turn.chain.headers,
    KeptPair network ctx spec jar pre turn pair ∨ ChainPair network turn pair
  /-- A cookie that stays in the session's jar loses its name to no cookie of the chain, unless
  its pair is sent anyway. -/
  kept : ∀ pair, KeptPair network ctx spec jar pre turn pair → Overridden network turn pair →
    pair ∈ cookiePairs turn.chain.headers ∨ ChainPair network turn pair
  /-- A cookie that the chain has replaced is out of the session's jar too, or loses its name to a
  cookie of the chain, unless its pair is sent anyway. -/
  stale : ¬ (ctx.recordCookies = true ∧ ctx.session = session) → ∀ pair,
    StalePair network ctx spec jar pre turn pair → ¬ Overridden network turn pair →
      KeptPair network ctx spec jar pre turn pair

/-- The pairs of the cookies that a jar has for a turn. -/
theorem mem_matchingPairs {store : SessionStore} {session : Text} {turn : Turn Url} {pair : Text} :
    pair ∈ (store.matching (network.clock turn.engine.ticks) session (turn.host network)
        (turn.path network) (network.urls.scheme turn.chain.url = "https".toList)).map Cookie.pair ↔
      ∃ c ∈ store.jar session, turn.Takes network c ∧ c.pair = pair := by
  rw [List.mem_map]
  refine exists_congr fun c => ?_
  rw [SessionStore.mem_matching, and_assoc]
  rfl

/-- The pairs of a `Cookie` header. -/
theorem mem_headerPairs_cookieHeader {store : SessionStore} {session : Text} {turn : Turn Url}
    (hplain : ∀ c ∈ store.jar session, PlainPair c) {pair : Text} :
    pair ∈ headerPairs (store.cookieHeader (network.clock turn.engine.ticks) session
        (turn.host network) (turn.path network)
        (network.urls.scheme turn.chain.url = "https".toList)) ↔
      ∃ c ∈ store.jar session, turn.Takes network c ∧ c.pair = pair := by
  show pair ∈ headerPairs (renderCookies (store.matching _ _ _ _ _)) ↔ _
  rw [headerPairs_renderCookies fun c hc => hplain c (SessionStore.mem_matching.mp hc).1]
  exact mem_matchingPairs

/-- A jar with recorded answers: what they did not replace, and the chain's jar. -/
theorem mem_jar_recordedAs {session : Text} {store : SessionStore} {pre : List (Turn Url)}
    {c : Cookie} :
    c ∈ (recordedAs network ctx spec session pre store).jar session ↔
      (c ∈ store.jar session ∧ ¬ Replaced network ctx spec pre c) ∨
        c ∈ (recordedAs network ctx spec chainSession pre .new).jar chainSession := by
  rw [jar_recordedAs, jar_recordedAs, SessionStore.jar_new, List.filter_nil, List.nil_append,
    List.mem_append, List.mem_filter, decide_eq_true_eq, List.mem_map]
  rfl

/-- The chain's jar has plain pairs. -/
theorem plainPair_of_chain {pre : List (Turn Url)} {c : Cookie}
    (h : c ∈ (recordedAs network ctx spec chainSession pre .new).jar chainSession) :
    PlainPair c := by
  rw [jar_recordedAs, SessionStore.jar_new, List.filter_nil, List.nil_append] at h
  obtain ⟨p, hp, rfl⟩ := mem_contents_put Cookie.identity h
  obtain ⟨turn, hturn, hput⟩ := List.mem_flatMap.mp hp
  unfold Turn.puts at hput
  cases hanswer : turn.answer network ctx spec with
  | error error =>
    rw [hanswer] at hput
    exact absurd hput List.not_mem_nil
  | ok raw =>
    rw [hanswer] at hput
    exact plainPair_of_accepted hput

/-- Recorded answers leave plain pairs. -/
theorem plainPair_of_recordedAs {session other : Text} {store : SessionStore}
    {pre : List (Turn Url)} (hplain : ∀ c ∈ store.jar other, PlainPair c) :
    ∀ c ∈ (recordedAs network ctx spec session pre store).jar other, PlainPair c := by
  intro c hc
  by_cases hsame : other = session
  · rw [hsame] at hc hplain
    rcases mem_jar_recordedAs.mp hc with ⟨hold, -⟩ | hchain
    · exact hplain c hold
    · exact plainPair_of_chain hchain
  · rw [jar_recordedAs_of_ne hsame] at hc
    exact hplain c hc

/-- The pairs of the jar that has everything. -/
theorem idealPair_iff {session : Text} {store : SessionStore} {pre : List (Turn Url)}
    {turn : Turn Url}
    (hchain : turn.chain.chainJar = recordedAs network ctx spec chainSession pre .new)
    {pair : Text} :
    (∃ c ∈ (recordedAs network ctx spec session pre store).jar session,
        turn.Takes network c ∧ c.pair = pair) ↔
      KeptPair network ctx spec (store.jar session) pre turn pair ∨
        ChainPair network turn pair := by
  unfold KeptPair ChainPair
  rw [hchain]
  constructor
  · rintro ⟨c, hc, htakes, hpair⟩
    rcases mem_jar_recordedAs.mp hc with ⟨hold, hkept⟩ | hfresh
    · exact Or.inl ⟨c, hold, hkept, htakes, hpair⟩
    · exact Or.inr ⟨c, hfresh, htakes, hpair⟩
  · rintro (⟨c, hold, hkept, htakes, hpair⟩ | ⟨c, hfresh, htakes, hpair⟩)
    · exact ⟨c, mem_jar_recordedAs.mpr (Or.inl ⟨hold, hkept⟩), htakes, hpair⟩
    · exact ⟨c, mem_jar_recordedAs.mpr (Or.inr hfresh), htakes, hpair⟩

/-- The pairs that the session's jar of the engine has for a turn. -/
def EnginePair (network : Network Url) (session : Text) (turn : Turn Url) (pair : Text) : Prop :=
  ∃ c ∈ turn.engine.sessions.jar session, turn.Takes network c ∧ c.pair = pair

/-- A `Cookie` header is one of the pairs of its request. -/
theorem mem_cookiePairs_request {turn : Turn Url} {pair : Text} :
    pair ∈ cookiePairs (turn.request network ctx spec).headers ↔
      pair ∈ cookiePairs turn.chain.headers ∨
        pair ∈ headerPairs (turn.cookie network ctx spec) := by
  show pair ∈ cookiePairs (turn.chain.headers ++ _) ↔ _
  unfold cookiePairs
  rw [List.filter_append, List.flatMap_append, List.mem_append]
  refine or_congr_right ?_
  cases turn.cookie network ctx spec with
  | none => exact Iff.rfl
  | some text =>
    show pair ∈ headerPairs (some text) ++ [] ↔ _
    rw [List.append_nil]

/-- The pairs of a hop's own cookies: the chain's, and those of the session's jar under other
names. -/
theorem mem_cookie {session : Option Text} (hauth : spec.auth = some (.session session))
    {turn : Turn Url} {pre : List (Turn Url)}
    (hchain : turn.chain.chainJar = recordedAs network ctx spec chainSession pre .new)
    (hplain : ∀ c ∈ turn.engine.sessions.jar (session.getD ctx.session), PlainPair c)
    (hmoment : network.clock (turn.engine.ticks + 1) = network.clock turn.engine.ticks)
    {pair : Text} :
    pair ∈ headerPairs (turn.cookie network ctx spec) ↔
      ChainPair network turn pair ∨
        (EnginePair network (session.getD ctx.session) turn pair ∧
          ¬ Overridden network turn pair) := by
  -- The cookies of the chain were parsed, so that they are plain.
  have hfresh : ∀ c ∈ turn.chain.chainJar.jar chainSession, PlainPair c := by
    rw [hchain]
    exact fun c hc => plainPair_of_chain hc
  unfold Turn.cookie hopCookieText sessionCookie
  rw [hauth, hmoment]
  show pair ∈ headerPairs (mergeCookieHeaders
    (renderCookies (SessionStore.matching _ turn.engine.sessions _ (turn.host network)
      (turn.path network) _))
    (renderCookies (SessionStore.matching _ turn.chain.chainJar _ (turn.host network)
      (turn.path network) _))) ↔ _
  -- The merge shows the two jars; which of the base pairs stay is said by name.
  rw [headerPairs_merge (fun c hc => hplain c (SessionStore.mem_matching.mp hc).1)
    (fun c hc => hfresh c (SessionStore.mem_matching.mp hc).1), List.mem_append, List.mem_filter,
    mem_matchingPairs, mem_matchingPairs, decide_eq_true_eq]
  refine or_congr_right (and_congr_right fun _ => not_congr ?_)
  rw [List.mem_map]
  refine exists_congr fun fresher => and_congr_left fun _ => ?_
  exact mem_matchingPairs

/-- The pairs of the engine's own jar: as in the jar that has everything when the run records
into it, and as before the run otherwise. -/
theorem enginePair_iff {session : Text} {store : SessionStore} {pre : List (Turn Url)}
    {turn : Turn Url}
    (hchain : turn.chain.chainJar = recordedAs network ctx spec chainSession pre .new)
    (hsessions : turn.engine.sessions = if ctx.recordCookies then
        recordedAs network ctx spec ctx.session pre store
      else store) {pair : Text} :
    EnginePair network session turn pair ↔
      KeptPair network ctx spec (store.jar session) pre turn pair ∨
        if ctx.recordCookies = true ∧ ctx.session = session then ChainPair network turn pair
        else StalePair network ctx spec (store.jar session) pre turn pair := by
  unfold EnginePair
  -- The run records into this session, or into another one, or not at all.
  by_cases hrec : ctx.recordCookies = true ∧ ctx.session = session
  · rw [if_pos hrec, hsessions, if_pos hrec.1, hrec.2]
    exact idealPair_iff hchain
  · have hjar : turn.engine.sessions.jar session = store.jar session := by
      rw [hsessions]
      by_cases hon : ctx.recordCookies = true
      · rw [if_pos hon]
        exact jar_recordedAs_of_ne (fun heq => hrec ⟨hon, heq.symm⟩) pre store
      · rw [if_neg hon]
    rw [if_neg hrec, hjar]
    constructor
    -- A cookie of the old jar was replaced by an answer or was not.
    · rintro ⟨c, hc, htakes, hpair⟩
      by_cases hreplaced : Replaced network ctx spec pre c
      · exact Or.inr ⟨c, hc, hreplaced, htakes, hpair⟩
      · exact Or.inl ⟨c, hc, hreplaced, htakes, hpair⟩
    · rintro (⟨c, hc, -, htakes, hpair⟩ | ⟨c, hc, -, htakes, hpair⟩)
      · exact ⟨c, hc, htakes, hpair⟩
      · exact ⟨c, hc, htakes, hpair⟩

/-- **A hop sends the cookies of its session when the jars do not get in each other's way.** For a
request that asks for a session, whose jar holds cookies that the parser made, in a run whose
turns take their clock readings in one moment: a turn's request sends the cookies that the jar of
the session would send, with the answers before it recorded, exactly if `HopClear` holds of what
came before it. -/
theorem hopAgrees_iff (platform : Platform) (network : Network Url) (ctx : RunContext)
    (spec : RequestSpec) (s s₁ : EngineState Url) (ready : Ready Url) (session : Option Text)
    (hauth : spec.auth = some (.session session))
    (hready : exec (makeReady platform network ctx spec false) s = (.ok ready, s₁))
    (hparsed : ∀ c ∈ s.sessions.jar (session.getD ctx.session),
      ∃ nowMs header host path, Cookie.parse nowMs header host path = some c)
    (hmoment : ∀ turn ∈ runTurns network ctx spec ready s₁, turn.OneMoment network ctx spec)
    (pre post : List (Turn Url)) (turn : Turn Url)
    (hsplit : runTurns network ctx spec ready s₁ = pre ++ turn :: post) :
    HopAgrees network ctx spec (session.getD ctx.session) s.sessions pre turn ↔
      HopClear network ctx spec (session.getD ctx.session)
        (s.sessions.jar (session.getD ctx.session)) pre turn := by
  have hsame : s₁.sessions = s.sessions := by
    have hbefore := makeReady_before platform network ctx spec false s
    rw [hready] at hbefore
    exact hbefore.sessions
  -- What the parser made and what was recorded since are plain pairs.
  have hplain : ∀ c ∈ s.sessions.jar (session.getD ctx.session), PlainPair c := by
    intro c hc
    obtain ⟨nowMs, header, host, path, hparse⟩ := hparsed c hc
    exact plainPair_of_parse hparse
  obtain ⟨hchain, hsessions⟩ := jars_of_turns hmoment hsplit
  have hclock : network.clock (turn.engine.ticks + 1) = network.clock turn.engine.ticks := by
    have hturn : turn ∈ runTurns network ctx spec ready s₁ := by
      rw [hsplit]
      exact List.mem_append_right _ List.mem_cons_self
    exact hmoment turn hturn 1 (by unfold Turn.readings; omega)
  rw [show (firstTurn spec ready s₁).chain.chainJar = .new from rfl] at hchain
  rw [show (firstTurn spec ready s₁).engine.sessions = s₁.sessions from rfl, hsame] at hsessions
  have hengine : ∀ c ∈ turn.engine.sessions.jar (session.getD ctx.session), PlainPair c := by
    rw [hsessions]
    by_cases hon : ctx.recordCookies = true
    · rw [if_pos hon]
      exact plainPair_of_recordedAs hplain
    · rw [if_neg hon]
      exact hplain
  -- What the jar would send that has everything: the pairs it had and kept, and the chain's.
  have hideal : ∀ pair, pair ∈ headerPairs ((recordedAs network ctx spec
      (session.getD ctx.session) pre s.sessions).cookieHeader (network.clock turn.engine.ticks)
        (session.getD ctx.session) (turn.host network) (turn.path network)
        (network.urls.scheme turn.chain.url = "https".toList)) ↔
      KeptPair network ctx spec (s.sessions.jar (session.getD ctx.session)) pre turn pair ∨
        ChainPair network turn pair := by
    intro pair
    rw [mem_headerPairs_cookieHeader (plainPair_of_recordedAs hplain)]
    exact idealPair_iff hchain
  -- What is sent: the pairs of the request, the chain's, and those of the engine's jar under other
  -- names.
  have hsent : ∀ pair, pair ∈ cookiePairs (turn.request network ctx spec).headers ↔
      pair ∈ cookiePairs turn.chain.headers ∨ ChainPair network turn pair ∨
        (EnginePair network (session.getD ctx.session) turn pair ∧
          ¬ Overridden network turn pair) := by
    intro pair
    rw [mem_cookiePairs_request]
    exact or_congr_right (mem_cookie hauth hchain hengine hclock)
  constructor
  -- Agreement gives each of the three clauses, by following a pair from one side to the other.
  · intro hagrees
    have hiff := fun pair => (hsent pair).symm.trans ((hagrees pair).trans (hideal pair))
    refine ⟨?own, ?kept, ?stale⟩
    case own =>
      intro pair hown
      exact (hiff pair).mp (Or.inl hown)
    case kept =>
      intro pair hkept hover
      rcases (hiff pair).mpr (Or.inl hkept) with hown | hfresh | ⟨-, hnot⟩
      · exact Or.inl hown
      · exact Or.inr hfresh
      · exact absurd hover hnot
    case stale =>
      intro hrec pair hstale hnot
      have hpair : EnginePair network (session.getD ctx.session) turn pair := by
        refine (enginePair_iff hchain hsessions).mpr (Or.inr ?_)
        rw [if_neg hrec]
        exact hstale
      rcases (hiff pair).mp (Or.inr (Or.inr ⟨hpair, hnot⟩)) with hkept | hfresh
      · exact hkept
      · exact absurd ⟨pair, hfresh, rfl⟩ hnot
  -- And with the clauses each pair of one side is found on the other.
  · intro hclear pair
    rw [hsent, hideal]
    constructor
    · rintro (hown | hfresh | ⟨hpair, hnot⟩)
      · exact hclear.own pair hown
      · exact Or.inr hfresh
      · rcases (enginePair_iff hchain hsessions).mp hpair with hkept | hrest
        · exact Or.inl hkept
        · by_cases hrec : ctx.recordCookies = true ∧ ctx.session = session.getD ctx.session
          · rw [if_pos hrec] at hrest
            exact Or.inr hrest
          · rw [if_neg hrec] at hrest
            exact Or.inl (hclear.stale hrec pair hrest hnot)
    · rintro (hkept | hfresh)
      · by_cases hover : Overridden network turn pair
        · exact (hclear.kept pair hkept hover).imp_right Or.inl
        · exact Or.inr (Or.inr
            ⟨(enginePair_iff hchain hsessions).mpr (Or.inl hkept), hover⟩)
      · exact Or.inr (Or.inl hfresh)

/-- A request from the default session. -/
def sessionRequest : RequestSpec := requestWithAuth (.session none)

/-- A server that redirects to a page of its own and sets a cookie. -/
def setsTheme : Network (Text × Text) :=
  scriptedNetwork [plainResponse 302 [("location".toList, "/home".toList),
    ("set-cookie".toList, "theme=dark".toList)]]

/-- After a redirect that sets a cookie of another name, the next hop sends both. -/
theorem hopAgrees_iff_login : ∃ ready s₁ first second,
    exec (makeReady emptyPlatform setsTheme defaultContext sessionRequest false) loggedIn
      = (.ok ready, s₁) ∧
    runTurns setsTheme defaultContext sessionRequest ready s₁ = [first, second] ∧
    cookiePairs (second.request setsTheme defaultContext sessionRequest).headers
      = ["theme=dark".toList, "sid=abc".toList] ∧
    HopAgrees setsTheme defaultContext sessionRequest "default".toList loggedIn.sessions [first]
      second := by
  have hrun : okWith
      (fun ready s₁ => pairWith
        (fun _ second =>
          decide (cookiePairs second.chain.headers = []) &&
          decide (((second.chain.chainJar.jar chainSession).map Cookie.pair)
            = ["theme=dark".toList]) &&
          decide (cookiePairs (second.request setsTheme defaultContext sessionRequest).headers
            = ["theme=dark".toList, "sid=abc".toList]))
        (runTurns setsTheme defaultContext sessionRequest ready s₁))
      (exec (makeReady emptyPlatform setsTheme defaultContext sessionRequest false) loggedIn)
      = true := by decide +kernel
  obtain ⟨ready, s₁, hready, hturns⟩ := exists_of_okWith hrun
  obtain ⟨first, second, hturns, hall⟩ := exists_of_pairWith hturns
  rw [Bool.and_eq_true, Bool.and_eq_true] at hall
  obtain ⟨⟨hown, hchain⟩, hsent⟩ := hall
  refine ⟨ready, s₁, first, second, hready, hturns, of_decide_eq_true hsent, ?_⟩
  refine (hopAgrees_iff emptyPlatform setsTheme defaultContext sessionRequest loggedIn s₁
    ready none rfl hready ?_ (fun _ _ _ _ => rfl) [first] [] second hturns).mpr ⟨?_, ?_, ?_⟩
  -- The session's cookie was made by the parser.
  · intro c hc
    have hparse : ∀ c ∈ loggedIn.sessions.jar "default".toList, Cookie.parse 0
        "sid=abc; Secure; HttpOnly".toList "app.test".toList "/".toList = some c := by decide
    exact ⟨_, _, _, _, hparse c hc⟩
  · intro pair hpair
    rw [of_decide_eq_true hown] at hpair
    exact absurd hpair List.not_mem_nil
  · -- The chain has `theme`, and the session `sid`.
    rintro pair ⟨c, hc, -, -, rfl⟩ ⟨fresher, ⟨fresh, hfresh, -, rfl⟩, hname⟩
    have hsid : ∀ c ∈ loggedIn.sessions.jar "default".toList, c.pair = "sid=abc".toList := by
      decide
    have htheme : fresh.pair = "theme=dark".toList := by
      have hmem := List.mem_map_of_mem (f := Cookie.pair) hfresh
      rw [of_decide_eq_true hchain] at hmem
      exact List.mem_singleton.mp hmem
    rw [hsid c hc, htheme] at hname
    exact absurd hname (by decide)
  · intro hrec
    exact absurd ⟨rfl, rfl⟩ hrec

/-- A server that redirects to a page of its own and sets a cookie for that page. -/
def setsPathCookie : Network (Text × Text) :=
  scriptedNetwork [plainResponse 302 [("location".toList, "/admin/x".toList),
    ("set-cookie".toList, "sid=new; Path=/admin".toList)]]

/-- After a redirect that sets `sid` for `/admin`, the session's own `sid` is not sent there. -/
theorem not_hopAgrees_paths : ¬ ∀ ready s₁,
    exec (makeReady emptyPlatform setsPathCookie defaultContext sessionRequest false) loggedIn
      = (.ok ready, s₁) →
    ∀ pre turn post, runTurns setsPathCookie defaultContext sessionRequest ready s₁
      = pre ++ turn :: post →
    HopAgrees setsPathCookie defaultContext sessionRequest "default".toList loggedIn.sessions pre
      turn := by
  intro hagrees
  have hrun : okWith
      (fun ready s₁ => pairWith
        (fun first second =>
          decide ("sid=abc".toList ∈ headerPairs ((recordedAs setsPathCookie defaultContext
            sessionRequest "default".toList [first] loggedIn.sessions).cookieHeader
              (setsPathCookie.clock second.engine.ticks) "default".toList
              (second.host setsPathCookie) (second.path setsPathCookie)
              (setsPathCookie.urls.scheme second.chain.url = "https".toList))) &&
          decide ("sid=abc".toList ∉ cookiePairs
            (second.request setsPathCookie defaultContext sessionRequest).headers))
        (runTurns setsPathCookie defaultContext sessionRequest ready s₁))
      (exec (makeReady emptyPlatform setsPathCookie defaultContext sessionRequest false) loggedIn)
      = true := by decide +kernel
  obtain ⟨ready, s₁, hready, hturns⟩ := exists_of_okWith hrun
  obtain ⟨first, second, hturns, hboth⟩ := exists_of_pairWith hturns
  rw [Bool.and_eq_true] at hboth
  -- The jar has the session's cookie for the second turn, and the turn does not send it.
  have hpair := (hagrees ready s₁ hready [first] second [] hturns "sid=abc".toList).mpr
    (of_decide_eq_true hboth.1)
  exact absurd hpair (of_decide_eq_true hboth.2)

end Gabriel.Engine
