import Gabriel.Proofs.Scope

/-!
# `Gabriel.Proofs.Destination`: interception and the place a request goes to

A `CONNECT` names a host and a port. A blind tunnel goes there. An intercepted tunnel keeps what
stands before the first colon, and a request inside it gets a URL built from that and its path.
This is the same place for a host without a colon, port 443 and a request that names a path, and
for nothing else.

`ReadsHttps` is what is used of the URL library: `https://host/path` is read as that host, in
lower case, and port 443, and a `*` after the host is a character of the host. An authority is a
structure (`Authority`), and its text is what `CONNECT` gets. The theorems:

* `tunnelAddress_text`: a blind tunnel goes where the `CONNECT` says.
* `url_of_sent`: the URL that a request inside the tunnel gets.
* `address_of_sent`: what sets out goes to the host and the port of the URL.
* `sets_out`: a request whose URL has a host sets out, when nothing stops it.
* `sameDestination_iff`: for every authority and request, interception keeps the destination exactly
  for a plain host, port 443 and a path.
-/

set_option autoImplicit false

namespace Gabriel.Proxy

open Gabriel.Core Gabriel.Engine Text

/-- A host name or an IPv4 address. -/
def IsPlainHost (host : Text) : Prop :=
  host ≠ [] ∧ ∀ c ∈ host, c.isAlphanum = true ∨ c ∈ ['-', '.', '_']

/-- An IPv6 address in brackets. -/
def IsBracketed (host : Text) : Prop :=
  ∃ address, host = '[' :: address ++ [']'] ∧ ':' ∈ address ∧
    ∀ c ∈ address, c.isAlphanum = true ∨ c ∈ [':', '.']

/-- What a `CONNECT` asks for. -/
structure Authority where
  host : Text
  port : UInt16
  form : IsPlainHost host ∨ IsBracketed host

/-- The authority as it is written. -/
def Authority.text (authority : Authority) : Text :=
  authority.host ++ ':' :: natText authority.port.toNat

/-- A blind tunnel goes where the `CONNECT` says. -/
theorem tunnelAddress_text (authority : Authority) :
    tunnelAddress authority.text = some (authority.host, authority.port) := by
  have hdigits : ':' ∉ natText authority.port.toNat :=
    fun h => absurd (isDigit_of_mem_natText h) (by decide)
  -- A port has only digits, so the last colon is the one before it.
  have hindex : rfind ':' authority.text = some authority.host.length := by
    have hmem : ':' ∈ authority.text := List.mem_append_right _ List.mem_cons_self
    have hreverse : authority.text.reverse.idxOf ':' = (natText authority.port.toNat).length := by
      unfold Authority.text
      rw [List.reverse_append, List.reverse_cons, List.append_assoc,
        List.idxOf_append_of_notMem (by rwa [List.mem_reverse]), List.length_reverse,
        List.singleton_append, List.idxOf_cons_self, Nat.add_zero]
    have hlength : authority.text.length
        = authority.host.length + ((natText authority.port.toNat).length + 1) := by
      rw [Authority.text, List.length_append, List.length_cons]
    rw [rfind, if_pos hmem, hreverse, hlength]
    congr 1
    omega
  have hdrop : authority.text.drop (authority.host.length + 1) = natText authority.port.toNat := by
    unfold Authority.text
    rw [List.drop_append, List.drop_of_length_le (Nat.le_succ _)]
    simp
  have htake : authority.text.take authority.host.length = authority.host := List.take_left
  have hport : authority.port.toNat < 65536 := authority.port.toNat_lt
  unfold tunnelAddress
  rw [hindex]
  show (do
    let port ← parseUsize (authority.text.drop (authority.host.length + 1))
    if port < 65536 then some (authority.text.take authority.host.length, UInt16.ofNat port)
      else none) = some (authority.host, authority.port)
  rw [hdrop, htake, parseUsize_natText (by omega)]
  show (if authority.port.toNat < 65536
    then some (authority.host, UInt16.ofNat authority.port.toNat) else none) = _
  rw [if_pos hport, UInt16.ofNat_toNat]

variable {Url : Type}

/-- What is used of the URL library for a host. -/
structure ReadsHttps (urls : UrlLib Url) (host : Text) : Prop where
  /-- A path or a query does not change the host, and the port is the one of `https`. -/
  path : ∀ path : Text, path.head? = some '/' ∨ path.head? = some '?' →
    ∃ url, urls.parse ("https://".toList ++ host ++ path) = .ok url ∧
      urls.hostStr url = some (asciiLower host) ∧ urls.portOrKnownDefault url = some 443
  /-- A star is a character of the host. -/
  asterisk : ∃ url, urls.parse ("https://".toList ++ host ++ ['*']) = .ok url ∧
    urls.hostStr url = some (asciiLower host ++ ['*'])

/-- A request inside the tunnel goes where the `CONNECT` said, which is also what the scope was
asked about and the certificate is for. -/
structure SameDestination (lib : HttpLib Url) (authority : Authority) (request : BrowserRequest) :
    Prop where
  /-- The scope is asked about the host, and TLS ends with a certificate for it. -/
  asked : ∀ (config : ProxyConfig) (connect : BrowserRequest),
    connect.uri.authority = some authority.text → (handleConnect config connect).2
      = some (if config.intercepts authority.host then .intercepted authority.host
          else .blind authority.text)
  /-- Every request that sets out goes to the host and the port. -/
  sent : ∀ (config : ProxyConfig) (state : ProxyState) (encounter : Encounter)
      (sent : UpstreamRequest),
    (dispatchHead lib config state request (innerUrl (connectHost authority.text) request)
      encounter).1.wire = state.wire ++ [sent] →
    eqIgnoreAsciiCase sent.host authority.host = true ∧ sent.port = authority.port

/-- Recording cookies sends nothing. -/
theorem wire_recordCookies (lib : HttpLib Url) (config : ProxyConfig) (state : ProxyState)
    (url : Text) (cookies : List Text) (clock : Nat → UInt64) :
    (recordCookies lib config state url cookies clock).wire = state.wire := by
  unfold recordCookies
  split
  · rfl
  · split <;> rfl

/-- What sets out goes to the host and the port of the URL. -/
theorem address_of_sent {lib : HttpLib Url} {config : ProxyConfig} {state : ProxyState}
    {request : BrowserRequest} {url : Text} {encounter : Encounter} {sent : UpstreamRequest}
    (h : (dispatchHead lib config state request url encounter).1.wire = state.wire ++ [sent]) :
    ∃ parsed, lib.urls.parse url = .ok parsed ∧ lib.urls.hostStr parsed = some sent.host ∧
      sent.port = (lib.urls.portOrKnownDefault parsed).getD 80 := by
  have hnothing : ¬ state.wire = state.wire ++ [sent] := by
    intro heq
    have hlength := congrArg List.length heq
    rw [List.length_append, List.length_singleton] at hlength
    omega
  have hone : ∀ one : UpstreamRequest, state.wire ++ [one] = state.wire ++ [sent] → sent = one :=
    fun one heq => (List.singleton_inj.mp (List.append_cancel_left heq)).symm
  unfold dispatchHead at h
  split at h
  · unfold relayUpgradeHead at h
    split at h
    · exact absurd h hnothing
    rename_i parsed hparse
    split at h
    · exact absurd h hnothing
    rename_i host hhost
    dsimp only at h
    split at h
    · exact absurd h hnothing
    -- The request has set out, whatever comes next.
    have hsent : sent = _ := hone _ (by
      split at h
      · exact h
      · split at h <;> exact h)
    exact ⟨parsed, hparse, by rw [hsent]; exact hhost, by rw [hsent]⟩
  · unfold forwardHead at h
    split at h
    · exact absurd h hnothing
    split at h
    · exact absurd h hnothing
    split at h
    · exact absurd h hnothing
    rename_i parsed hparse
    split at h
    · exact absurd h hnothing
    rename_i host hhost
    dsimp only at h
    have hsent : sent = _ := hone _ (by
      split at h
      · exact h
      · rw [wire_recordCookies] at h
        exact h)
    exact ⟨parsed, hparse, by rw [hsent]; exact hhost, by rw [hsent]⟩

/-- A request whose URL has a host sets out, when nothing stops it. -/
theorem sets_out {lib : HttpLib Url} {url host : Text} {parsed : Url}
    (hparse : lib.urls.parse url = .ok parsed) (hhost : lib.urls.hostStr parsed = some host)
    (config : ProxyConfig) (state : ProxyState) (request : BrowserRequest)
    (response : UpstreamResponse) :
    ∃ sent, (dispatchHead lib config state request url (answeredBy response)).1.wire
      = state.wire ++ [sent] := by
  unfold dispatchHead
  -- A handshake is relayed and everything else is forwarded, and both send first.
  split
  · refine ⟨⟨host, (lib.urls.portOrKnownDefault parsed).getD 80, request.method,
      lib.beforePath parsed, handshakeHeaders request.headers, []⟩, ?_⟩
    unfold relayUpgradeHead
    rw [hparse]
    dsimp only
    -- The answer of the server does not matter any more.
    rw [hhost]
    dsimp only
    unfold answeredBy upgradeConnectError
    dsimp only
    split
    · rfl
    · rfl
  · refine ⟨⟨host, (lib.urls.portOrKnownDefault parsed).getD 80, request.method,
      lib.urls.toText parsed, request.headers.entries.filter fun e => !isHopByHop e.1, []⟩, ?_⟩
    unfold forwardHead answeredBy
    dsimp only
    rw [hparse]
    dsimp only
    rw [hhost]
    dsimp only
    rw [wire_recordCookies]
    rfl

/-- The host of a plain authority is its host. -/
theorem connectHost_plain {host : Text} (h : IsPlainHost host) (rest : Text) :
    connectHost (host ++ ':' :: rest) = host := by
  have hcolon : ∀ c ∈ host, decide (c ≠ ':') = true := by
    intro c hc
    rcases h.2 c hc with halnum | hmark
    · refine decide_eq_true ?_
      rintro rfl
      exact absurd halnum (by decide)
    · refine decide_eq_true ?_
      rintro rfl
      exact absurd hmark (by decide)
  unfold connectHost
  rw [List.takeWhile_append_of_pos hcolon, List.takeWhile_cons_of_neg (by decide), List.append_nil]

/-- The host that `CONNECT` is taken to mean has no colon. -/
theorem colon_not_mem_connectHost (authority : Text) : ':' ∉ connectHost authority := by
  intro h
  have hkept := List.mem_takeWhile_imp h
  exact absurd hkept (by decide)

/-- The condition. -/
def Authority.KeepsDestination (authority : Authority) (request : BrowserRequest) : Prop :=
  IsPlainHost authority.host ∧ authority.port = 443 ∧ request.uri.pathAndQuery ≠ some ['*']

/-- A request with a path is sent to the asked host at port 443. -/
theorem sent_of_path {lib : HttpLib Url} {authority : Authority} {request : BrowserRequest}
    (hplain : IsPlainHost authority.host) (hlib : ReadsHttps lib.urls authority.host)
    (hpath : request.uri.pathAndQuery ≠ some ['*']) :
    ∃ url, lib.urls.parse (innerUrl (connectHost authority.text) request) = .ok url ∧
      lib.urls.hostStr url = some (asciiLower authority.host) ∧
      lib.urls.portOrKnownDefault url = some 443 := by
  unfold innerUrl Authority.text
  rw [connectHost_plain hplain]
  refine hlib.path _ ?_
  cases hform : request.uri.pathAndQuery with
  | none => exact Or.inl rfl
  | some path =>
    rcases request.uri.form path hform with hstar | hslash | hquery
    · exact absurd (hform.trans (congrArg some hstar)) hpath
    · exact Or.inl hslash
    · exact Or.inr hquery

/-- A proxy without a scope intercepts everything. -/
theorem handleConnect_everything (connect : BrowserRequest) (session authority : Text)
    (h : connect.uri.authority = some authority) :
    (handleConnect { session } connect).2 = some (.intercepted (connectHost authority)) := by
  unfold handleConnect
  rw [h]
  rfl

/-- A host that is asked about is plain, and what `CONNECT` is taken to mean. -/
theorem plain_of_asked {lib : HttpLib Url} {authority : Authority} {request : BrowserRequest}
    (h : SameDestination lib authority request) :
    connectHost authority.text = authority.host ∧ IsPlainHost authority.host := by
  have hasked := h.asked { session := [] }
    (bareRequest [] (authorityUri authority.text)) rfl
  rw [handleConnect_everything _ _ authority.text rfl] at hasked
  have hhost : connectHost authority.text = authority.host :=
    Tunnel.intercepted.inj (Option.some.inj hasked)
  refine ⟨hhost, ?_⟩
  rcases authority.form with hplain | ⟨address, hbracketed, hcolon, -⟩
  · exact hplain
  · -- What stands before a colon has none, and an address has one.
    refine absurd ?_ (colon_not_mem_connectHost authority.text)
    rw [hhost, hbracketed]
    exact List.mem_append_left _ (List.mem_cons_of_mem _ hcolon)

/-- The URL that a request inside the tunnel gets is of the host and the port. -/
theorem url_of_sent {lib : HttpLib Url} {authority : Authority} {request : BrowserRequest}
    (h : SameDestination lib authority request) {url : Url} {host : Text}
    (hparse : lib.urls.parse (innerUrl (connectHost authority.text) request) = .ok url)
    (hhost : lib.urls.hostStr url = some host) :
    eqIgnoreAsciiCase host authority.host = true ∧
      (lib.urls.portOrKnownDefault url).getD 80 = authority.port := by
  obtain ⟨sent, hwire⟩ := sets_out hparse hhost { session := [] } { sessions := .new } request
    ⟨200, ⟨[], fun _ h => absurd h List.not_mem_nil⟩, .ok []⟩
  obtain ⟨url', hparse', hhost', hport'⟩ := address_of_sent hwire
  have hurl : url' = url := Except.ok.inj (hparse'.symm.trans hparse)
  have hsent : sent.host = host := by
    rw [hurl, hhost] at hhost'
    exact (Option.some.inj hhost').symm
  have haddress := h.sent _ _ _ sent hwire
  rw [hsent, hport', hurl] at haddress
  exact haddress

/-- A star ends up in the host. -/
theorem not_asterisk_of_sent {lib : HttpLib Url} {authority : Authority}
    {request : BrowserRequest} (h : SameDestination lib authority request)
    (hlib : ReadsHttps lib.urls authority.host) : request.uri.pathAndQuery ≠ some ['*'] := by
  intro hstar
  obtain ⟨url, hparse, hurlhost⟩ := hlib.asterisk
  have hinner : innerUrl (connectHost authority.text) request
      = "https://".toList ++ authority.host ++ ['*'] := by
    unfold innerUrl
    rw [(plain_of_asked h).1, hstar]
    rfl
  rw [← hinner] at hparse
  have hsame := eqIgnoreAsciiCase_iff.mp (url_of_sent h hparse hurlhost).1
  have hlength := congrArg List.length hsame
  unfold asciiLower at hlength
  rw [List.length_map, List.length_append, List.length_map, List.length_singleton] at hlength
  omega

/-- Lower case is the host up to case. -/
theorem eqIgnoreAsciiCase_asciiLower (host : Text) :
    eqIgnoreAsciiCase (asciiLower host) host = true := by
  rw [eqIgnoreAsciiCase_iff]
  unfold asciiLower
  rw [List.map_map]
  exact List.map_congr_left fun c _ => Char.toLower_toLower_eq_toLower c

/-- **Interception keeps the destination for a plain host, port 443 and a path, and for nothing
else.** The blind tunnel goes to the host and the port of every authority. -/
theorem sameDestination_iff (lib : HttpLib Url) (authority : Authority) (request : BrowserRequest)
    (hlib : IsPlainHost authority.host → ReadsHttps lib.urls authority.host) :
    tunnelAddress authority.text = some (authority.host, authority.port) ∧
    (SameDestination lib authority request ↔ authority.KeepsDestination request) := by
  refine ⟨tunnelAddress_text authority, ?_, ?_⟩
  -- Where the source reads a destination, it is that of the URL that was put together.
  · intro hsame
    have hplain := (plain_of_asked hsame).2
    have hpath := not_asterisk_of_sent hsame (hlib hplain)
    refine ⟨hplain, ?_, hpath⟩
    obtain ⟨url, hparse, hurlhost, hport⟩ := sent_of_path hplain (hlib hplain) hpath
    rw [← (url_of_sent hsame hparse hurlhost).2, hport]
    rfl
  -- A plain host comes back as it was, and the URL has the default port.
  · rintro ⟨hplain, hport, hpath⟩
    constructor
    · intro config connect hconnect
      have hhost : connectHost authority.text = authority.host := connectHost_plain hplain _
      unfold handleConnect
      rw [hconnect]
      dsimp only
      rw [hhost]
    · intro config state encounter sent hwire
      obtain ⟨url, hparse, hurlhost, hurlport⟩ := sent_of_path hplain (hlib hplain) hpath
      obtain ⟨url', hparse', hhost', hport'⟩ := address_of_sent hwire
      have hurl : url' = url := Except.ok.inj (hparse'.symm.trans hparse)
      rw [hurl, hurlhost] at hhost'
      rw [hurl, hurlport] at hport'
      refine ⟨?_, hport'.trans hport.symm⟩
      rw [← Option.some.inj hhost']
      exact eqIgnoreAsciiCase_asciiLower authority.host

/-- The name of an API. -/
def apiHost : Text := "api.test".toList

/-- The host of the sample is plain. -/
theorem isPlainHost_apiHost : IsPlainHost apiHost :=
  ⟨List.cons_ne_nil _ _, forall_mem_of_all (by decide +kernel)⟩

/-- The API at a port. -/
def apiAt (port : UInt16) : Authority := ⟨apiHost, port, Or.inl isPlainHost_apiHost⟩

/-- The small library reads the `https` URLs of a plain host. -/
theorem plainUrls_readsHttps {host : Text} (h : IsPlainHost host) : ReadsHttps plainUrls host := by
  -- A plain host has none of the characters that end the authority.
  have hname : ∀ c ∈ host, decide (c ∉ ['/', '?', '#']) = true := by
    intro c hc
    refine decide_eq_true ?_
    intro hend
    rcases h.2 c hc with halnum | hmark
    · fin_cases hend <;> exact absurd halnum (by decide)
    · fin_cases hend <;> exact absurd hmark (by decide)
  have hread : ∀ rest : Text, plainUrls.parse ("https://".toList ++ host ++ rest)
      = .ok (true, asciiLower ((host ++ rest).takeWhile fun c => c ∉ ['/', '?', '#']),
        (host ++ rest).dropWhile fun c => c ∉ ['/', '?', '#']) := by
    intro rest
    unfold plainUrls
    dsimp only
    rw [List.append_assoc, if_pos (List.prefix_append _ _)]
    rfl
  constructor
  -- A path starts with a slash or a question mark, so the host ends there.
  · intro path hpath
    refine ⟨_, hread path, ?_, rfl⟩
    show some (asciiLower _) = _
    rw [List.takeWhile_append_of_pos hname]
    cases path with
    | nil => exact absurd hpath (by simp)
    | cons c path =>
      have hend : c ∈ ['/', '?', '#'] := by
        rcases hpath with hslash | hquery
        · rw [show c = '/' from Option.some.inj hslash]
          decide
        · rw [show c = '?' from Option.some.inj hquery]
          decide
      rw [List.takeWhile_cons_of_neg (by rwa [decide_eq_true_iff, not_not]), List.append_nil]
  -- The asterisk does not end the host, so the two run together.
  · refine ⟨_, hread ['*'], ?_⟩
    show some (asciiLower _) = _
    rw [List.takeWhile_append_of_pos hname]
    show some (asciiLower (host ++ ['*'])) = _
    unfold asciiLower
    rw [List.map_append]
    rfl

/-- A request for a page of the API goes there. -/
theorem sameDestination_iff_api : SameDestination plainLib (apiAt 443) getLogin :=
  (sameDestination_iff plainLib (apiAt 443) getLogin plainUrls_readsHttps).2.mpr
    ⟨isPlainHost_apiHost, rfl, by decide⟩

/-- A request inside a tunnel to port 8443 does not. -/
theorem not_sameDestination_port :
    ¬ ∀ (authority : Authority) (request : BrowserRequest),
      SameDestination plainLib authority request := by
  intro h
  have hread : plainUrls.parse (innerUrl (connectHost (apiAt 8443).text) getLogin)
      = .ok (true, apiHost, "/login".toList) := by decide +kernel
  obtain ⟨sent, hwire⟩ := @sets_out _ plainLib _ _ _ hread rfl { session := [] }
    { sessions := .new } getLogin loginPage
  obtain ⟨url, hparse, -, hport⟩ := address_of_sent hwire
  have hsent := ((h (apiAt 8443) getLogin).sent _ _ _ sent hwire).2
  rw [hport, ← Except.ok.inj (hread.symm.trans hparse)] at hsent
  exact absurd hsent (by decide)

end Gabriel.Proxy
