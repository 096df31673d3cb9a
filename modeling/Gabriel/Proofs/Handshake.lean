import Gabriel.Engine.Websocket
import Gabriel.Proofs.Report

/-!
# `Gabriel.Proofs.Handshake`: is a socket opened with what a request is sent with?

`run` of the WebSocket client prepares its request by itself. `SocketAgrees` says that it opens
the socket with the URL and the headers that `prepare` gives for the same request file.

The two take the same steps on the resolver, except for the query and an API key. `Reading` names
what each step gives, so that both preparations are read off one list of results (`prepare_ok`,
`makeHandshake_ok`). `UrlRules` is what is used of the URL library: that the text of a URL is
read back, that a scheme is read in any case, what becomes of white space around a URL, and that
pairs are added to the end.

The URL of a socket is the resolved text, so it is the prepared one only when nothing is added
to it and the text is as the library writes it. The headers go through a map with one value for
each name, so a header is lost when another one of its name comes after it. The theorems:

* `toWebsocketUrl_ok`: only the scheme of a URL is changed, and only its case and the white space
  around it go.
* `url_agrees_iff`: when the URL of the socket is the prepared one.
* `mem_insertHeaders`: of each name the handshake has the last pair that was put in.
* `added_eq_iff`: adding the query and an API key leaves the URL as it is when there is nothing to
  add.
* `socketAgrees_iff`: the two agree exactly when the URL is kept and every pair is (`Transfers`).

`webUrls` is a small library that obeys the rules (`webUrls_rules`).
-/

set_option autoImplicit false

namespace Gabriel.Engine.Websocket

open Gabriel.Core Text Fallible

variable {Url : Type}

/-! ### The URL of a socket -/

/-- The schemes of web URLs. -/
def webSchemes : List Text := ["http".toList, "https".toList]

/-- The scheme of a socket, for the scheme of a web URL. -/
def socketScheme (scheme : Text) : Text :=
  if scheme = "https".toList then "wss".toList else "ws".toList

/-- The text of a web URL, with the scheme of a socket. -/
def asSocketUrl (text : Text) : Text :=
  if "https://".toList <+: text then "wss".toList ++ text.drop 5
  else if "http://".toList <+: text then "ws".toList ++ text.drop 4
  else text

/-- What is used of the URL library. -/
structure UrlRules (urls : UrlLib Url) : Prop where
  /-- The text of a URL is read back. -/
  parse_toText : ∀ u, urls.parse (urls.toText u) = .ok u
  /-- The text of a web URL begins with its scheme. -/
  toText_web : ∀ u, urls.scheme u ∈ webSchemes →
    ∃ rest, urls.toText u = urls.scheme u ++ "://".toList ++ rest
  /-- A scheme is read in any case, and kept in lower case. -/
  parse_scheme : ∀ scheme rest u,
    asciiLower scheme ∈ ["http".toList, "https".toList, "ws".toList, "wss".toList] →
    urls.parse (scheme ++ "://".toList ++ rest) = .ok u →
    urls.scheme u = asciiLower scheme
      ∧ urls.parse (asciiLower scheme ++ "://".toList ++ rest) = .ok u
  /-- White space before a URL is dropped, or the text is no URL. -/
  parse_dropBlanks : ∀ text u, urls.parse text = .ok u →
    urls.parse (text.dropWhile isWhitespace) = .ok u
  /-- White space after the text of a URL is dropped, or it is encoded and becomes a part of it. -/
  parse_blanks : ∀ u v blanks, (∀ c ∈ blanks, isWhitespace c = true) →
    urls.parse (urls.toText v ++ blanks) = .ok u →
    urls.toText u = urls.toText v ∨ (urls.toText v).length < (urls.toText u).length
  /-- A pair that is added to the query makes the text longer. -/
  appendPairs_length : ∀ u pairs,
    (urls.toText u).length + pairs.length ≤ (urls.toText (urls.appendPairs u pairs)).length
  appendPairs_scheme : ∀ u pairs, urls.scheme (urls.appendPairs u pairs) = urls.scheme u
  appendPairs_hostStr : ∀ u pairs, urls.hostStr (urls.appendPairs u pairs) = urls.hostStr u
  appendPairs_path : ∀ u pairs, urls.path (urls.appendPairs u pairs) = urls.path u
  /-- The URL of a socket is read like the one of the web. -/
  parse_socket : ∀ u, urls.scheme u ∈ webSchemes →
    ∃ w, urls.parse (asSocketUrl (urls.toText u)) = .ok w
      ∧ urls.scheme w = socketScheme (urls.scheme u) ∧ urls.hostStr w = urls.hostStr u
      ∧ urls.path w = urls.path u

section Url

/-- The text of a web URL with the scheme of a socket. -/
theorem asSocketUrl_web {scheme : Text} (h : scheme ∈ webSchemes) (rest : Text) :
    asSocketUrl (scheme ++ "://".toList ++ rest) = socketScheme scheme ++ "://".toList ++ rest := by
  rcases List.mem_cons.mp h with rfl | h
  · rfl
  · obtain rfl := List.mem_singleton.mp h
    rfl

/-- Only the scheme of a URL is changed, and only its case and the white space around it go. -/
theorem toWebsocketUrl_ok {text url : Text} (h : toWebsocketUrl text = .ok url) :
    ∃ scheme rest, trim text = scheme ++ "://".toList ++ rest
      ∧ asciiLower scheme ∈ ["http".toList, "https".toList, "ws".toList, "wss".toList]
      ∧ (asciiLower scheme ∈ webSchemes →
        url = socketScheme (asciiLower scheme) ++ "://".toList ++ rest) := by
  unfold toWebsocketUrl at h
  dsimp only at h
  -- Without `://` there is an error. The two `match` arms of the source give `ws` and `wss`.
  cases hsplit : splitOnce "://".toList (trim text) with
  | none =>
    rw [hsplit] at h
    exact nomatch h
  | some parts =>
    obtain ⟨scheme, rest⟩ := parts
    rw [hsplit] at h
    dsimp only at h
    refine ⟨scheme, rest, eq_of_splitOnce hsplit, ?_⟩
    -- The plain schemes; `ws` is none of the web schemes of the last clause.
    by_cases hplain : asciiLower scheme ∈ ["ws".toList, "http".toList]
    · rw [if_pos hplain] at h
      dsimp only at h
      split at h
      · exact nomatch h
      · obtain rfl := Except.ok.inj h
        rcases List.mem_cons.mp hplain with hws | hhttp
        · rw [hws]
          exact ⟨by decide, fun hweb => absurd hweb (by decide)⟩
        · rw [List.mem_singleton.mp hhttp]
          exact ⟨by decide, fun _ => rfl⟩
    · rw [if_neg hplain] at h
      -- The secure ones, and then no scheme is left that the source accepts.
      by_cases hsecure : asciiLower scheme ∈ ["wss".toList, "https".toList]
      · rw [if_pos hsecure] at h
        dsimp only at h
        split at h
        · exact nomatch h
        · obtain rfl := Except.ok.inj h
          rcases List.mem_cons.mp hsecure with hwss | hhttps
          · rw [hwss]
            exact ⟨by decide, fun hweb => absurd hweb (by decide)⟩
          · rw [List.mem_singleton.mp hhttps]
            exact ⟨by decide, fun _ => rfl⟩
      · rw [if_neg hsecure] at h
        exact nomatch h

variable {urls : UrlLib Url}

/-- A text is the text of one URL. -/
theorem eq_of_toText (rules : UrlRules urls) {u v : Url}
    (h : urls.toText u = urls.toText v) : u = v := by
  have hu := rules.parse_toText u
  rw [h, rules.parse_toText v] at hu
  exact (Except.ok.inj hu).symm

/-- The URL of the socket is that of another URL, which is no shorter than the resolved one, when
the two are the same and the text is as the library writes it. -/
theorem url_agrees_iff (rules : UrlRules urls) {text url : Text} {u v : Url}
    (hparse : urls.parse text = .ok u) (hweb : urls.scheme u ∈ webSchemes)
    (hurl : toWebsocketUrl text = .ok url)
    (hscheme : urls.scheme v = urls.scheme u)
    (hlength : (urls.toText u).length ≤ (urls.toText v).length) :
    url = asSocketUrl (urls.toText v) ↔ url = asSocketUrl (urls.toText u) ∧ v = u := by
  constructor
  · intro hagree
    obtain ⟨scheme, rest, htrim, hknown, hsocket⟩ := toWebsocketUrl_ok hurl
    -- The resolved text is the trimmed one, with white space around it.
    have hblanks : text.dropWhile isWhitespace = trim text
        ++ (text.dropWhile isWhitespace).rtakeWhile isWhitespace :=
      (List.rdropWhile_append_rtakeWhile).symm
    have hdropped := rules.parse_dropBlanks text u hparse
    rw [hblanks, htrim, List.append_assoc] at hdropped
    obtain ⟨hlower, hread⟩ := rules.parse_scheme scheme _ u hknown hdropped
    rw [hlower] at hweb hscheme
    have hother : urls.scheme v ∈ webSchemes := by rw [hscheme]; exact hweb
    obtain ⟨rest', hrest'⟩ := rules.toText_web v hother
    rw [hscheme] at hrest'
    -- Both are URLs of a socket with that scheme, so what follows is the same.
    have hsame : rest = rest' := by
      rw [hsocket hweb, hrest', asSocketUrl_web hweb] at hagree
      exact List.append_cancel_left hagree
    have htext : urls.toText v = asciiLower scheme ++ "://".toList ++ rest := by
      rw [hrest', hsame]
    rw [← List.append_assoc, ← htext] at hread
    have hlast : ∀ c ∈ (text.dropWhile isWhitespace).rtakeWhile isWhitespace,
        isWhitespace c = true := fun c hc => List.mem_rtakeWhile_imp hc
    have huv : urls.toText u = urls.toText v := by
      rcases rules.parse_blanks u v _ hlast hread with hequal | hlonger
      · exact hequal
      · omega
    rw [huv]
    exact ⟨hagree, (eq_of_toText rules huv).symm⟩
  · rintro ⟨hagree, rfl⟩
    exact hagree

end Url

/-! ### The headers of a socket -/

section Headers

/-- The value that the last pair of a name has, in any case. -/
def lastValue (pairs : List (Text × Text)) (name : Text) : Option Text :=
  (pairs.reverse.find? fun e => asciiLower e.1 = name).map (·.2)

/-- What is in a header map after an insertion: the new value under its name, and the others. -/
theorem mem_insertHeader (headers : List (Text × Text)) (name value : Text) (e : Text × Text) :
    e ∈ insertHeader headers name value
      ↔ if e.1 = asciiLower name then e.2 = value else e ∈ headers := by
  obtain ⟨n, v⟩ := e
  unfold insertHeader
  dsimp only
  -- An entry of the name is replaced where it stands, or the pair is appended.
  by_cases hany : headers.any (·.1 = asciiLower name) = true
  · rw [if_pos hany]
    obtain ⟨old, hold, hname⟩ := List.any_eq_true.mp hany
    have hname : old.1 = asciiLower name := of_decide_eq_true hname
    by_cases hn : n = asciiLower name
    · rw [if_pos hn]
      constructor
      · intro hmem
        obtain ⟨e, -, he⟩ := List.mem_map.mp hmem
        split at he
        · exact (Prod.mk.inj he).2.symm
        · rename_i hno
          obtain rfl := he
          exact absurd hn hno
      · intro hv
        refine List.mem_map.mpr ⟨old, hold, ?_⟩
        rw [if_pos hname, hn, hv]
    · rw [if_neg hn]
      constructor
      · intro hmem
        obtain ⟨e, he, heq⟩ := List.mem_map.mp hmem
        split at heq
        · exact absurd (Prod.mk.inj heq).1.symm hn
        · obtain rfl := heq
          exact he
      · intro hmem
        exact List.mem_map.mpr ⟨(n, v), hmem, if_neg hn⟩
  · rw [if_neg hany]
    -- No entry has the name, so that only the new pair can have it.
    have hnone : ∀ e ∈ headers, e.1 ≠ asciiLower name := by
      intro e he hname
      exact hany (List.any_eq_true.mpr ⟨e, he, decide_eq_true hname⟩)
    rw [List.mem_append, List.mem_singleton, Prod.mk.injEq]
    by_cases hn : n = asciiLower name
    · rw [if_pos hn]
      constructor
      · rintro (hmem | ⟨-, hv⟩)
        · exact absurd hn (hnone (n, v) hmem)
        · exact hv
      · exact fun hv => .inr ⟨hn, hv⟩
    · rw [if_neg hn]
      constructor
      · rintro (hmem | ⟨hno, -⟩)
        · exact hmem
        · exact absurd hno hn
      · exact .inl

/-- Whether a pair is in a handshake: it is the last of its name, or one of the library's own. -/
def Kept (base pairs : List (Text × Text)) (e : Text × Text) : Prop :=
  match lastValue pairs (asciiLower e.1) with
  | some value => e.2 = value
  | none => (asciiLower e.1, e.2) ∈ base

/-- The last value of a name: one of the rest, or else the first pair. -/
theorem lastValue_cons (first : Text × Text) (pairs : List (Text × Text)) (name : Text) :
    lastValue (first :: pairs) name
      = (lastValue pairs name).or (if asciiLower first.1 = name then some first.2 else none) := by
  unfold lastValue
  rw [List.reverse_cons, List.find?_append]
  cases pairs.reverse.find? fun e => asciiLower e.1 = name with
  | some e => rfl
  | none =>
    rw [Option.none_or, Option.map_none, Option.none_or, List.find?_singleton]
    by_cases hname : asciiLower first.1 = name
    · rw [if_pos (decide_eq_true hname), if_pos hname]
      rfl
    · rw [if_neg (by rwa [decide_eq_true_eq]), if_neg hname]
      rfl

/-- The headers of a handshake: of each name the last pair that was put in. -/
theorem mem_insertHeaders {lib : SocketLib} {pairs base headers : List (Text × Text)}
    (h : insertHeaders lib pairs base = .ok headers) (e : Text × Text) :
    (asciiLower e.1, e.2) ∈ headers ↔ Kept base pairs e := by
  unfold Kept
  induction pairs generalizing base with
  | nil =>
    obtain rfl := Except.ok.inj h
    exact Iff.rfl
  | cons first pairs ih =>
    obtain ⟨name, value⟩ := first
    unfold insertHeaders at h
    split at h
    · exact nomatch h
    · split at h
      · exact nomatch h
      -- What comes last under a name decides: a later pair if there is one, else the first one.
      · rw [ih h, lastValue_cons]
        cases hlast : lastValue pairs (asciiLower e.1) with
        | some last => rfl
        | none =>
          dsimp only
          rw [mem_insertHeader, Option.none_or]
          dsimp only
          by_cases hname : asciiLower name = asciiLower e.1
          · rw [if_pos hname.symm, if_pos hname]
          · rw [if_neg (Ne.symm hname), if_neg hname]

/-- All pairs of a list are kept when those of one name have one value. -/
theorem kept_all_iff (base pairs : List (Text × Text)) :
    (∀ e ∈ pairs, Kept base pairs e)
      ↔ ∀ a ∈ pairs, ∀ b ∈ pairs, asciiLower a.1 = asciiLower b.1 → a.2 = b.2 := by
  -- Each pair has a last pair of its name, and this one is kept.
  have hsome : ∀ e ∈ pairs, ∃ last ∈ pairs, asciiLower last.1 = asciiLower e.1
      ∧ lastValue pairs (asciiLower e.1) = some last.2 := by
    intro e he
    cases hfind : pairs.reverse.find? fun d => asciiLower d.1 = asciiLower e.1 with
    | none =>
      have hno := List.find?_eq_none.mp hfind e (List.mem_reverse.mpr he)
      exact absurd (decide_eq_true rfl) hno
    | some last =>
      have hname := List.find?_some hfind
      refine ⟨last, List.mem_reverse.mp (List.mem_of_find?_eq_some hfind),
        of_decide_eq_true hname, ?_⟩
      unfold lastValue
      rw [hfind]
      rfl
  constructor
  -- Two pairs of one name are both kept, so that both have the value of the last pair.
  · intro hkept a ha b hb hname
    obtain ⟨last, -, -, hlast⟩ := hsome a ha
    have hka := hkept a ha
    have hkb := hkept b hb
    unfold Kept at hka hkb
    rw [← hname, hlast] at hkb
    rw [hlast] at hka
    exact hka.trans hkb.symm
  · intro hone e he
    obtain ⟨last, hmem, hname, hlast⟩ := hsome e he
    unfold Kept
    rw [hlast]
    exact hone e he last hmem hname.symm

end Headers

/-! ### The two preparations -/

section Steps

variable (platform : Platform) (network : Network Url) (ctx : RunContext) (spec : RequestSpec)

/-- An authentication that is no API key. -/
def withoutKey : Option Auth → Option Auth
  | some (.apiKey _ _ _) => none
  | auth => auth

/-- The pairs of a request's own headers, and those of its authentication. -/
def requestPairs (u : Url) (auth : Option Auth) : EngineM Url (List (Text × Text)) := do
  let headers ← onResolver (liftCore (Resolver.resolveMap platform.world spec.headers))
  let (_, known) ← applyKnownAuth platform network u auth
  pure (headers.iterPairs ++ known)

/-- The session's cookies for a URL, as a header. -/
def cookiePairsFor (s : EngineState Url) (u : Url) : List (Text × Text) :=
  ((sessionCookie network.urls ctx spec.auth s.sessions (network.clock s.ticks) u).map
    fun cookie => ("Cookie".toList, cookie)).toList

/-- What the steps of the two preparations give. The dry run resolves the query before the headers,
and the API key after them. -/
structure Reading (s : EngineState Url) (text : Text) (u : Url) (query : FieldMap)
    (prepared opened : List (Text × Text)) : Prop where
  web : network.urls.scheme u ∈ webSchemes
  parsed : network.urls.parse text = .ok u
  resolved : ∃ s₁ s₂ : EngineState Url, exec (resolveText platform spec.url) s = (.ok text, s₁)
    ∧ exec (onResolver (liftCore (Resolver.resolveMap platform.world spec.query))) s₁
      = (.ok query, s₂)
    ∧ (exec (requestPairs platform network spec u spec.auth) s₂).1 = .ok prepared
    ∧ (exec (requestPairs platform network spec u (withoutKey spec.auth)) s₁).1 = .ok opened

/-- The socket is opened with the URL and the headers of the prepared request. -/
structure SocketAgrees (prepared : SentRequest) (handshake : Handshake) : Prop where
  url : handshake.url = asSocketUrl prepared.url
  headers : ∀ e ∈ prepared.headers, (asciiLower e.1, e.2) ∈ handshake.headers

/-- What it takes: the URL is as the library writes it and nothing is added to it, and every
prepared pair is the last of its name among those that go into the handshake. -/
structure Transfers (lib : SocketLib) (s : EngineState Url) (text : Text) (u : Url)
    (query : FieldMap) (prepared opened : List (Text × Text)) : Prop where
  plain : toWebsocketUrl text = .ok (asSocketUrl (network.urls.toText u))
  noQuery : query.isEmpty = true
    ∨ query.iterPairs = [] ∧ network.urls.appendPairs u [] = u
  noKey : ∀ key value, spec.auth ≠ some (.apiKey key value .query)
  kept : ∀ base, lib.intoClientRequest (asSocketUrl (network.urls.toText u)) = .ok base →
    ∀ e ∈ prepared ++ cookiePairsFor network ctx spec s u,
      Kept base (opened ++ cookiePairsFor network ctx spec s u) e

end Steps

section Agree

variable {platform : Platform} {network : Network Url} {lib : SocketLib} {ctx : RunContext}
  {spec : RequestSpec} {s t : EngineState Url} {handshake : Handshake} {prepared sent : SentRequest}

/-- The steps of a handshake. -/
theorem makeHandshake_ok
    (h : exec (makeHandshake platform network lib ctx spec []) s = (.ok (handshake, sent), t)) :
    ∃ text s₁ base headers s₂ auth, exec (resolveText platform spec.url) s = (.ok text, s₁)
      ∧ toWebsocketUrl text = .ok handshake.url
      ∧ lib.intoClientRequest handshake.url = .ok base
      ∧ exec (onResolver (liftCore (Resolver.resolveMap platform.world spec.headers))) s₁
        = (.ok headers, s₂)
      ∧ exec (authHeaders platform network ctx handshake.url spec.auth) s₂ = (.ok auth, t)
      ∧ insertHeaders lib (headers.iterPairs ++ auth) base = .ok handshake.headers := by
  -- Peel the `do` block off, step by step; a step that fails contradicts the success.
  unfold makeHandshake at h
  obtain ⟨text, s₁, htext, h⟩ := exec_bind_eq_ok.mp h
  cases hurl : toWebsocketUrl text with
  | error error =>
    rw [hurl] at h
    exact nomatch congrArg Prod.fst h
  | ok url =>
    rw [hurl] at h
    dsimp only at h
    cases hbase : lib.intoClientRequest url with
    | error message =>
      rw [hbase] at h
      exact nomatch congrArg Prod.fst h
    | ok base =>
      rw [hbase] at h
      dsimp only at h
      obtain ⟨headers, s₂, hheaders, h⟩ := exec_bind_eq_ok.mp h
      obtain ⟨auth, s₃, hauth, h⟩ := exec_bind_eq_ok.mp h
      rw [if_pos rfl, List.append_nil] at h
      cases hinsert : insertHeaders lib (headers.iterPairs ++ auth) base with
      | error error =>
        rw [hinsert] at h
        exact nomatch congrArg Prod.fst h
      | ok out =>
        rw [hinsert] at h
        obtain ⟨hout, rfl⟩ := Prod.mk.inj h
        obtain ⟨rfl, -⟩ := Prod.mk.inj (Except.ok.inj hout)
        exact ⟨text, s₁, base, headers, s₂, auth, htext, hurl, hbase, hheaders, hauth, hinsert⟩

/-- The authentication of a handshake is the known one without an API key, and the session's
cookies for the URL of the socket. -/
theorem authHeaders_ok {auth : Option Auth} (hauth : ∀ config, auth ≠ some (.oAuth2 config))
    {url : Text} {u w : Url} (hread : network.urls.parse url = .ok w)
    (hscheme : network.urls.scheme w = "wss".toList ↔ network.urls.scheme u = "https".toList)
    (hhost : network.urls.hostStr w = network.urls.hostStr u)
    (hpath : network.urls.path w = network.urls.path u) {pairs : List (Text × Text)}
    (h : exec (authHeaders platform network ctx url auth) s = (.ok pairs, t)) :
    ∃ known t', exec (applyKnownAuth platform network u (withoutKey auth)) s = (.ok (u, known), t')
      ∧ pairs = known ++ ((sessionCookie network.urls ctx auth s.sessions (network.clock s.ticks)
        u).map fun cookie => ("Cookie".toList, cookie)).toList := by
  have hplain : ∀ {pairs' : List (Text × Text)}, exec (pure pairs' : EngineM Url _) s
      = (.ok pairs, t)
      → pairs = pairs' := fun hpure => (Except.ok.inj (Prod.mk.inj hpure).1).symm
  -- Only a session adds to what is known, and its cookies are asked for by the URL of the socket.
  cases auth with
  | none => exact ⟨[], s, rfl, hplain h⟩
  | some auth =>
    cases auth with
    | oAuth2 config => exact absurd rfl (hauth config)
    | bearer token =>
      obtain ⟨text, s₁, htext, hpure⟩ := exec_bind_eq_ok.mp h
      refine ⟨_, _, exec_bind_ok htext, ?_⟩
      rw [show sessionCookie network.urls ctx (some (.bearer token)) s.sessions
        (network.clock s.ticks) u = none from rfl]
      exact ((Except.ok.inj (Prod.mk.inj hpure).1).symm.trans (List.append_nil _).symm)
    | basic username password =>
      obtain ⟨name, s₁, hname, h⟩ := exec_bind_eq_ok.mp h
      obtain ⟨word, s₂, hword, hpure⟩ := exec_bind_eq_ok.mp h
      refine ⟨_, _, (exec_bind_ok hname).trans (exec_bind_ok hword), ?_⟩
      rw [show sessionCookie network.urls ctx (some (.basic username password)) s.sessions
        (network.clock s.ticks) u = none from rfl]
      exact ((Except.ok.inj (Prod.mk.inj hpure).1).symm.trans (List.append_nil _).symm)
    -- The cookies depend on scheme, host and path alone, in which the two URLs agree.
    | session name =>
      refine ⟨[], s, rfl, ?_⟩
      unfold authHeaders at h
      dsimp only at h
      rw [hread] at h
      dsimp only at h
      rw [hhost, hpath, decide_eq_decide.mpr hscheme] at h
      exact (Except.ok.inj (Prod.mk.inj h).1).symm
    | _ => exact ⟨[], s, rfl, hplain h⟩

/-- The steps of the dry run of a request without a body. -/
theorem prepare_ok {pending : Bool}
    (h : exec (prepare platform network ctx { spec with body := none }) s
      = (.ok (prepared, pending), t)) :
    ∃ text s₁ u query s₂ headers s₃ v known s₄,
      exec (resolveText platform spec.url) s = (.ok text, s₁) ∧ network.urls.parse text = .ok u
      ∧ exec (onResolver (liftCore (Resolver.resolveMap platform.world spec.query))) s₁
        = (.ok query, s₂)
      ∧ exec (onResolver (liftCore (Resolver.resolveMap platform.world spec.headers))) s₂
        = (.ok headers, s₃)
      ∧ exec (applyKnownAuth platform network
          (if query.isEmpty then u else network.urls.appendPairs u query.iterPairs) spec.auth) s₃
        = (.ok (v, known), s₄)
      ∧ prepared.url = network.urls.toText v
      ∧ prepared.headers = headers.iterPairs ++ known ++ cookiePairsFor network ctx spec s₄ v := by
  unfold prepare at h
  obtain ⟨parts, s₃, hparts, hauth⟩ := exec_bind_eq_ok.mp h
  obtain ⟨⟨v, known⟩, s₄, hknown, hlast⟩ := exec_bind_eq_ok.mp hauth
  clear h hauth
  unfold prepareParts at hparts
  obtain ⟨text, s₁, htext, hparts⟩ := exec_bind_eq_ok.mp hparts
  cases hparse : network.urls.parse text with
  | error message =>
    rw [hparse] at hparts
    exact nomatch congrArg Prod.fst hparts
  | ok u =>
    rw [hparse] at hparts
    dsimp only at hparts
    obtain ⟨query, s₂, hquery, hparts⟩ := exec_bind_eq_ok.mp hparts
    obtain ⟨headers, s₃', hheaders, hparts⟩ := exec_bind_eq_ok.mp hparts
    obtain ⟨body, s₃'', hbody, hparts⟩ := exec_bind_eq_ok.mp hparts
    -- There is no body, so nothing is resolved for it and there is no content type.
    obtain ⟨hnone, rfl⟩ := Prod.mk.inj hbody
    obtain rfl := Except.ok.inj hnone
    obtain ⟨hout, rfl⟩ := Prod.mk.inj hparts
    obtain rfl := Except.ok.inj hout
    obtain ⟨s₅, hcookie⟩ := prepareCookie_exec network ctx v spec.auth s₄
    dsimp only at hlast
    rw [exec_bind_ok hcookie] at hlast
    obtain ⟨hprepared, -⟩ := Prod.mk.inj hlast
    obtain ⟨rfl, -⟩ := Prod.mk.inj (Except.ok.inj hprepared)
    refine ⟨text, s₁, u, query, s₂, headers, s₃', v, known, s₄, htext, hparse, hquery, hheaders,
      hknown, rfl, ?_⟩
    show (headers.iterPairs ++ []) ++ [] ++ known ++ _ = _
    rw [List.append_nil, List.append_nil]
    rfl

/-- The known authentication on another URL: the same headers, and a pair for the query only for an
API key that belongs there. -/
theorem applyKnownAuth_ok {auth : Option Auth} {url v : Url} {known : List (Text × Text)}
    (h : exec (applyKnownAuth platform network url auth) s = (.ok (v, known), t)) (u : Url) :
    (∃ v', exec (applyKnownAuth platform network u auth) s = (.ok (v', known), t))
      ∧ ((∃ key value pair, auth = some (.apiKey key value .query)
            ∧ v = network.urls.appendPairs url [pair])
        ∨ (∀ key value, auth ≠ some (.apiKey key value .query)) ∧ v = url) := by
  -- The arms that add no header leave the URL.
  have hplain : exec (pure (url, []) : EngineM Url _) s = (.ok (v, known), t) →
      (∃ v', exec (pure (u, []) : EngineM Url _) s = (.ok (v', known), t)) ∧ v = url := by
    intro hpure
    obtain ⟨hout, rfl⟩ := Prod.mk.inj hpure
    obtain ⟨rfl, rfl⟩ := Prod.mk.inj (Except.ok.inj hout)
    exact ⟨⟨u, rfl⟩, rfl⟩
  cases auth with
  | none =>
    obtain ⟨hother, hv⟩ := hplain h
    exact ⟨hother, .inr ⟨nofun, hv⟩⟩
  | some auth =>
    cases auth with
    | bearer token =>
      obtain ⟨text, s₁, htext, hpure⟩ := exec_bind_eq_ok.mp h
      obtain ⟨hout, rfl⟩ := Prod.mk.inj hpure
      obtain ⟨rfl, rfl⟩ := Prod.mk.inj (Except.ok.inj hout)
      exact ⟨⟨u, exec_bind_ok htext⟩, .inr ⟨nofun, rfl⟩⟩
    | basic username password =>
      obtain ⟨name, s₁, hname, hnext⟩ := exec_bind_eq_ok.mp h
      obtain ⟨word, s₂, hword, hpure⟩ := exec_bind_eq_ok.mp hnext
      obtain ⟨hout, rfl⟩ := Prod.mk.inj hpure
      obtain ⟨rfl, rfl⟩ := Prod.mk.inj (Except.ok.inj hout)
      exact ⟨⟨u, (exec_bind_ok hname).trans (exec_bind_ok hword)⟩, .inr ⟨nofun, rfl⟩⟩
    | apiKey key value location =>
      obtain ⟨name, s₁, hname, hnext⟩ := exec_bind_eq_ok.mp h
      obtain ⟨word, s₂, hword, hpure⟩ := exec_bind_eq_ok.mp hnext
      cases location with
      | header =>
        obtain ⟨hout, rfl⟩ := Prod.mk.inj hpure
        obtain ⟨rfl, rfl⟩ := Prod.mk.inj (Except.ok.inj hout)
        exact ⟨⟨u, (exec_bind_ok hname).trans (exec_bind_ok hword)⟩, .inr ⟨nofun, rfl⟩⟩
      -- Only here a pair goes into the query.
      | query =>
        obtain ⟨hout, rfl⟩ := Prod.mk.inj hpure
        obtain ⟨rfl, rfl⟩ := Prod.mk.inj (Except.ok.inj hout)
        exact ⟨⟨_, (exec_bind_ok hname).trans (exec_bind_ok hword)⟩,
          .inl ⟨key, value, (name, word), rfl, rfl⟩⟩
    | _ =>
      obtain ⟨hother, hv⟩ := hplain h
      exact ⟨hother, .inr ⟨nofun, hv⟩⟩

/-- The session's cookies depend on the host, the path and the security of the URL. -/
theorem cookiePairsFor_congr {s' : EngineState Url} {u v : Url} (hoffline : Offline s s')
    (hscheme : network.urls.scheme v = network.urls.scheme u)
    (hhost : network.urls.hostStr v = network.urls.hostStr u)
    (hpath : network.urls.path v = network.urls.path u) :
    cookiePairsFor network ctx spec s' v = cookiePairsFor network ctx spec s u := by
  unfold cookiePairsFor sessionCookie
  rw [hoffline.sessions, hoffline.ticks, hscheme, hhost, hpath]

variable {text : Text} {u : Url} {query : FieldMap} {preparedPairs openedPairs : List (Text × Text)}

/-- Adding the query and an API key leaves the URL as it is when there is nothing to add. -/
theorem added_eq_iff (rules : UrlRules network.urls) {auth : Option Auth} {v : Url}
    (hadded : (∃ key value pair, auth = some (.apiKey key value .query)
          ∧ v = network.urls.appendPairs
            (if query.isEmpty then u else network.urls.appendPairs u query.iterPairs) [pair])
      ∨ (∀ key value, auth ≠ some (.apiKey key value .query))
        ∧ v = if query.isEmpty then u else network.urls.appendPairs u query.iterPairs) :
    v = u ↔ (query.isEmpty = true ∨ query.iterPairs = [] ∧ network.urls.appendPairs u [] = u)
      ∧ ∀ key value, auth ≠ some (.apiKey key value .query) := by
  have hgrows := rules.appendPairs_length u query.iterPairs
  rcases hadded with ⟨key, value, pair, hkey, rfl⟩ | ⟨hno, rfl⟩
  · -- An API key makes the text longer.
    constructor
    · intro hsame
      have hlonger := rules.appendPairs_length
        (if query.isEmpty then u else network.urls.appendPairs u query.iterPairs) [pair]
      rw [hsame, List.length_singleton] at hlonger
      split at hlonger
      · omega
      · omega
    · rintro ⟨-, hno⟩
      exact absurd hkey (hno key value)
  · rw [and_iff_left hno]
    by_cases hempty : query.isEmpty = true
    · rw [if_pos hempty]
      exact iff_of_true rfl (.inl hempty)
    · rw [if_neg hempty]
      -- A query that is not empty leaves the URL only when it has no pair, since each pair makes it
      -- longer.
      constructor
      · intro hsame
        rw [hsame] at hgrows
        have hnil : query.iterPairs = [] := List.eq_nil_iff_length_eq_zero.mpr (by omega)
        rw [hnil] at hsame
        exact .inr ⟨hnil, hsame⟩
      · rintro (hyes | ⟨hnil, hsame⟩)
        · exact absurd hyes hempty
        · rw [hnil, hsame]

/-- What is added to a URL leaves its scheme, its host and its path, and makes it no shorter. -/
theorem added_keeps (rules : UrlRules network.urls) {auth : Option Auth} {v : Url}
    (hadded : (∃ key value pair, auth = some (.apiKey key value .query)
          ∧ v = network.urls.appendPairs
            (if query.isEmpty then u else network.urls.appendPairs u query.iterPairs) [pair])
      ∨ (∀ key value, auth ≠ some (.apiKey key value .query))
        ∧ v = if query.isEmpty then u else network.urls.appendPairs u query.iterPairs) :
    network.urls.scheme v = network.urls.scheme u
      ∧ network.urls.hostStr v = network.urls.hostStr u
      ∧ network.urls.path v = network.urls.path u
      ∧ (network.urls.toText u).length ≤ (network.urls.toText v).length := by
  -- One addition leaves scheme, host and path; there are two of them, the query and then the key.
  have hone : ∀ (v : Url) (pairs : List (Text × Text)),
      network.urls.scheme (network.urls.appendPairs v pairs) = network.urls.scheme v
        ∧ network.urls.hostStr (network.urls.appendPairs v pairs) = network.urls.hostStr v
        ∧ network.urls.path (network.urls.appendPairs v pairs) = network.urls.path v
        ∧ (network.urls.toText v).length
          ≤ (network.urls.toText (network.urls.appendPairs v pairs)).length := by
    intro v pairs
    have hlength := rules.appendPairs_length v pairs
    exact ⟨rules.appendPairs_scheme v pairs, rules.appendPairs_hostStr v pairs,
      rules.appendPairs_path v pairs, by omega⟩
  generalize hq : (if query.isEmpty then u else network.urls.appendPairs u query.iterPairs) = q
    at hadded
  have hquery : network.urls.scheme q = network.urls.scheme u
      ∧ network.urls.hostStr q = network.urls.hostStr u
      ∧ network.urls.path q = network.urls.path u
      ∧ (network.urls.toText u).length ≤ (network.urls.toText q).length := by
    rw [← hq]
    split
    · exact ⟨rfl, rfl, rfl, le_rfl⟩
    · exact hone u query.iterPairs
  rcases hadded with ⟨key, value, pair, -, rfl⟩ | ⟨-, rfl⟩
  · obtain ⟨hscheme, hhost, hpath, hlength⟩ := hone q [pair]
    obtain ⟨hscheme', hhost', hpath', hlength'⟩ := hquery
    exact ⟨hscheme.trans hscheme', hhost.trans hhost', hpath.trans hpath', by omega⟩
  · exact hquery

/-- **When a socket is opened with what a request is sent with**: the resolved URL is as the
library writes it, there is nothing to add to its query, and each prepared pair is the last of its
name among those that go into the handshake. -/
theorem socketAgrees_iff (rules : UrlRules network.urls) (hauth : NoToken spec)
    (reading : Reading platform network spec s text u query preparedPairs openedPairs)
    (hhandshake : exec (makeHandshake platform network lib ctx spec []) s
      = (.ok (handshake, sent), t))
    {pending : Bool} {t' : EngineState Url}
    (hprepare : exec (prepare platform network ctx { spec with body := none }) s
      = (.ok (prepared, pending), t')) :
    SocketAgrees prepared handshake
      ↔ Transfers network ctx spec lib s text u query preparedPairs openedPairs := by
  obtain ⟨s₁, s₂, htext, hquery, hprepared, hopened⟩ := reading.resolved
  obtain ⟨text₁, r₁, base, headers, r₂, auth, htext₁, hurl, hbase, hheaders, hauths, hinsert⟩ :=
    makeHandshake_ok hhandshake
  obtain ⟨text₂, q₁, u₂, query₂, q₂, headers₂, q₃, v, known, q₄, htext₂, hparse₂, hquery₂,
    hheaders₂, hknown₂, htoText, hlist⟩ := prepare_ok hprepare
  -- Both runs resolve the URL first.
  obtain ⟨hsame₁, rfl⟩ := Prod.mk.inj (htext₁.symm.trans htext)
  obtain rfl := Except.ok.inj hsame₁
  obtain ⟨hsame₂, rfl⟩ := Prod.mk.inj (htext₂.symm.trans htext)
  obtain rfl := Except.ok.inj hsame₂
  obtain rfl : u₂ = u := Except.ok.inj (hparse₂.symm.trans reading.parsed)
  obtain ⟨hsame₃, rfl⟩ := Prod.mk.inj (hquery₂.symm.trans hquery)
  obtain rfl := Except.ok.inj hsame₃
  obtain ⟨⟨v', hknown⟩, hadded⟩ := applyKnownAuth_ok hknown₂ u₂
  have hpairs : preparedPairs = headers₂.iterPairs ++ known := by
    unfold requestPairs at hprepared
    rw [exec_bind_ok hheaders₂, exec_bind_ok hknown] at hprepared
    exact (Except.ok.inj hprepared).symm
  -- What is added to the URL leaves its host, path and scheme.
  have hsteps : network.urls.scheme v = network.urls.scheme u₂
      ∧ network.urls.hostStr v = network.urls.hostStr u₂
      ∧ network.urls.path v = network.urls.path u₂
      ∧ (network.urls.toText u₂).length ≤ (network.urls.toText v).length :=
    added_keeps rules hadded
  obtain ⟨hscheme, hhost, hpath, hlength⟩ := hsteps
  have hoffline : Offline s q₄ := by
    have h₁ := @resolveText_keeps Url platform spec.url s
    have h₂ := @onResolver_keeps Url _
      (liftCore (Resolver.resolveMap platform.world spec.query)) q₁
    have h₃ := @onResolver_keeps Url _
      (liftCore (Resolver.resolveMap platform.world spec.headers)) q₂
    have h₄ := applyKnownAuth_keeps platform network u₂ spec.auth q₃
    rw [htext] at h₁
    rw [hquery] at h₂
    rw [hheaders₂] at h₃
    rw [hknown] at h₄
    exact offline_trans _ _ _ h₁ (offline_trans _ _ _ h₂ (offline_trans _ _ _ h₃ h₄))
  rw [cookiePairsFor_congr hoffline hscheme hhost hpath, ← hpairs] at hlist
  have hurlAgrees : handshake.url = asSocketUrl prepared.url
      ↔ handshake.url = asSocketUrl (network.urls.toText u₂) ∧ v = u₂ := by
    rw [htoText]
    exact url_agrees_iff rules reading.parsed reading.web hurl hscheme hlength
  rw [added_eq_iff rules hadded] at hurlAgrees
  have hplain : toWebsocketUrl text₂ = .ok (asSocketUrl (network.urls.toText u₂))
      ↔ handshake.url = asSocketUrl (network.urls.toText u₂) := by
    rw [hurl]
    exact ⟨Except.ok.inj, congrArg _⟩
  -- The pairs of the handshake, when its URL is the plain one.
  have hheadersAgree : handshake.url = asSocketUrl (network.urls.toText u₂) →
      ((∀ e ∈ prepared.headers, (asciiLower e.1, e.2) ∈ handshake.headers)
        ↔ ∀ e ∈ preparedPairs ++ cookiePairsFor network ctx spec s u₂,
          Kept base (openedPairs ++ cookiePairsFor network ctx spec s u₂) e) := by
    intro hequal
    obtain ⟨w, hread, hwScheme, hwHost, hwPath⟩ := rules.parse_socket u₂ reading.web
    rw [← hequal] at hread
    have hsecure : network.urls.scheme w = "wss".toList
        ↔ network.urls.scheme u₂ = "https".toList := by
      rw [hwScheme]
      unfold socketScheme
      split
      · exact iff_of_true rfl ‹_›
      · exact iff_of_false (by decide) ‹_›
    obtain ⟨known', t₁, hknown', hauthPairs⟩ :=
      authHeaders_ok hauth hread hsecure hwHost hwPath hauths
    have hopenedPairs : openedPairs = headers.iterPairs ++ known' := by
      unfold requestPairs at hopened
      rw [exec_bind_ok hheaders, exec_bind_ok hknown'] at hopened
      exact (Except.ok.inj hopened).symm
    have hstart : Offline s r₂ := by
      have h₁ := @resolveText_keeps Url platform spec.url s
      have h₂ := @onResolver_keeps Url _
        (liftCore (Resolver.resolveMap platform.world spec.headers)) q₁
      rw [htext] at h₁
      rw [hheaders] at h₂
      exact offline_trans _ _ _ h₁ h₂
    have hcookies : cookiePairsFor network ctx spec r₂ u₂ = cookiePairsFor network ctx spec s u₂ :=
      cookiePairsFor_congr hstart rfl rfl rfl
    have hall : headers.iterPairs ++ auth
        = openedPairs ++ cookiePairsFor network ctx spec s u₂ := by
      rw [hauthPairs, hopenedPairs, List.append_assoc, ← hcookies]
      rfl
    rw [hall] at hinsert
    rw [hlist]
    exact forall₂_congr fun e _ => mem_insertHeaders hinsert e
  constructor
  · intro hagrees
    obtain ⟨hequal, hnoQuery, hnoKey⟩ := hurlAgrees.mp hagrees.url
    refine ⟨hplain.mpr hequal, hnoQuery, hnoKey, fun base' hbase' => ?_⟩
    rw [← hequal, hbase] at hbase'
    obtain rfl := Except.ok.inj hbase'
    exact (hheadersAgree hequal).mp hagrees.headers
  · intro htransfers
    have hequal := hplain.mp htransfers.plain
    have hkept := htransfers.kept base (by rw [← hequal]; exact hbase)
    exact ⟨hurlAgrees.mpr ⟨hequal, htransfers.noQuery, htransfers.noKey⟩,
      (hheadersAgree hequal).mpr hkept⟩

end Agree

/-! ### A small URL library -/

/-- The schemes of the web and of sockets. -/
inductive WebScheme where
  | http
  | https
  | ws
  | wss

/-- The text of a scheme. -/
def WebScheme.text : WebScheme → Text
  | .http => "http".toList
  | .https => "https".toList
  | .ws => "ws".toList
  | .wss => "wss".toList

/-- The scheme with a text in lower case. -/
def webScheme? (text : Text) : Option WebScheme :=
  if text = "http".toList then some .http
  else if text = "https".toList then some .https
  else if text = "ws".toList then some .ws
  else if text = "wss".toList then some .wss
  else none

/-- The pairs of a query, unescaped. -/
def plainPairs (pairs : List (Text × Text)) : Text :=
  List.intercalate ['&'] (pairs.map fun e => e.1 ++ '=' :: e.2)

/-- A library that keeps a scheme, and what follows it as it is. -/
def webUrls : UrlLib (WebScheme × Text) where
  parse text :=
    match splitOnce "://".toList text with
    | none => .error "relative URL without a base".toList
    | some (scheme, rest) =>
      match webScheme? (asciiLower scheme) with
      | none => .error "not a web URL".toList
      | some scheme => .ok (scheme, rest)
  join base text := .ok (base.1, text)
  scheme u := u.1.text
  hostStr u := some (u.2.takeWhile (· ∉ "/?".toList))
  portOrKnownDefault u := some (if u.1.text ∈ ["https".toList, "wss".toList] then 443 else 80)
  path u := (u.2.dropWhile (· ∉ "/?".toList)).takeWhile (· ≠ '?')
  appendPairs u pairs := (u.1, u.2 ++ (if '?' ∈ u.2 then '&' else '?') :: plainPairs pairs)
  toText u := u.1.text ++ "://".toList ++ u.2

section WebUrls

/-- A scheme is read from its own text. -/
theorem webScheme?_text (scheme : WebScheme) : webScheme? scheme.text = some scheme := by
  cases scheme <;> rfl

/-- And from no other one. -/
theorem webScheme?_eq_some {text : Text} {scheme : WebScheme} (h : webScheme? text = some scheme) :
    text = scheme.text := by
  unfold webScheme? at h
  split_ifs at h with hhttp hhttps hws hwss
  · rw [← Option.some.inj h]
    exact hhttp
  · rw [← Option.some.inj h]
    exact hhttps
  · rw [← Option.some.inj h]
    exact hws
  · rw [← Option.some.inj h]
    exact hwss

/-- A scheme holds no delimiter and no white space. -/
theorem scheme_chars {text : Text} {scheme : WebScheme} (h : asciiLower text = scheme.text) :
    ∀ c ∈ text, c ≠ ':' ∧ isWhitespace c = false := by
  have hall : ∀ d ∈ scheme.text, d ≠ ':' ∧ isWhitespace d = false := by
    cases scheme
    all_goals exact forall_mem_of_all (by decide)
  intro c hc
  have hlower : c.toLower ∈ scheme.text := by
    rw [← h]
    exact List.mem_map_of_mem hc
  obtain ⟨hcolon, hblank⟩ := hall _ hlower
  constructor
  · rintro rfl
    exact hcolon rfl
  · rw [← isWhitespace_toLower]
    exact hblank

/-- What follows a scheme is kept as it is. -/
theorem webUrls_parse {text rest : Text} {scheme : WebScheme} (h : asciiLower text = scheme.text) :
    webUrls.parse (text ++ "://".toList ++ rest) = .ok (scheme, rest) := by
  have hsplit : splitOnce "://".toList (text ++ "://".toList ++ rest) = some (text, rest) := by
    refine splitOnce_append ?_
    intro p s hps hs hpre
    cases s with
    | nil => exact hs rfl
    | cons c s =>
      -- The delimiter begins with a colon, and there is none in a scheme.
      have hc : c = ':' := (List.cons.inj (List.cons_prefix_cons.mp hpre |>.1 ▸ rfl :
        [':'] = [c])).1.symm
      exact (scheme_chars h c (by rw [hps]; exact List.mem_append_right p List.mem_cons_self)).1 hc
  show (match splitOnce "://".toList (text ++ "://".toList ++ rest) with
    | none => _
    | some (scheme, rest) => _) = _
  rw [hsplit]
  dsimp only
  rw [h, webScheme?_text]

/-- What the library of the sample parses: a scheme in any case, and the text behind it. -/
theorem webUrls_parse_eq_ok {text : Text} {u : WebScheme × Text} (h : webUrls.parse text = .ok u) :
    ∃ scheme, text = scheme ++ "://".toList ++ u.2 ∧ asciiLower scheme = u.1.text := by
  have hparse : (match splitOnce "://".toList text with
      | none => .error "relative URL without a base".toList
      | some (scheme, rest) =>
        match webScheme? (asciiLower scheme) with
        | none => .error "not a web URL".toList
        | some scheme => .ok (scheme, rest) : Except Text (WebScheme × Text)) = .ok u := h
  cases hsplit : splitOnce "://".toList text with
  | none =>
    rw [hsplit] at hparse
    exact nomatch hparse
  | some parts =>
    obtain ⟨scheme, rest⟩ := parts
    rw [hsplit] at hparse
    dsimp only at hparse
    cases hscheme : webScheme? (asciiLower scheme) with
    | none =>
      rw [hscheme] at hparse
      exact nomatch hparse
    | some known =>
      rw [hscheme] at hparse
      obtain rfl := Except.ok.inj hparse
      exact ⟨scheme, eq_of_splitOnce hsplit, webScheme?_eq_some hscheme⟩

/-- No pair is lost. -/
theorem length_le_plainPairs (pairs : List (Text × Text)) :
    pairs.length ≤ (plainPairs pairs).length := by
  unfold plainPairs
  induction pairs with
  | nil => exact le_rfl
  | cons e pairs ih =>
    cases pairs with
    | nil =>
      show 1 ≤ (List.intercalate ['&'] [e.1 ++ '=' :: e.2]).length
      rw [List.intercalate_singleton, List.length_append, List.length_cons]
      omega
    | cons e' pairs =>
      rw [List.map_cons, List.map_cons, List.intercalate_cons_cons]
      rw [List.map_cons] at ih
      simp only [List.length_append, List.length_cons] at ih ⊢
      omega

/-- A text that holds a stop, or that a stop follows, is cut there whatever follows. -/
theorem cut_append {p : Char → Bool} {l r : Text}
    (h : (∃ c ∈ l, p c = false) ∨ ∃ c rest, r = c :: rest ∧ p c = false) :
    (l ++ r).takeWhile p = l.takeWhile p ∧ (l ++ r).dropWhile p = l.dropWhile p ++ r := by
  induction l with
  | nil =>
    rcases h with ⟨c, hc, -⟩ | ⟨c, rest, rfl, hstop⟩
    · exact absurd hc List.not_mem_nil
    · rw [List.nil_append, List.takeWhile_cons, List.dropWhile_cons, hstop]
      exact ⟨rfl, rfl⟩
  | cons c l ih =>
    rw [List.cons_append, List.takeWhile_cons, List.takeWhile_cons, List.dropWhile_cons,
      List.dropWhile_cons]
    cases hc : p c with
    | false => exact ⟨rfl, rfl⟩
    | true =>
      have hrest : (∃ c ∈ l, p c = false) ∨ ∃ c rest, r = c :: rest ∧ p c = false := by
        rcases h with ⟨d, hd, hstop⟩ | hnext
        · rcases List.mem_cons.mp hd with rfl | hd
          · rw [hc] at hstop
            exact absurd hstop.symm Bool.false_ne_true
          · exact .inl ⟨d, hd, hstop⟩
        · exact .inr hnext
      obtain ⟨htake, hdrop⟩ := ih hrest
      exact ⟨congrArg (c :: ·) htake, hdrop⟩

/-- A query that is added comes after a `?`. -/
theorem query_stops (l more : Text) (p : Char → Bool) (hp : p '?' = false) :
    (∃ c ∈ l, p c = false)
      ∨ ∃ c rest, (if '?' ∈ l then '&' else '?') :: more = c :: rest ∧ p c = false := by
  by_cases hmem : '?' ∈ l
  · exact .inl ⟨'?', hmem, hp⟩
  · rw [if_neg hmem]
    exact .inr ⟨'?', more, rfl, hp⟩

/-- The rules hold for the small library. -/
theorem webUrls_rules : UrlRules webUrls where
  parse_toText u := by
    show webUrls.parse (u.1.text ++ "://".toList ++ u.2) = _
    refine webUrls_parse ?_
    cases u.1 <;> rfl
  toText_web u _ := ⟨u.2, rfl⟩
  parse_scheme scheme rest u hknown h := by
    have hscheme : ∃ known : WebScheme, asciiLower scheme = known.text := by
      simp only [List.mem_cons, List.not_mem_nil, or_false] at hknown
      rcases hknown with hhttp | hhttps | hws | hwss
      · exact ⟨.http, hhttp⟩
      · exact ⟨.https, hhttps⟩
      · exact ⟨.ws, hws⟩
      · exact ⟨.wss, hwss⟩
    obtain ⟨known, hlower⟩ := hscheme
    rw [webUrls_parse hlower] at h
    obtain rfl := Except.ok.inj h
    exact ⟨hlower.symm, webUrls_parse (by rw [asciiLower_idem, hlower])⟩
  parse_dropBlanks text u h := by
    obtain ⟨scheme, htext, hlower⟩ := webUrls_parse_eq_ok h
    have hsame : text.dropWhile isWhitespace = text := by
      cases scheme with
      | nil =>
        have hnone : ([] : Text) = u.1.text := hlower
        cases hu : u.1
        all_goals
          rw [hu] at hnone
          exact absurd hnone (by decide)
      | cons c scheme =>
        rw [htext, List.append_assoc, List.cons_append, List.dropWhile_cons,
          (scheme_chars hlower c List.mem_cons_self).2]
        rfl
    rw [hsame]
    exact h
  parse_blanks u v blanks _ h := by
    have hv : asciiLower v.1.text = v.1.text := by cases v.1 <;> rfl
    have hparse : webUrls.parse (v.1.text ++ "://".toList ++ (v.2 ++ blanks)) = .ok u := by
      rw [← List.append_assoc]
      exact h
    rw [webUrls_parse hv] at hparse
    obtain rfl := Except.ok.inj hparse
    show v.1.text ++ "://".toList ++ (v.2 ++ blanks) = v.1.text ++ "://".toList ++ v.2 ∨
      (v.1.text ++ "://".toList ++ v.2).length
        < (v.1.text ++ "://".toList ++ (v.2 ++ blanks)).length
    cases blanks with
    | nil => exact .inl (by rw [List.append_nil])
    | cons c blanks =>
      refine .inr ?_
      simp only [List.length_append, List.length_cons]
      omega
  appendPairs_length u pairs := by
    have hpairs := length_le_plainPairs pairs
    show (u.1.text ++ "://".toList ++ u.2).length + pairs.length
      ≤ (u.1.text ++ "://".toList ++ (u.2 ++ _ :: plainPairs pairs)).length
    simp only [List.length_append, List.length_cons]
    omega
  appendPairs_scheme u pairs := rfl
  appendPairs_hostStr u pairs := by
    obtain ⟨htake, -⟩ := cut_append (query_stops u.2 (plainPairs pairs)
      (fun c => decide (c ∉ "/?".toList)) (by decide))
    exact congrArg some htake
  appendPairs_path u pairs := by
    obtain ⟨-, hdrop⟩ := cut_append (query_stops u.2 (plainPairs pairs)
      (fun c => decide (c ∉ "/?".toList)) (by decide))
    show ((u.2 ++ _ :: plainPairs pairs).dropWhile (· ∉ "/?".toList)).takeWhile (· ≠ '?')
      = (u.2.dropWhile (· ∉ "/?".toList)).takeWhile (· ≠ '?')
    rw [hdrop]
    refine (cut_append ?_).1
    -- Whether a `?` is there already decides if the pairs come behind `?` or `&`.
    by_cases hmem : '?' ∈ u.2
    · -- The host stops at the `?`, so that it is still there.
      refine .inl ⟨'?', ?_, by decide⟩
      rw [← List.takeWhile_append_dropWhile (p := (· ∉ "/?".toList)) (l := u.2),
        List.mem_append] at hmem
      rcases hmem with hhost | hrest
      · exact absurd (List.mem_takeWhile_imp hhost) (by decide)
      · exact hrest
    · rw [if_neg hmem]
      exact .inr ⟨'?', _, rfl, by decide⟩
  parse_socket u h := by
    obtain ⟨scheme, rest⟩ := u
    cases scheme with
    | http =>
      have hparse : webUrls.parse ("ws".toList ++ "://".toList ++ rest) = .ok (.ws, rest) :=
        webUrls_parse rfl
      exact ⟨(.ws, rest), hparse, rfl, rfl, rfl⟩
    | https =>
      have hparse : webUrls.parse ("wss".toList ++ "://".toList ++ rest) = .ok (.wss, rest) :=
        webUrls_parse rfl
      exact ⟨(.wss, rest), hparse, rfl, rfl, rfl⟩
    | ws => exact absurd (show "ws".toList ∈ webSchemes from h) (by decide)
    | wss => exact absurd (show "wss".toList ∈ webSchemes from h) (by decide)

end WebUrls

/-! ### A socket with a token -/

/-- A network with the small library. -/
def webNetwork : Network (WebScheme × Text) where
  urls := webUrls
  clock _ := 0
  methodError _ := none
  proxyError _ := none
  identityError _ := none
  clientError _ := none
  tokenClientError := none
  builderError message := message
  requestError _ := none
  encodeForm := plainPairs
  respond _ := .ok (plainResponse 200 [])
  bodyText _ := some []
  canonicalReason _ := none
  fingerprint _ := 0

/-- A socket library that takes every URL, with the headers of a handshake. -/
def openingLib : SocketLib where
  intoClientRequest _ :=
    .ok [("host".toList, "app.test".toList), ("connection".toList, "Upgrade".toList),
      ("upgrade".toList, "websocket".toList), ("sec-websocket-version".toList, "13".toList),
      ("sec-websocket-key".toList, "dGhlIHNhbXBsZSBub25jZQ==".toList)]
  headerNameError _ := none
  headerValueError _ := none
  connect _ := .ok (101, none)
  sendError _ _ := none
  receive _ _ := []
  elapsed _ := 0

/-- A request for a room, with a token. -/
def roomRequest : RequestSpec :=
  { RequestSpec.new id "GET".toList "https://app.test/socket".toList with
    headers := FieldMap.fromIter [("X-Room".toList, "lobby".toList)]
    auth := some (.bearer "t-1".toList) }

/-- The same request, with the room in its query. -/
def roomQuery : RequestSpec :=
  { roomRequest with query := FieldMap.fromIter [("room".toList, "lobby".toList)] }

/-- The socket of the room is opened with what the request is sent with. -/
theorem socketAgrees_iff_room :
    ∃ handshake sent prepared pending t t',
      exec (makeHandshake emptyPlatform webNetwork openingLib defaultContext roomRequest []) .fresh
        = (.ok (handshake, sent), t) ∧
      exec (prepare emptyPlatform webNetwork defaultContext { roomRequest with body := none })
        .fresh = (.ok (prepared, pending), t') ∧
      SocketAgrees prepared handshake := by
  have hopen : okWith (fun _ _ => true) (exec (makeHandshake emptyPlatform webNetwork openingLib
      defaultContext roomRequest []) .fresh) = true := by decide +kernel
  have hshow : okWith (fun _ _ => true) (exec (prepare emptyPlatform webNetwork defaultContext
      { roomRequest with body := none }) .fresh) = true := by decide +kernel
  obtain ⟨⟨handshake, sent⟩, t, hhandshake, -⟩ := exists_of_okWith hopen
  obtain ⟨⟨prepared, pending⟩, t', hprepare, -⟩ := exists_of_okWith hshow
  refine ⟨handshake, sent, prepared, pending, t, t', hhandshake, hprepare, ?_⟩
  -- The four conditions of the theorem: no token to fetch, and the headers as both paths resolve
  -- them.
  have hauth : NoToken roomRequest := fun config h => nomatch Option.some.inj h
  have hreading : Reading emptyPlatform webNetwork roomRequest .fresh
      "https://app.test/socket".toList (.https, "app.test/socket".toList) .empty
      [("X-Room".toList, "lobby".toList), ("Authorization".toList, "Bearer t-1".toList)]
      [("X-Room".toList, "lobby".toList), ("Authorization".toList, "Bearer t-1".toList)] := by
    have hparsed : webUrls.parse ("https".toList ++ "://".toList ++ "app.test/socket".toList)
        = .ok (.https, "app.test/socket".toList) := webUrls_parse (by decide)
    refine ⟨by decide, hparsed, _, _, Prod.ext ?_ rfl, Prod.ext ?_ rfl, ?_, ?_⟩
    all_goals decide +kernel
  refine (socketAgrees_iff webUrls_rules hauth hreading hhandshake hprepare).mpr ⟨?_, ?_, ?_, ?_⟩
  · decide +kernel
  · exact .inl rfl
  · exact fun key value h => nomatch Option.some.inj h
  · intro base _
    refine (kept_all_iff base _).mpr ?_
    decide +kernel

/-- With the room in its query, the socket is opened without it. -/
theorem not_socketAgrees_query :
    ∃ handshake sent prepared pending t t',
      exec (makeHandshake emptyPlatform webNetwork openingLib defaultContext roomQuery []) .fresh
        = (.ok (handshake, sent), t) ∧
      exec (prepare emptyPlatform webNetwork defaultContext { roomQuery with body := none })
        .fresh = (.ok (prepared, pending), t') ∧
      ¬ SocketAgrees prepared handshake := by
  have hopen : okWith (fun out _ => out.1.url == "wss://app.test/socket".toList)
      (exec (makeHandshake emptyPlatform webNetwork openingLib defaultContext roomQuery [])
        .fresh) = true := by decide +kernel
  have hshow : okWith (fun out _ => out.1.url == "https://app.test/socket?room=lobby".toList)
      (exec (prepare emptyPlatform webNetwork defaultContext { roomQuery with body := none })
        .fresh) = true := by decide +kernel
  obtain ⟨⟨handshake, sent⟩, t, hhandshake, hopened⟩ := exists_of_okWith hopen
  obtain ⟨⟨prepared, pending⟩, t', hprepare, hshown⟩ := exists_of_okWith hshow
  refine ⟨handshake, sent, prepared, pending, t, t', hhandshake, hprepare, fun hagrees => ?_⟩
  have hequal := hagrees.url
  rw [eq_of_beq hopened, eq_of_beq hshown] at hequal
  exact absurd hequal (by decide)

end Gabriel.Engine.Websocket
