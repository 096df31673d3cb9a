import Gabriel.Engine.Session

/-!
# `Gabriel.Proofs.Session`: what a cookie jar sends, and where

The store is driven by three operations, `record_set_cookies`, `clear` and `prune`.
`SessionStore.run` applies a list of them to the empty store, each with the clock readings it
took. `Jarred` is the invariant of such a run: every cookie of a session's jar is what the
parser made of a header recorded under that session.

The fields of a parsed cookie are read off the header's attribute list: `hostOnly` records that
there was no `Domain`, `secure` that there was a `Secure`, and an accepted `Domain` is a dotted
domain that covers the setting host. Together with the two matching rules this says where a cookie
may be sent (`ScopedTo`). The theorems:

* `domainMatches_iff`, `pathMatches_iff`: the matching rules.
* `parse_fields`: the fields of a parsed cookie, by induction on the attributes.
* `run_eq_foldl`: a run is the fold of its events, one header at a time.
* `mem_jar_absorb`: a cookie of a jar after an event was there before, or the event is its header.
* `jarred_run`: every run is jarred by its own events.
* `mem_jar_run`: a cookie that was accepted, has not expired and was not touched is in the jar.
* `cookieHeader_run_scoped`: the `Cookie` header of a request is made of cookies that go back only
  to where their headers allow, and holds every one that was set without `Domain` and `Path`, has
  not expired and was not touched, exactly on its own host and below its default path.
-/

set_option autoImplicit false

namespace Gabriel.Engine

open Gabriel.Core Text

/-! ### The matching rules -/

/-- `host` is the domain `d` or a name below it. -/
def Covers (d host : Text) : Prop := host = d ∨ '.' :: d <:+ host

/-- `domainMatches` tests for the domain or for a suffix that starts at a dot. -/
theorem domainMatches_iff {host domain : Text} :
    domainMatches host domain = true ↔ Covers domain host := by
  unfold domainMatches Covers
  simp only [Bool.or_eq_true, beq_iff_eq, Bool.and_eq_true, decide_eq_true_eq,
    List.isSuffixOf_iff_suffix]
  refine or_congr_right ⟨?_, ?_⟩
  · rintro ⟨⟨hlt, pre, rfl⟩, hdot⟩
    have hidx : (pre ++ domain).length - domain.length - 1 = pre.length - 1 := by simp
    have hpos : pre.length - 1 < pre.length := by
      simp only [List.length_append] at hlt
      omega
    rw [hidx, List.getElem?_append_left hpos, ← List.getLast?_eq_getElem?] at hdot
    obtain ⟨pre', rfl⟩ := List.getLast?_eq_some_iff.mp hdot
    exact ⟨pre', by simp⟩
  · rintro ⟨pre, rfl⟩
    refine ⟨⟨by simp; omega, pre ++ ['.'], by simp⟩, ?_⟩
    have hidx : (pre ++ '.' :: domain).length - domain.length - 1 = pre.length := by
      simp only [List.length_append, List.length_cons]
      omega
    rw [hidx, List.getElem?_append_right (Nat.le_refl _)]
    simp

/-- The path `p` is the cookie path, or continues it after a `/`. -/
def Below (cookiePath p : Text) : Prop :=
  p = cookiePath ∨ (p ≠ cookiePath ∧ cookiePath <+: p ∧
    (cookiePath.getLast? = some '/' ∨ p[cookiePath.length]? = some '/'))

/-- `pathMatches` tests for the cookie path or for a continuation at a `/`. -/
theorem pathMatches_iff {requestPath cookiePath : Text} :
    pathMatches requestPath cookiePath = true ↔ Below cookiePath requestPath := by
  unfold pathMatches Below
  split
  · simp [*]
  · rename_i hne
    split
    · rename_i hpre
      simp [hne, hpre]
    · rename_i hpre
      rw [not_not] at hpre
      simp [hne, hpre]

/-! ### The parser -/

namespace Cookie

/-- The header has an attribute of this name. -/
def hasAttr (name : Text) (header : Text) : Bool :=
  (header.splitOn ';').tail.any fun attr => (attrKeyValue attr).1 = name

/-- The domain field agrees with the host-only flag: the setting host itself without a `Domain`
attribute, a dotted domain that covers it with one. -/
def DomainOk (requestHost : Text) (c : Cookie) : Prop :=
  if c.hostOnly then c.domain = requestHost
  else '.' ∈ c.domain ∧ Covers c.domain requestHost

/-- What a run of attributes changes in a cookie: `Domain` clears the host-only flag and keeps
`DomainOk`, `Secure` sets the secure flag, and the path stays without a `Path`. -/
structure AttrsEffect (requestHost : Text) (attrs : List Text) (c c' : Cookie) : Prop where
  hostOnly : c'.hostOnly = (c.hostOnly && !attrs.any fun a => (attrKeyValue a).1 = "domain".toList)
  secure : c'.secure = (c.secure || attrs.any fun a => (attrKeyValue a).1 = "secure".toList)
  path : (attrs.any fun a => (attrKeyValue a).1 = "path".toList) = false → c'.path = c.path
  domain : DomainOk requestHost c → DomainOk requestHost c'

/-- One accepted attribute. -/
theorem parseAttr_effect {requestHost attr : Text} {c c' : Cookie} {m m' : Option Int64}
    (h : parseAttr requestHost (c, m) attr = some (c', m')) :
    AttrsEffect requestHost [attr] c c' := by
  unfold parseAttr at h
  rcases hkv : attrKeyValue attr with ⟨key, val⟩
  simp only [hkv] at h
  split at h
  · rename_i hkey
    split at h
    · simp at h
    · rename_i hclaim
      obtain ⟨rfl, -⟩ := by simpa using h
      simp only [not_or, not_not] at hclaim
      refine ⟨by simp [hkv, hkey], by simp [hkv, hkey], fun _ => rfl, fun _ => ?_⟩
      exact ⟨hclaim.2.1, domainMatches_iff.mp (by simpa using hclaim.2.2)⟩
  · rename_i hdomain
    split at h
    · rename_i hpath
      obtain ⟨rfl, -⟩ := by simpa using h
      exact ⟨by simp [hkv, hpath.1], by simp [hkv, hpath.1], by simp [hkv, hpath.1], id⟩
    · split at h
      · rename_i hsecure
        obtain ⟨rfl, -⟩ := by simpa using h
        exact ⟨by simp [hkv, hsecure], by simp [hkv, hsecure], fun _ => rfl, id⟩
      · rename_i hsecure
        -- `HttpOnly`, `Max-Age`, `Expires` and unknown names touch none of the fields here.
        have hsame : c'.hostOnly = c.hostOnly ∧ c'.secure = c.secure ∧ c'.path = c.path ∧
            c'.domain = c.domain := by
          split at h
          · obtain ⟨rfl, -⟩ := by simpa using h
            simp
          · split at h
            · obtain ⟨rfl, -⟩ := by simpa using h
              simp
            · split at h
              · obtain ⟨rfl, -⟩ := by simpa using h
                simp
              · obtain ⟨rfl, -⟩ := by simpa using h
                simp
        obtain ⟨hho, hse, hpa, hdo⟩ := hsame
        refine ⟨?_, ?_, fun _ => hpa, ?_⟩
        · rw [hho, List.any_cons, List.any_nil, hkv, decide_eq_false hdomain]
          simp
        · rw [hse, List.any_cons, List.any_nil, hkv, decide_eq_false hsecure]
          simp
        unfold DomainOk
        rw [hho, hdo]
        exact id

/-- The attribute loop, by induction on the attributes. -/
theorem parseAttrs_effect {requestHost : Text} {attrs : List Text} {c c' : Cookie}
    {m m' : Option Int64} (h : attrs.foldlM (parseAttr requestHost) (c, m) = some (c', m')) :
    AttrsEffect requestHost attrs c c' := by
  induction attrs generalizing c m with
  | nil =>
    obtain ⟨rfl, -⟩ := by simpa using h
    exact ⟨by simp, by simp, fun _ => rfl, id⟩
  | cons attr attrs ih =>
    rw [List.foldlM_cons] at h
    obtain ⟨⟨c₁, m₁⟩, hstep, hrest⟩ := Option.bind_eq_some_iff.mp h
    have hone := parseAttr_effect hstep
    have hmany := ih hrest
    refine ⟨?_, ?_, fun hnone => ?_, fun hok => hmany.domain (hone.domain hok)⟩
    · rw [hmany.hostOnly, hone.hostOnly]
      simp [Bool.and_assoc]
    · rw [hmany.secure, hone.secure]
      simp [Bool.or_assoc]
    · simp only [List.any_cons, Bool.or_eq_false_iff] at hnone
      rw [hmany.path hnone.2, hone.path (by simpa using hnone.1)]

/-- The fields of a parsed cookie, read off the header's attributes. -/
theorem parse_fields {nowMs : UInt64} {header host path : Text} {c : Cookie}
    (h : parse nowMs header host path = some c) :
    c.hostOnly = !hasAttr "domain".toList header ∧
    c.secure = hasAttr "secure".toList header ∧
    (hasAttr "path".toList header = false → c.path = defaultPath path) ∧
    DomainOk (asciiLower (trim host)) c := by
  simp only [parse, Option.bind_eq_bind, Option.bind_eq_some_iff] at h
  obtain ⟨⟨name, value⟩, -, h⟩ := h
  split at h
  · simp at h
  · obtain ⟨⟨c₁, m₁⟩, hattrs, h⟩ := Option.bind_eq_some_iff.mp h
    have heff := parseAttrs_effect hattrs
    -- `Max-Age` only replaces the expiry.
    have hsame : c.hostOnly = c₁.hostOnly ∧ c.secure = c₁.secure ∧ c.path = c₁.path ∧
        c.domain = c₁.domain := by
      cases m₁ <;> simp only [Option.some.injEq] at h <;> subst h <;> simp
    obtain ⟨hho, hse, hpa, hdo⟩ := hsame
    refine ⟨by rw [hho, heff.hostOnly]; rfl, by rw [hse, heff.secure]; rfl, fun hnone => ?_, ?_⟩
    · rw [hpa, heff.path hnone]
    · have hok := heff.domain (by simp [DomainOk])
      unfold DomainOk at hok ⊢
      rwa [hho, hdo]

end Cookie

/-! ### Runs of the store -/

/-- One `Set-Cookie` header as the store saw it: the session it is recorded under, the response
it came from, and the two clock readings its record took. -/
structure SetBy where
  session : Text
  header : Text
  host : Text
  path : Text
  parsedAt : UInt64
  insertedAt : UInt64

/-- The cookie the parser makes of the header. -/
def SetBy.cookie (e : SetBy) : Option Cookie := Cookie.parse e.parsedAt e.header e.host e.path

/-- What happens to a store, one header at a time. -/
inductive SessionEvent where
  | set (e : SetBy)
  | clear (session : Text)
  | prune (nowMs : UInt64)

/-- The clock readings of the event are not after `nowMs`. -/
def SessionEvent.Before (nowMs : UInt64) : SessionEvent → Prop
  | .set e => e.parsedAt ≤ nowMs ∧ e.insertedAt ≤ nowMs
  | .clear _ => True
  | .prune t => t ≤ nowMs

/-- The event clears the session, or stores under it a cookie that replaces `c`. -/
def SessionEvent.Touches (session : Text) (c : Cookie) : SessionEvent → Prop
  | .set e => e.session = session ∧ ∃ c', e.cookie = some c' ∧ c'.identity = c.identity
  | .clear s => s = session
  | .prune _ => False

/-- A call of the store. `record` carries the clock its call reads. -/
inductive SessionOp where
  | record (session : Text) (headers : List Text) (host path : Text) (clock : Nat → UInt64)
  | clear (session : Text)
  | prune (nowMs : UInt64)

/-- The events of a `record_set_cookies` call, one per header. -/
def recordEvents (session host path : Text) : (Nat → UInt64) → List Text → List SessionEvent
  | _, [] => []
  | clock, header :: headers =>
    .set ⟨session, header, host, path, clock 0, clock 1⟩
      :: recordEvents session host path (fun n => clock (n + 2)) headers

/-- The events of a call. -/
def SessionOp.events : SessionOp → List SessionEvent
  | .record session headers host path clock => recordEvents session host path clock headers
  | .clear session => [.clear session]
  | .prune nowMs => [.prune nowMs]

namespace SessionStore

/-- The store after a call. -/
def apply (store : SessionStore) : SessionOp → SessionStore
  | .record session headers host path clock =>
    (store.recordSetCookies session host path clock headers).1
  | .clear session => (store.clear session).1
  | .prune nowMs => (store.prune nowMs).1

/-- The store after a sequence of calls from the empty store. -/
def run (ops : List SessionOp) : SessionStore := ops.foldl apply new

/-- The store after one event. -/
def absorb (store : SessionStore) : SessionEvent → SessionStore
  | .set e =>
    match e.cookie with
    | some c => store.insert e.insertedAt e.session c
    | none => store
  | .clear session => (store.clear session).1
  | .prune nowMs => (store.prune nowMs).1

/-- Recording a list of headers is absorbing them one by one. -/
theorem recordSetCookies_eq_foldl (store : SessionStore) (session host path : Text)
    (clock : Nat → UInt64) (headers : List Text) :
    (store.recordSetCookies session host path clock headers).1
      = (recordEvents session host path clock headers).foldl absorb store := by
  induction headers generalizing store clock with
  | nil => rfl
  | cons header headers ih =>
    rw [recordEvents, List.foldl_cons, ← ih, recordSetCookies]
    simp only [absorb, SetBy.cookie]
    cases Cookie.parse (clock 0) header host path <;> rfl

/-- A run is the fold of its events. -/
theorem run_eq_foldl (ops : List SessionOp) :
    run ops = (ops.flatMap SessionOp.events).foldl absorb new := by
  rw [run, List.foldl_flatMap]
  congr 1
  funext store op
  cases op with
  | record session headers host path clock => exact recordSetCookies_eq_foldl ..
  | clear session => rfl
  | prune nowMs => rfl

/-! ### The jar after one event -/

/-- A new store has empty jars. -/
@[simp] theorem jar_new (session : Text) : new.jar session = [] := rfl

/-- The jars after an insertion. -/
theorem jar_insert (nowMs : UInt64) (store : SessionStore) (session s : Text) (c : Cookie) :
    (store.insert nowMs session c).jar s = if s = session then
      ((store.jar session).filter fun existing => existing.identity ≠ c.identity)
        ++ (if c.isExpired nowMs then [] else [c])
    else store.jar s := by
  unfold insert jar
  rw [SortedMap.get?_insert]
  by_cases hs : s = session
  · cases hexp : c.isExpired nowMs <;> simp [hs]
  · simp [hs]

/-- The jars after a clear. -/
theorem jar_clear (store : SessionStore) (session s : Text) :
    (store.clear session).1.jar s = if s = session then [] else store.jar s := by
  unfold clear jar
  rw [SortedMap.get?_erase]
  by_cases hs : s = session <;> simp [hs]

/-- The jars after a prune. -/
theorem jar_prune (nowMs : UInt64) (store : SessionStore) (s : Text) :
    (store.prune nowMs).1.jar s = (store.jar s).filter fun c => !c.isExpired nowMs := by
  unfold prune jar
  rw [SortedMap.get?_mapValues]
  cases store.sessions.get? s <;> simp

/-- A cookie of a jar after an event was there before, or the event is its `Set-Cookie`. -/
theorem mem_jar_absorb {store : SessionStore} {event : SessionEvent} {s : Text} {c : Cookie}
    (h : c ∈ (store.absorb event).jar s) :
    c ∈ store.jar s ∨ ∃ e, event = .set e ∧ e.session = s ∧ e.cookie = some c := by
  -- Along the events; clearing and pruning only take cookies away.
  cases event with
  | set e =>
    simp only [absorb] at h
    split at h
    · rename_i c' hc'
      -- The new cookie replaces the one with its key, and is dropped when it has expired.
      rw [jar_insert] at h
      split at h
      · rename_i hs
        rcases List.mem_append.mp h with h | h
        · exact Or.inl (hs ▸ (List.mem_filter.mp h).1)
        · split at h
          · simp at h
          · rw [List.mem_singleton] at h
            exact Or.inr ⟨e, rfl, hs.symm, h ▸ hc'⟩
      · exact Or.inl h
    · exact Or.inl h
  | clear session =>
    rw [absorb, jar_clear] at h
    split at h
    · simp at h
    · exact Or.inl h
  | prune nowMs =>
    rw [absorb, jar_prune] at h
    exact Or.inl (List.mem_filter.mp h).1

/-- Expiry is monotone in the clock. -/
theorem isExpired_mono {c : Cookie} {t nowMs : UInt64} (ht : t ≤ nowMs)
    (h : c.isExpired nowMs = false) : c.isExpired t = false := by
  unfold Cookie.isExpired at h ⊢
  cases hexp : c.expiresMs with
  | none => rfl
  | some expiry =>
    rw [hexp] at h
    simp only [Option.any_some, decide_eq_false_iff_not, UInt64.not_le] at h ⊢
    exact UInt64.lt_of_le_of_lt ht h

/-- A cookie that has not expired stays through every event that does not touch it. -/
theorem mem_jar_absorb_of_not_touches {store : SessionStore} {event : SessionEvent} {s : Text}
    {c : Cookie} {nowMs : UInt64} (hc : c ∈ store.jar s) (hlive : c.isExpired nowMs = false)
    (hbefore : event.Before nowMs) (htouch : ¬ event.Touches s c) :
    c ∈ (store.absorb event).jar s := by
  cases event with
  | set e =>
    simp only [absorb]
    split
    · rename_i c' hc'
      rw [jar_insert]
      split
      · rename_i hs
        have hid : c.identity ≠ c'.identity := fun hid => htouch ⟨hs.symm, c', hc', hid.symm⟩
        refine List.mem_append_left _ (List.mem_filter.mpr ⟨hs ▸ hc, ?_⟩)
        simpa using hid
      · exact hc
    · exact hc
  | clear session =>
    have hs : s ≠ session := fun hs => htouch hs.symm
    rwa [absorb, jar_clear, if_neg hs]
  | prune t =>
    rw [absorb, jar_prune]
    exact List.mem_filter.mpr ⟨hc, by rw [isExpired_mono hbefore hlive]; rfl⟩

/-! ### The jar after a run -/

/-- Every cookie of a jar is what the parser made of a header recorded under its session. -/
def Jarred (seen : List SessionEvent) (store : SessionStore) : Prop :=
  ∀ s c, c ∈ store.jar s → ∃ e, .set e ∈ seen ∧ e.session = s ∧ e.cookie = some c

/-- The invariant over a run of events. -/
theorem jarred_foldl (seen events : List SessionEvent) (store : SessionStore)
    (h : Jarred seen store) : Jarred (seen ++ events) (events.foldl absorb store) := by
  induction events generalizing seen store with
  | nil => simpa using h
  | cons event events ih =>
    have hstep : Jarred (seen ++ [event]) (store.absorb event) := by
      intro s c hc
      rcases mem_jar_absorb hc with hc | ⟨e, rfl, hs, hcookie⟩
      · obtain ⟨e, he, hs, hcookie⟩ := h s c hc
        exact ⟨e, List.mem_append_left _ he, hs, hcookie⟩
      · exact ⟨e, by simp, hs, hcookie⟩
    have hrest := ih _ _ hstep
    rwa [List.append_assoc] at hrest

/-- Every run is jarred by its own events. -/
theorem jarred_run (ops : List SessionOp) :
    Jarred (ops.flatMap SessionOp.events) (run ops) := by
  rw [run_eq_foldl]
  exact jarred_foldl [] _ new (fun s c hc => by simp at hc)

/-- An untouched cookie stays to the end of the run. -/
theorem mem_jar_foldl_of_not_touches {events : List SessionEvent} {store : SessionStore}
    {s : Text} {c : Cookie} {nowMs : UInt64} (hc : c ∈ store.jar s)
    (hlive : c.isExpired nowMs = false) (hbefore : ∀ event ∈ events, event.Before nowMs)
    (htouch : ∀ event ∈ events, ¬ event.Touches s c) :
    c ∈ (events.foldl absorb store).jar s := by
  induction events generalizing store with
  | nil => exact hc
  | cons event events ih =>
    have hstep := mem_jar_absorb_of_not_touches hc hlive (hbefore event List.mem_cons_self)
      (htouch event List.mem_cons_self)
    exact ih hstep (fun d hd => hbefore d (List.mem_cons_of_mem _ hd))
      (fun d hd => htouch d (List.mem_cons_of_mem _ hd))

/-- A cookie accepted in a run, not expired at `nowMs` and not touched later, is in the jar. -/
theorem mem_jar_run {ops : List SessionOp} {pre post : List SessionEvent} {e : SetBy}
    {c : Cookie} {nowMs : UInt64}
    (hops : ops.flatMap SessionOp.events = pre ++ .set e :: post) (hcookie : e.cookie = some c)
    (hlive : c.isExpired nowMs = false)
    (hbefore : ∀ event ∈ ops.flatMap SessionOp.events, event.Before nowMs)
    (htouch : ∀ event ∈ post, ¬ event.Touches e.session c) :
    c ∈ (run ops).jar e.session := by
  have hset : (SessionEvent.set e).Before nowMs := hbefore _ (by rw [hops]; simp)
  have hpost : ∀ event ∈ post, event.Before nowMs := fun d hd => hbefore d (by simp [hops, hd])
  rw [run_eq_foldl, hops, List.foldl_append, List.foldl_cons]
  refine mem_jar_foldl_of_not_touches ?_ hlive hpost htouch
  simp only [absorb, hcookie]
  rw [jar_insert, if_pos rfl, isExpired_mono hset.2 hlive]
  simp

/-! ### What is sent -/

/-- The cookies sent are those of the jar that have not expired and match the request. -/
theorem mem_matching {nowMs : UInt64} {store : SessionStore} {session host path : Text}
    {isSecure : Bool} {c : Cookie} :
    c ∈ store.matching nowMs session host path isSecure ↔
      c ∈ store.jar session ∧ c.isExpired nowMs = false ∧
        c.matchesRequest host path isSecure = true := by
  unfold matching
  rw [(List.perm_insertionSort _ _).mem_iff, List.mem_filter, Bool.and_eq_true,
    Bool.not_eq_true']

/-- A cookie matches a request by its host rule, its path rule and its secure flag. -/
theorem matchesRequest_iff {c : Cookie} {host path : Text} {isSecure : Bool} :
    c.matchesRequest host path isSecure = true ↔
      (c.secure = true → isSecure = true) ∧
      (if c.hostOnly then asciiLower host = c.domain else Covers c.domain (asciiLower host)) ∧
      Below c.path path := by
  unfold Cookie.matchesRequest
  rw [← pathMatches_iff]
  cases hs : c.secure <;> cases isSecure <;> cases hh : c.hostOnly <;>
    simp [domainMatches_iff]

/-- Where a cookie set by `e` may be sent: to the setting host alone without a `Domain`, to the
hosts of a dotted domain that covers the setting host with one; below the cookie path; over a
secure connection when the header says `Secure`; and not once expired. -/
structure ScopedTo (e : SetBy) (c : Cookie) (host path : Text) (isSecure : Bool)
    (nowMs : UInt64) : Prop where
  hostOnly : Cookie.hasAttr "domain".toList e.header = false →
    asciiLower host = asciiLower (trim e.host)
  domain : Cookie.hasAttr "domain".toList e.header = true →
    '.' ∈ c.domain ∧ Covers c.domain (asciiLower (trim e.host)) ∧ Covers c.domain (asciiLower host)
  path : Below c.path path
  secure : Cookie.hasAttr "secure".toList e.header = true → isSecure = true
  unexpired : c.isExpired nowMs = false

/-- A cookie that matches a request is sent within the scope its header allows. -/
theorem scopedTo_of_matches {e : SetBy} {c : Cookie} {host path : Text} {isSecure : Bool}
    {nowMs : UInt64} (hcookie : e.cookie = some c) (hlive : c.isExpired nowMs = false)
    (hmatch : c.matchesRequest host path isSecure = true) :
    ScopedTo e c host path isSecure nowMs := by
  obtain ⟨hho, hse, -, hdom⟩ := Cookie.parse_fields hcookie
  obtain ⟨hsec, hhost, hpath⟩ := matchesRequest_iff.mp hmatch
  unfold Cookie.DomainOk at hdom
  refine ⟨fun hnone => ?_, fun hsome => ?_, hpath, fun h => hsec (by rw [hse, h]), hlive⟩
  · have hflag : c.hostOnly = true := by rw [hho, hnone]; rfl
    rw [if_pos hflag] at hdom hhost
    rw [hhost, hdom]
  · have hflag : ¬ c.hostOnly = true := by rw [hho, hsome]; simp
    rw [if_neg hflag] at hdom hhost
    exact ⟨hdom.1, hdom.2, hhost⟩

/-- **Cookie scoping over whole runs.** After any sequence of calls, the `Cookie` header of a
request is the join of `name=value` pairs, each of a cookie that the parser made of a header
recorded under the same session and that is sent within the scope of that header. And a cookie
that was set without `Domain` and `Path`, has not expired and has not been replaced or cleared
since, is one of them for exactly the requests for the setting host below its default path (over a
secure connection when the header says `Secure`). -/
theorem cookieHeader_run_scoped (ops : List SessionOp) (nowMs : UInt64)
    (session host path : Text) (isSecure : Bool) :
    ∃ cs : List Cookie,
      (run ops).cookieHeader nowMs session host path isSecure
        = (if cs = [] then none else some (List.intercalate "; ".toList (cs.map Cookie.pair))) ∧
      (∀ c ∈ cs, ∃ e, .set e ∈ ops.flatMap SessionOp.events ∧ e.session = session ∧
        e.cookie = some c ∧ ScopedTo e c host path isSecure nowMs) ∧
      (∀ pre e post c, ops.flatMap SessionOp.events = pre ++ .set e :: post →
        e.session = session → e.cookie = some c →
        Cookie.hasAttr "domain".toList e.header = false →
        Cookie.hasAttr "path".toList e.header = false →
        c.isExpired nowMs = false →
        (∀ event ∈ ops.flatMap SessionOp.events, event.Before nowMs) →
        (∀ event ∈ post, ¬ event.Touches session c) →
        (c ∈ cs ↔
          asciiLower host = asciiLower (trim e.host) ∧ Below (defaultPath e.path) path ∧
            (Cookie.hasAttr "secure".toList e.header = true → isSecure = true))) := by
  refine ⟨(run ops).matching nowMs session host path isSecure, rfl, fun c hc => ?_, ?_⟩
  -- A matching cookie lies in the jar, so some header put it there.
  · obtain ⟨hjar, hlive, hmatch⟩ := mem_matching.mp hc
    obtain ⟨e, hseen, hsession, hcookie⟩ := jarred_run ops session c hjar
    exact ⟨e, hseen, hsession, hcookie, scopedTo_of_matches hcookie hlive hmatch⟩
  -- Without `Domain` and `Path` the scope is that of the request that set the cookie.
  · rintro pre e post c hops rfl hcookie hdomain hpath hlive hbefore htouch
    have hjar := mem_jar_run hops hcookie hlive hbefore htouch
    obtain ⟨hho, hse, hpa, hdom⟩ := Cookie.parse_fields hcookie
    have hflag : c.hostOnly = true := by rw [hho, hdomain]; rfl
    rw [Cookie.DomainOk, if_pos hflag] at hdom
    rw [mem_matching, matchesRequest_iff, if_pos hflag, hdom, hpa hpath, hse]
    constructor
    · rintro ⟨-, -, hsec, hhost, hbelow⟩
      exact ⟨hhost, hbelow, hsec⟩
    · rintro ⟨hhost, hbelow, hsec⟩
      exact ⟨hjar, hlive, hsec, hhost, hbelow⟩

/-- The header of one login response. -/
def loginSetBy : SetBy :=
  ⟨"work".toList, "sid=abc".toList, "App.test".toList, "/admin/login".toList, 0, 0⟩

/-- The call that records it. -/
def loginOp : SessionOp :=
  .record "work".toList ["sid=abc".toList] "App.test".toList "/admin/login".toList fun _ => 0

/-- The cookie of that login is in the header for the host that set it, below `/admin`. -/
theorem cookieHeader_run_scoped_login : ∃ cs : List Cookie,
    (run [loginOp]).cookieHeader 0 "work".toList "app.test".toList "/admin/users".toList true
      = some (List.intercalate "; ".toList (cs.map Cookie.pair)) ∧
    ∃ c ∈ cs, loginSetBy.cookie = some c ∧ c.pair = "sid=abc".toList := by
  obtain ⟨cs, hheader, -, hgoes⟩ := cookieHeader_run_scoped [loginOp] 0 "work".toList
    "app.test".toList "/admin/users".toList true
  have hbelow : Below (defaultPath "/admin/login".toList) "/admin/users".toList := by
    rw [← pathMatches_iff]
    decide
  have hmem := (hgoes [] loginSetBy [] _ rfl rfl rfl (by decide) (by decide)
    (by decide) (by simp [loginOp, SessionOp.events, recordEvents, SessionEvent.Before])
    (by simp)).mpr ⟨by decide, hbelow, by decide⟩
  rw [if_neg (List.ne_nil_of_mem hmem)] at hheader
  exact ⟨cs, hheader, _, hmem, rfl, by decide⟩

end SessionStore
end Gabriel.Engine
