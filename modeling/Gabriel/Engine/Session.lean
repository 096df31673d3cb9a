import Gabriel.Core.Numbers
import Gabriel.Lib.SortedMap
import Mathlib

/-!
# `Gabriel.Engine.Session`: cookie jars, keyed by session

The cookie parser, the two matching rules and the jar operations of
`gabriel-engine/src/session.rs`. A host, a path and a header are texts, so an offset into one
counts characters; the places the source cuts at stand next to an ASCII `.` or `/`, where a
count of characters and a count of bytes name the same place.

`now_ms` is read once by each call that needs it. A call that reads the clock more than once
takes its readings as a function of the reading's number.

The definitions:

* `domainMatches`, `pathMatches`, `defaultPath`: the matching rules.
* `parse`: a `Set-Cookie` header, attribute by attribute (`parseAttr`); a refused one is none.
* `insert`, `recordSetCookies`: store the cookies of a response in a session.
* `matching`, `cookieHeader`: the cookies of a session that go with a request.
* `prune`, `clear`: drop the cookies that have expired, and a session.
-/

set_option autoImplicit false

namespace Gabriel.Engine

open Gabriel.Core Text

/-- A cookie as the jar stores it. -/
structure Cookie where
  name : Text
  value : Text
  /-- Host or registrable domain, without a leading dot. -/
  domain : Text
  path : Text
  /-- True when the cookie had no `Domain` attribute. -/
  hostOnly : Bool
  secure : Bool
  httpOnly : Bool
  /-- Epoch milliseconds; `none` for a session cookie. -/
  expiresMs : Option UInt64
  deriving DecidableEq, Repr

/-- `host` is `domain`, or `host` ends with `.domain`. -/
def domainMatches (host domain : Text) : Bool :=
  host == domain
    || (decide (domain.length < host.length) && domain.isSuffixOf host
      && host[host.length - domain.length - 1]? == some '.')

/-- `requestPath` is `cookiePath`, or lies below it. -/
def pathMatches (requestPath cookiePath : Text) : Bool :=
  if requestPath = cookiePath then true
  else if ¬ cookiePath <+: requestPath then false
  else cookiePath.getLast? == some '/' || requestPath[cookiePath.length]? == some '/'

/-- The index of the last occurrence of a character. -/
def rfind (c : Char) (t : Text) : Option Nat :=
  if c ∈ t then some (t.length - 1 - t.reverse.idxOf c) else none

/-- The default path: the request path up to its last `/`. -/
def defaultPath (requestPath : Text) : Text :=
  if requestPath.head? ≠ some '/' then ['/']
  else match rfind '/' requestPath with
    | none => ['/']
    | some 0 => ['/']
    | some index => requestPath.take index

/-- The month number of an English abbreviation. -/
def monthNumber (t : Text) : Option Int64 :=
  ["Jan", "Feb", "Mar", "Apr", "May", "Jun", "Jul", "Aug", "Sep", "Oct", "Nov", "Dec"].findIdx?
    (·.toList = t) |>.map fun i => Int64.ofNat (i + 1)

/-- The IMF-fixdate form used by `Expires`. Other forms give no expiry. -/
def parseHttpDate (value : Text) : Option UInt64 := do
  let value := trim value
  let rest := ((splitOnce ", ".toList value).map (·.2)).getD value
  let fields := splitWhitespace rest
  let day ← fields[0]?.bind parseI64
  let month ← fields[1]?.bind monthNumber
  let year ← fields[2]?.bind parseI64
  let time ← fields[3]?
  let hms := time.splitOn ':'
  let hour ← hms[0]?.bind parseI64
  let minute ← hms[1]?.bind parseI64
  let second ← hms[2]?.bind parseI64
  let days := daysFromCivil year month day
  let secs := days * 86400 + hour * 3600 + minute * 60 + second
  some ((max secs 0).toUInt64 * 1000)

namespace Cookie

/-- Split an attribute into its lower-case key and its value. -/
def attrKeyValue (attr : Text) : Text × Text :=
  match splitOnce ['='] attr with
  | some (k, v) => (asciiLower (trim k), trim v)
  | none => (asciiLower (trim attr), [])

/-- One attribute of the header: the cookie and the pending `Max-Age` after it, or `none` when
the attribute claims a domain the origin may not set. -/
def parseAttr (requestHost : Text) (state : Cookie × Option Int64) (attr : Text) :
    Option (Cookie × Option Int64) :=
  let (cookie, maxAge) := state
  let (key, val) := attrKeyValue attr
  if key = "domain".toList then
    let claimed := asciiLower (val.dropWhile (· == '.'))
    if claimed = [] ∨ '.' ∉ claimed ∨ ¬ domainMatches requestHost claimed then none
    else some ({ cookie with domain := claimed, hostOnly := false }, maxAge)
  else if key = "path".toList ∧ val.head? = some '/' then
    some ({ cookie with path := val }, maxAge)
  else if key = "secure".toList then some ({ cookie with secure := true }, maxAge)
  else if key = "httponly".toList then some ({ cookie with httpOnly := true }, maxAge)
  else if key = "max-age".toList then some (cookie, parseI64 val)
  else if key = "expires".toList then
    some ({ cookie with expiresMs := parseHttpDate val }, maxAge)
  else some (cookie, maxAge)

/-- The expiry instant `Max-Age` names: now plus that many seconds, not before the epoch. -/
def maxAgeExpiry (nowMs : UInt64) (seconds : Int64) : UInt64 :=
  (max (nowMs.toInt64 + seconds * 1000) 0).toUInt64

/-- Parse one `Set-Cookie` value as seen from `requestHost` and `requestPath`. -/
def parse (nowMs : UInt64) (header requestHost requestPath : Text) : Option Cookie := do
  let parts := header.splitOn ';'
  let (name, value) ← parts.head?.bind (splitOnce ['='])
  let name := trim name
  if name = [] then none
  else do
    let requestHost := asciiLower (trim requestHost)
    let cookie : Cookie :=
      { name, value := trim value, domain := requestHost, path := defaultPath requestPath,
        hostOnly := true, secure := false, httpOnly := false, expiresMs := none }
    let (cookie, maxAge) ← parts.tail.foldlM (parseAttr requestHost) (cookie, none)
    match maxAge with
    | some seconds => some { cookie with expiresMs := some (maxAgeExpiry nowMs seconds) }
    | none => some cookie

/-- Whether the cookie has expired at `nowMs`. -/
def isExpired (c : Cookie) (nowMs : UInt64) : Bool :=
  c.expiresMs.any fun expiry => expiry ≤ nowMs

/-- Whether the cookie goes with the given request. -/
def matchesRequest (c : Cookie) (host path : Text) (isSecure : Bool) : Bool :=
  if c.secure ∧ ¬ isSecure then false
  else
    let host := asciiLower host
    let hostOk := if c.hostOnly then host == c.domain else domainMatches host c.domain
    hostOk && pathMatches path c.path

/-- The key that identifies the same cookie for replacement. -/
def identity (c : Cookie) : Text × Text × Text := (c.name, c.domain, c.path)

/-- The `name=value` pair of the `Cookie` header. -/
def pair (c : Cookie) : Text := c.name ++ '=' :: c.value

end Cookie

/-- Named cookie jars, one per session. -/
structure SessionStore where
  sessions : SortedMap Text (List Cookie)

namespace SessionStore

/-- A store without a jar. -/
def new : SessionStore := ⟨SortedMap.empty⟩

/-- The jar of a session; a session without one holds no cookie. -/
def jar (store : SessionStore) (session : Text) : List Cookie :=
  (store.sessions.get? session).getD []

/-- Remove a session's jar. -/
def clear (store : SessionStore) (session : Text) : SessionStore × Nat :=
  (⟨store.sessions.erase session⟩, (store.jar session).length)

/-- Record a cookie, in place of one with the same name, domain and path. A cookie that has
expired already only removes. -/
def insert (nowMs : UInt64) (store : SessionStore) (session : Text) (cookie : Cookie) :
    SessionStore :=
  let jar := (store.jar session).filter fun existing => existing.identity ≠ cookie.identity
  let jar := if cookie.isExpired nowMs then jar else jar ++ [cookie]
  ⟨store.sessions.insert session jar⟩

/-- Absorb every `Set-Cookie` of a response, and count the cookies accepted. Each header takes
two readings of the clock: one by the parser, one by the insertion. -/
def recordSetCookies (store : SessionStore) (session : Text) (requestHost requestPath : Text) :
    (Nat → UInt64) → List Text → SessionStore × Nat
  | _, [] => (store, 0)
  | clock, header :: headers =>
    match Cookie.parse (clock 0) header requestHost requestPath with
    | some cookie =>
      let (store', recorded) := recordSetCookies (store.insert (clock 1) session cookie) session
        requestHost requestPath (fun n => clock (n + 2)) headers
      (store', recorded + 1)
    | none => recordSetCookies store session requestHost requestPath
        (fun n => clock (n + 2)) headers

/-- The cookies a request takes from the jar, longer paths first. -/
def matching (nowMs : UInt64) (store : SessionStore) (session host path : Text)
    (isSecure : Bool) : List Cookie :=
  ((store.jar session).filter fun c => !c.isExpired nowMs && c.matchesRequest host path isSecure)
    |>.insertionSort fun a b => utf8Len b.path ≤ utf8Len a.path

/-- The `Cookie` header for a request, or `none` when no cookie matches. -/
def cookieHeader (nowMs : UInt64) (store : SessionStore) (session host path : Text)
    (isSecure : Bool) : Option Text :=
  let matching := store.matching nowMs session host path isSecure
  if matching = [] then none
  else some (List.intercalate "; ".toList (matching.map Cookie.pair))

/-- Drop expired cookies, and count them. -/
def prune (nowMs : UInt64) (store : SessionStore) : SessionStore × Nat :=
  let kept := store.sessions.mapValues fun jar => jar.filter fun c => !c.isExpired nowMs
  (⟨kept⟩, ((store.sessions.entries.map (·.2.length)).sum
    - (kept.entries.map (·.2.length)).sum))

end SessionStore

example : (Cookie.parse 0 "sid=abc; Domain=.app.test; Path=/admin; Secure; HttpOnly".toList
    "www.app.test".toList "/".toList).map (fun c => (c.domain, c.path, c.hostOnly, c.secure))
    = some ("app.test".toList, "/admin".toList, false, true) := by decide

end Gabriel.Engine
