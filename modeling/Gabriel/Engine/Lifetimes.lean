import Gabriel.Core.Checked
import Gabriel.Engine.Session

/-!
# `Gabriel.Engine.Lifetimes`: lifetimes from a server, with overflow checks

The parser of cookies and the expiry of a token in a build with overflow checks, where an
operation that overflows panics: these functions have `none` for it. `httpFields` is the part of
`parse_http_date` in front of the arithmetic.

The definitions:

* `httpFields`: the numbers of an HTTP date.
* `expiryChecked`, `maxAgeExpiryChecked`, `tokenExpiryChecked`: the arithmetic of each lifetime.
* `parseAttrsChecked`, `parseChecked`: the parser of cookies, attribute by attribute.
-/

set_option autoImplicit false

namespace Gabriel.Engine

open Gabriel.Core Text MachineInt

/-- The numbers of an `Expires` text. -/
structure HttpFields where
  day : Int64
  month : Int64
  year : Int64
  hour : Int64
  minute : Int64
  second : Int64

/-- Read the numbers of an `Expires` text. -/
def httpFields (value : Text) : Option HttpFields := do
  let value := trim value
  let rest := ((splitOnce ", ".toList value).map (·.2)).getD value
  let fields := splitWhitespace rest
  let day ← fields[0]?.bind parseI64
  let month ← fields[1]?.bind monthNumber
  let year ← fields[2]?.bind parseI64
  let time ← fields[3]?
  let hms := time.splitOn ':'
  let hour ← hms[0]?.bind parseI64
  let minute ← hms[1]?.bind parseI64
  let second ← hms[2]?.bind parseI64
  some { day, month, year, hour, minute, second }

namespace HttpFields

/-- The instant of the numbers, not before the epoch. -/
def expiry (f : HttpFields) : UInt64 :=
  let days := daysFromCivil f.year f.month f.day
  let secs := days * 86400 + f.hour * 3600 + f.minute * 60 + f.second
  (max secs 0).toUInt64 * 1000

/-- The instant of the numbers, with overflow checks. -/
def expiryChecked (f : HttpFields) : Option UInt64 := do
  let days ← daysFromCivilChecked f.year f.month f.day
  let days ← checkedMul days 86400
  let hours ← checkedMul f.hour 3600
  let secs ← checkedAdd days hours
  let minutes ← checkedMul f.minute 60
  let secs ← checkedAdd secs minutes
  let secs ← checkedAdd secs f.second
  checkedMulU64 (max secs 0).toUInt64 1000

end HttpFields

/-- The expiry of an `Expires` text, with overflow checks. -/
def parseHttpDateChecked (value : Text) : Option (Option UInt64) :=
  match httpFields value with
  | none => some none
  | some fields => fields.expiryChecked.map some

namespace Cookie

/-- The expiry that `Max-Age` names, with overflow checks. -/
def maxAgeExpiryChecked (nowMs : UInt64) (seconds : Int64) : Option UInt64 := do
  let age ← checkedMul seconds 1000
  let sum ← checkedAdd nowMs.toInt64 age
  some (max sum 0).toUInt64

/-- One attribute of the header, with overflow checks. -/
def parseAttrChecked (requestHost : Text) (state : Cookie × Option Int64) (attr : Text) :
    Option (Option (Cookie × Option Int64)) :=
  let (cookie, maxAge) := state
  let (key, val) := attrKeyValue attr
  if key = "expires".toList then
    (parseHttpDateChecked val).map fun expiresMs => some ({ cookie with expiresMs }, maxAge)
  else some (parseAttr requestHost state attr)

/-- The attributes of the header, with overflow checks. -/
def parseAttrsChecked (requestHost : Text) (state : Cookie × Option Int64) :
    List Text → Option (Option (Cookie × Option Int64))
  | [] => some (some state)
  | attr :: attrs =>
    match parseAttrChecked requestHost state attr with
    | none => none
    | some none => some none
    | some (some state) => parseAttrsChecked requestHost state attrs

/-- The cookie that a header starts, in front of its attributes. -/
def started (header requestHost requestPath : Text) : Option Cookie :=
  ((header.splitOn ';').head?.bind (splitOnce ['='])).bind fun e =>
    if trim e.1 = [] then none
    else some
      { name := trim e.1, value := trim e.2, domain := asciiLower (trim requestHost),
        path := defaultPath requestPath, hostOnly := true, secure := false, httpOnly := false,
        expiresMs := none }

/-- Parse one `Set-Cookie` value, with overflow checks. -/
def parseChecked (nowMs : UInt64) (header requestHost requestPath : Text) :
    Option (Option Cookie) :=
  match started header requestHost requestPath with
  | none => some none
  | some cookie =>
    match parseAttrsChecked (asciiLower (trim requestHost)) (cookie, none)
      (header.splitOn ';').tail with
    | none => none
    | some none => some none
    | some (some (cookie, none)) => some (some cookie)
    | some (some (cookie, some seconds)) =>
      (maxAgeExpiryChecked nowMs seconds).map fun expiry =>
        some { cookie with expiresMs := some expiry }

end Cookie

/-- When a token expires that was received now, with overflow checks. -/
def tokenExpiryChecked (nowMs expiresIn : UInt64) : Option UInt64 := do
  let lifetime ← checkedMulU64 expiresIn 1000
  checkedAddU64 nowMs lifetime

end Gabriel.Engine
