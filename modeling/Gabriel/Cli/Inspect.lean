import Gabriel.Cli.Support
import Gabriel.Core.Har
import Gabriel.Core.Jwt

/-!
# `Gabriel.Cli.Inspect`: `jwt` and `har import`

What the two commands of `gabriel-cli/src/main.rs` print about a token and about an imported file,
on standard output and standard error in the order in which it is written. An error that ends a
command is printed elsewhere.

The definitions:

* `jwtReport`: what is printed about a token: its algorithm, its claims, the times and the warnings.
* `jwtCommand`: the command: a token as JSON or as that report, or why it is none.
* `importReport`: what `har import` prints about an imported file.
* `harImport`: what that command prints, when every capture can be stored.
-/

set_option autoImplicit false

namespace Gabriel.Cli

open Gabriel.Core Gabriel.Engine Text

/-- Fill a text up with spaces on the right. -/
def padRight (width : Nat) (text : Text) : Text :=
  text ++ List.replicate (width - text.length) ' '

/-! ### Tokens -/

/-- What `jwt` needs. -/
structure InspectTools where
  print : PrintTools
  jwt : JwtTools

/-- The line with the algorithm and the key. -/
def algorithmLine (style : Style) (jwt : Jwt) : Text :=
  style.bold "algorithm".toList ++ ' ' :: jwt.algorithm.getD "<none declared>".toList
    ++ jwt.keyId.elim [] fun kid => "  kid ".toList ++ kid

/-- How far the expiry is away. -/
def relativeExpiry (tools : InspectTools) (jwt : Jwt) (nowMs : UInt64) (claim : Text) : Text :=
  match jwt.expiresInMs tools.jwt nowMs with
  | some remaining =>
    if claim ≠ "exp".toList then []
    else if 0 < remaining then
      "  in ".toList ++ formatDuration tools.print remaining.toUInt64
    else "  ".toList ++ formatDuration tools.print (-remaining).toUInt64 ++ " ago".toList
  | none => []

/-- The time claims with their labels. -/
def timeLabels : List (Text × Text) :=
  [("issued".toList, "iat".toList), ("not before".toList, "nbf".toList),
    ("expires".toList, "exp".toList)]

/-- The line of a time claim, when it is there. -/
def timeLine (tools : InspectTools) (style : Style) (jwt : Jwt) (nowMs : UInt64)
    (claim : Text × Text) : Option Text :=
  (jwt.timeClaimMs tools.jwt claim.2).map fun ms =>
    padRight 10 (style.dim claim.1) ++ ' ' :: formatIso8601 ms
      ++ style.dim (relativeExpiry tools jwt nowMs claim.2)

/-- The line of a warning. -/
def warningLine (style : Style) (warning : JwtWarning) : Text :=
  (if warning.isSerious then style.red ['!'] else style.yellow ['·']) ++ ' ' :: warning.message

/-- What `jwt` prints about a token. -/
def jwtReport (tools : InspectTools) (style : Style) (nowMs : UInt64) (jwt : Jwt) : List Text :=
  [algorithmLine style jwt]
    ++ (jwt.notableClaims tools.jwt).map (fun claim =>
      padRight 10 (style.dim claim.1) ++ ' ' :: style.safe claim.2)
    ++ timeLabels.filterMap (timeLine tools style jwt nowMs)
    ++ section_ (jwt.warnings.map (warningLine style))
    ++ [[], style.dim ("signature not verified — that needs the issuer's key, ".toList
      ++ "which Gabriel does not have".toList)]

/-- The `jwt` command. The clock is read twice: to judge the token, and to print it. -/
def jwtCommand (tools : InspectTools) (style : Style) (decodedMs nowMs : UInt64) (asJson : Bool)
    (raw : Text) : Except Text (List Text) := do
  let jwt ← Jwt.decodeAt tools.jwt raw decodedMs
  .ok (if asJson then
      [tools.print.json.pretty
        (.object [("header".toList, jwt.header), ("payload".toList, jwt.payload)])]
    else jwtReport tools style nowMs jwt)

/-! ### Imports -/

/-- What `har import` says about the captures it has stored. -/
def importReport (style : Style) (file creator : Text) (imported skipped : Nat) : List Text :=
  [style.green "imported".toList ++ ' ' :: natText imported ++ " capture(s) from ".toList ++ file
      ++ " (".toList ++ creator ++ [')']]
    ++ (if 0 < skipped then
      [style.yellow "note:".toList ++ " skipped ".toList ++ natText skipped ++ " entr".toList
        ++ (if skipped = 1 then ['y'] else "ies".toList) ++ " with no usable request".toList]
      else [])
    ++ (if 0 < imported then
      [[], "  ".toList ++ style.dim "gabriel capture ls        see what arrived".toList,
        "  ".toList ++ style.dim "gabriel promote <id>      turn one into a request".toList]
      else [])

/-- The `har import` command, when every capture can be stored; `none` when reading an instant
panics. -/
def harImport (upper : Text → Text) (idPrefix : Text) (nowMs : UInt64) (style : Style)
    (file : Text) (log : Har.Log) : Option (List Text) :=
  (Har.importLog upper idPrefix nowMs log).map fun result =>
    importReport style file log.creator.name result.1.length result.2

end Gabriel.Cli
