import Gabriel.Cli.Output
import Gabriel.Lib.Double

/-!
# `Gabriel.Cli.Report`: run reports

JUnit XML for CI and HTML for people, as `gabriel-cli/src/report.rs` writes them. Both formats
are put together from literals and escaped values.

The time of a test case is a quotient of `f64`, printed with three decimals. `toF64` and
`quotientF64` are the roundings of that type.

The definitions:

* `RunReport`: the results of a run, with their totals (`total`, `failures`, `errors`, `passed`).
* `xml`, `html`: the two escapers.
* `junitCases`: the test cases of a request: one for each assertion, or one for the request.
* `toJunit`: the JUnit document.
* `toHtml`: the page.
-/

set_option autoImplicit false

namespace Gabriel.Cli

open Gabriel.Core Gabriel.Engine Text Double

/-! ### Results -/

/-- The result of one assertion. -/
structure AssertionLine where
  description : Text
  passed : Bool
  actual : Text
  deriving DecidableEq

/-- The result of one request. -/
inductive CaseOutcome where
  | passed
  /-- The request was sent and an assertion did not hold. -/
  | failed
  /-- The request could not be sent at all. -/
  | errored (reason : Text)
  deriving DecidableEq

/-- One request of a run. -/
structure CaseResult where
  /-- The id of the request. -/
  id : Text
  method : Text
  url : Text
  status : Option UInt16
  durationMs : UInt64
  outcome : CaseOutcome
  assertions : List AssertionLine
  deriving DecidableEq

/-- Whether a request could not be sent. -/
def CaseOutcome.isErrored : CaseOutcome → Bool
  | .errored _ => true
  | _ => false

/-- A run. -/
structure RunReport where
  collection : Text
  environment : Option Text
  startedMs : UInt64
  cases : List CaseResult
  deriving DecidableEq

namespace RunReport

/-- `RunReport::total`. -/
def total (report : RunReport) : Nat := report.cases.length

/-- `RunReport::failures`. -/
def failures (report : RunReport) : Nat := report.cases.countP fun c => c.outcome = .failed

/-- `RunReport::errors`. -/
def errors (report : RunReport) : Nat := report.cases.countP fun c => c.outcome.isErrored

/-- `RunReport::passed`. -/
def passed (report : RunReport) : Nat := report.total - report.failures - report.errors

/-- The sum of the durations. -/
def durationMs (report : RunReport) : UInt64 := (report.cases.map (·.durationMs)).sum

/-- `RunReport::is_green`. -/
def isGreen (report : RunReport) : Bool := report.failures = 0 ∧ report.errors = 0

end RunReport

/-! ### JUnit -/

/-- Seconds with three decimals. -/
def seconds (ms : UInt64) : Text :=
  let thousandths := roundQuotient (quotientF64 (toF64 ms.toNat) 1000 * 1000) (2 ^ 64)
  natText (thousandths / 1000) ++ '.' :: padded 3 (thousandths % 1000)

/-- Escape one character for XML. The control characters that XML forbids are dropped. -/
def xmlChar (c : Char) : Text :=
  if c = '&' then "&amp;".toList
  else if c = '<' then "&lt;".toList
  else if c = '>' then "&gt;".toList
  else if c = '"' then "&quot;".toList
  else if c = '\'' then "&apos;".toList
  else if c = '\t' ∨ c = '\n' ∨ c = '\r' then [c]
  else if c.toNat < 0x20 then []
  else [c]

/-- Escape for XML text and attribute values alike. -/
def xml (text : Text) : Text := text.flatMap xmlChar

/-- What became of a test case. -/
inductive JunitKind where
  | passed
  | failure
  | error
  deriving DecidableEq

/-- One test case. -/
structure JunitCase where
  name : Text
  kind : JunitKind
  message : Text
  detail : Text
  deriving DecidableEq

/-- A status, or what stands for none. -/
def statusOr (status : Option UInt16) (otherwise : Text) : Text :=
  (status.map fun s => natText s.toNat).getD otherwise

/-- The test case of an assertion. -/
def assertionCase (case : CaseResult) (redactor : Redactor) (assertion : AssertionLine) :
    JunitCase :=
  { name := redactor.apply assertion.description
    kind := if assertion.passed then .passed else .failure
    message := "expected ".toList ++ redactor.apply assertion.description ++ ", got ".toList
      ++ redactor.apply assertion.actual
    detail := case.method ++ ' ' :: redactor.apply case.url ++ "\nstatus: ".toList
      ++ statusOr case.status ['-'] ++ '\n' :: redactor.apply assertion.description
      ++ "\nactual: ".toList ++ redactor.apply assertion.actual }

/-- The test cases of a request that was sent: one for each assertion, and one when there are
none. -/
def sentCases (case : CaseResult) (redactor : Redactor) : List JunitCase :=
  if case.assertions = [] then
    [{ name := case.method ++ ' ' :: redactor.apply case.url ++ " → ".toList
         ++ statusOr case.status "no response".toList
       kind := .passed, message := [], detail := [] }]
  else case.assertions.map (assertionCase case redactor)

/-- The test cases of a request. -/
def junitCases (case : CaseResult) (redactor : Redactor) : List JunitCase :=
  match case.outcome with
  | .errored reason =>
    [{ name := case.method ++ ' ' :: redactor.apply case.url
       kind := .error, message := redactor.apply reason, detail := redactor.apply reason }]
  | _ => sentCases case redactor

/-- One property of a suite. -/
def junitProperty (name value : Text) : Text :=
  "      <property name=\"".toList ++ xml name ++ "\" value=\"".toList ++ xml value
    ++ "\"/>\n".toList

/-- The element of a test case that did not pass. -/
def junitProblem (element : Text) (junitCase : JunitCase) : Text :=
  ">\n".toList ++ "      <".toList ++ element ++ " message=\"".toList ++ xml junitCase.message
    ++ "\">".toList ++ xml junitCase.detail ++ "</".toList ++ element ++ ">\n".toList
    ++ "    </testcase>\n".toList

/-- One test case. -/
def junitTestcase (case : CaseResult) (redactor : Redactor) (junitCase : JunitCase) : Text :=
  "    <testcase classname=\"".toList ++ xml (redactor.apply case.id) ++ "\" name=\"".toList
    ++ xml junitCase.name ++ "\" time=\"".toList ++ seconds case.durationMs ++ ['"']
    ++ match junitCase.kind with
      | .passed => "/>\n".toList
      | .failure => junitProblem "failure".toList junitCase
      | .error => junitProblem "error".toList junitCase

/-- The suite of a request. -/
def junitSuite (redactor : Redactor) (case : CaseResult) : Text :=
  let cases := junitCases case redactor
  "  <testsuite name=\"".toList ++ xml (redactor.apply case.id) ++ "\" tests=\"".toList
    ++ natText cases.length ++ "\" failures=\"".toList
    ++ natText (cases.countP fun c => c.kind = .failure) ++ "\" errors=\"".toList
    ++ natText (cases.countP fun c => c.kind = .error) ++ "\" time=\"".toList
    ++ seconds case.durationMs ++ "\">\n".toList
    ++ "    <properties>\n".toList
    ++ junitProperty "method".toList case.method
    ++ junitProperty "url".toList (redactor.apply case.url)
    ++ junitProperty "status".toList (statusOr case.status [])
    ++ "    </properties>\n".toList
    ++ cases.flatMap (junitTestcase case redactor)
    ++ "  </testsuite>\n".toList

/-- The first line of the file. -/
def junitProlog : Text := "<?xml version=\"1.0\" encoding=\"UTF-8\"?>\n".toList

/-- The report for CI. -/
def toJunit (report : RunReport) (redactor : Redactor) : Text :=
  junitProlog
    ++ "<testsuites name=\"".toList ++ xml (redactor.apply report.collection)
    ++ "\" tests=\"".toList ++ natText report.total
    ++ "\" failures=\"".toList ++ natText report.failures
    ++ "\" errors=\"".toList ++ natText report.errors
    ++ "\" time=\"".toList ++ seconds report.durationMs ++ "\">\n".toList
    ++ report.cases.flatMap (junitSuite redactor)
    ++ "</testsuites>\n".toList

/-! ### HTML -/

/-- Escape one character for HTML. -/
def htmlChar (c : Char) : Text :=
  if c = '&' then "&amp;".toList
  else if c = '<' then "&lt;".toList
  else if c = '>' then "&gt;".toList
  else if c = '"' then "&quot;".toList
  else if c = '\'' then "&#39;".toList
  else [c]

/-- Escape for HTML text and attribute values alike. -/
def html (text : Text) : Text := text.flatMap htmlChar

/-- The page up to its title. -/
def htmlStart : Text :=
  "<!doctype html>\n<html lang=\"en\">\n<head>\n<meta charset=\"utf-8\">\n".toList
    ++ "<meta name=\"viewport\" content=\"width=device-width, initial-scale=1\">\n".toList
    ++ "<title>Gabriel run — ".toList

/-- The style of the page, in pieces of a line. -/
def htmlCss : List String :=
  [":root \x7b color-scheme: light dark; --pass: #1a7f37; --fail: #cf222e; --error: ",
    "#9a6700; --line: #d0d7de; --muted: #656d76; \x7d\n",
    "@media (prefers-color-scheme: dark) \x7b :root \x7b --line: #30363d; --muted: #8b949e; ",
    "\x7d \x7d\n",
    "body \x7b font: 15px/1.5 ui-sans-serif, -apple-system, system-ui, sans-serif; margin: ",
    "0; padding: 2rem 1.5rem; max-width: 60rem; \x7d\n",
    "h1 \x7b font-size: 1.4rem; margin: 0 0 .25rem; \x7d\n",
    ".sub \x7b color: var(--muted); margin-bottom: 1.5rem; \x7d\n",
    ".totals \x7b display: flex; flex-wrap: wrap; gap: 1.5rem; padding: 1rem 0; ",
    "border-block: 1px solid var(--line); margin-bottom: 1.5rem; \x7d\n",
    ".total b \x7b display: block; font-size: 1.6rem; font-weight: 600; \x7d\n",
    ".total span \x7b color: var(--muted); font-size: .85rem; \x7d\n",
    ".pass \x7b color: var(--pass); \x7d .fail \x7b color: var(--fail); \x7d .error \x7b ",
    "color: var(--error); \x7d\n",
    ".case \x7b border: 1px solid var(--line); border-radius: 6px; margin-bottom: .75rem; ",
    "overflow: hidden; \x7d\n",
    ".case > summary \x7b padding: .7rem .9rem; cursor: pointer; display: flex; gap: .75rem; ",
    "align-items: baseline; \x7d\n",
    ".case > summary::marker \x7b color: var(--muted); \x7d\n",
    ".id \x7b font-weight: 600; \x7d\n",
    ".method \x7b font: 12px ui-monospace, SFMono-Regular, Menlo, monospace; color: ",
    "var(--muted); \x7d\n",
    ".url \x7b font: 12px ui-monospace, SFMono-Regular, Menlo, monospace; color: ",
    "var(--muted); overflow-wrap: anywhere; flex: 1; \x7d\n",
    ".body \x7b padding: 0 .9rem .9rem; \x7d\n",
    "ul \x7b list-style: none; padding: 0; margin: .5rem 0 0; \x7d\n",
    "li \x7b padding: .3rem 0; border-top: 1px solid var(--line); font: 13px ui-monospace, ",
    "SFMono-Regular, Menlo, monospace; overflow-wrap: anywhere; \x7d\n",
    ".actual \x7b color: var(--muted); \x7d\n",
    ".reason \x7b font: 13px ui-monospace, SFMono-Regular, Menlo, monospace; color: ",
    "var(--fail); overflow-wrap: anywhere; \x7d\n",
    "footer \x7b margin-top: 2rem; color: var(--muted); font-size: .85rem; \x7d\n"]

/-- The page from its title to its heading. -/
def htmlStyle : Text :=
  "</title>\n<style>\n".toList ++ htmlCss.flatMap String.toList
    ++ "</style>\n</head>\n<body>\n<h1>".toList

/-- The class and the word of a run. -/
def runStatus (report : RunReport) : Text × Text :=
  if report.isGreen then ("pass".toList, "passed".toList) else ("fail".toList, "failed".toList)

/-- One of the totals. -/
def htmlTotal (tag count label : Text) : Text :=
  "  <div class=\"total\">".toList ++ tag ++ count ++ "</b><span>".toList ++ label
    ++ "</span></div>\n".toList

/-- The page up to the requests. -/
def htmlHead (tools : PrintTools) (report : RunReport) (redactor : Redactor) : Text :=
  htmlStart ++ html (redactor.apply report.collection) ++ htmlStyle
    ++ html (redactor.apply report.collection) ++ " — <span class=\"".toList
    ++ (runStatus report).1 ++ "\">".toList ++ (runStatus report).2
    ++ "</span></h1>\n<div class=\"sub\">".toList
    ++ (report.environment.elim [] fun environment =>
      "environment <b>".toList ++ html (redactor.apply environment) ++ "</b> · ".toList)
    ++ html (formatIso8601 report.startedMs) ++ "</div>\n<div class=\"totals\">\n".toList
    ++ htmlTotal "<b>".toList (natText report.total) "requests".toList
    ++ htmlTotal "<b class=\"pass\">".toList (natText report.passed) "passed".toList
    ++ htmlTotal "<b class=\"fail\">".toList (natText report.failures) "failed".toList
    ++ htmlTotal "<b class=\"error\">".toList (natText report.errors) "errored".toList
    ++ htmlTotal "<b>".toList (html (formatDuration tools report.durationMs)) "total".toList
    ++ "</div>\n".toList

/-- The class and the label of a request. -/
def caseStatus : CaseOutcome → Text × Text
  | .passed => ("pass".toList, "passed".toList)
  | .failed => ("fail".toList, "failed".toList)
  | .errored _ => ("error".toList, "errored".toList)

/-- One assertion. -/
def htmlAssertion (redactor : Redactor) (assertion : AssertionLine) : Text :=
  "      <li>".toList
    ++ (if assertion.passed then "<span class=\"pass\">✓</span>".toList
      else "<span class=\"fail\">✗</span>".toList)
    ++ ' ' :: html (redactor.apply assertion.description)
    ++ (if assertion.passed then []
      else " <span class=\"actual\">— got ".toList ++ html (redactor.apply assertion.actual)
        ++ "</span>".toList)
    ++ "</li>\n".toList

/-- One request. All but the passed ones start expanded. -/
def htmlCase (tools : PrintTools) (redactor : Redactor) (case : CaseResult) : Text :=
  let (class_, label) := caseStatus case.outcome
  "<details class=\"case\"".toList ++ (if case.outcome = .passed then [] else " open".toList)
    ++ ">\n  <summary><span class=\"".toList ++ class_ ++ "\">●</span> <span class=\"id\">".toList
    ++ html (redactor.apply case.id) ++ "</span> <span class=\"method\">".toList
    ++ html case.method ++ "</span> <span class=\"url\">".toList
    ++ html (redactor.apply case.url) ++ "</span> <span class=\"".toList ++ class_
    ++ "\">".toList ++ label ++ "</span></summary>\n  <div class=\"body\">\n".toList
    ++ "    <div class=\"actual\">status ".toList ++ statusOr case.status ['—'] ++ " · ".toList
    ++ html (formatDuration tools case.durationMs) ++ "</div>\n".toList
    ++ (match case.outcome with
      | .errored reason =>
        "    <p class=\"reason\">".toList ++ html (redactor.apply reason) ++ "</p>\n".toList
      | _ => [])
    ++ (if case.assertions = [] then []
      else "    <ul>\n".toList ++ case.assertions.flatMap (htmlAssertion redactor)
        ++ "    </ul>\n".toList)
    ++ "  </div>\n</details>\n".toList

/-- The end of the page. -/
def htmlFoot : Text :=
  "<footer>Generated by gabriel 0.1.0-preview.2 · secrets are redacted; ".toList
    ++ "response data is escaped, not executed.</footer>\n</body>\n</html>\n".toList

/-- The report for people. -/
def toHtml (tools : PrintTools) (report : RunReport) (redactor : Redactor) : Text :=
  htmlHead tools report redactor ++ report.cases.flatMap (htmlCase tools redactor) ++ htmlFoot

example : seconds 125 = "0.125".toList ∧ seconds 61005 = "61.005".toList
    ∧ seconds 0 = "0.000".toList := by
  decide +kernel

end Gabriel.Cli
