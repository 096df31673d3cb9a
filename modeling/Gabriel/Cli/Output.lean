import Gabriel.Core.Redactor
import Gabriel.Engine.Assertion
import Gabriel.Engine.Executor

/-!
# `Gabriel.Cli.Output`: what a run prints

The terminal output of `gabriel-cli/src/output.rs` and the `curl` command of `codegen.rs`. What a
function writes is the list of its `writeln!` calls, without the line breaks, and `printed` is the
text of such a list. Numbers with decimals are printed by the standard library: `decimal` is its
text for a quotient, with a number of digits.

The definitions:

* `safe`: a text without the control characters that a terminal acts on (`escapeControls`).
* `paint`: a text in a colour, when colours are on.
* `renderBody`: the body of a response, cut after some characters, or its size when it is no text.
* `writeRun`: what `run` prints about one finished request.
* `printDryRun`: what it prints with `--dry-run`, without sending anything.
* `toCurl`: the request as a `curl` command, on one line or on several.
-/

set_option autoImplicit false

namespace Gabriel.Cli

open Gabriel.Core Gabriel.Engine Text

/-! ### Styles -/

/-- How to print: with colours or without, at a terminal or into a pipe. -/
structure Style where
  enabled : Bool
  tty : Bool
  deriving DecidableEq

/-- The style for standard output. -/
def Style.detect (tty noColor : Bool) : Style := { enabled := tty && !noColor, tty }

/-- Whether a character is a control character that a terminal may act on. -/
def needsEscaping (c : Char) : Bool :=
  (c.toNat < 0x20 && c != '\n' && c != '\t') || c.toNat == 0x7f
    || (0x80 ≤ c.toNat && c.toNat < 0xa0)

/-- The caret notation of a control character; any other character stays. -/
def escapeChar (c : Char) : Text :=
  if c = '\n' ∨ c = '\t' then [c]
  else if c.toNat < 0x20 ∨ c.toNat = 0x7f then ['^', Char.ofNat ((c.toNat ^^^ 0x40) &&& 0x7f)]
  else if 0x80 ≤ c.toNat ∧ c.toNat < 0xa0 then
    "\\u\x7b".toList ++ [Nat.digitChar (c.toNat / 16), Nat.digitChar (c.toNat % 16)] ++ ['\x7d']
  else [c]

/-- Replace control characters with caret notation, but for line breaks and tabs. -/
def escapeControls (text : Text) : Text :=
  if text.any needsEscaping then text.flatMap escapeChar else text

namespace Style

/-- Make text of a server safe to print at a terminal. A pipe receives it as it is. -/
def safe (style : Style) (text : Text) : Text := if style.tty then escapeControls text else text

/-- Paint a text with a colour code. -/
def paint (style : Style) (code text : Text) : Text :=
  if style.enabled then "\x1b[".toList ++ code ++ ['m'] ++ text ++ "\x1b[0m".toList else text

/-- `Style::dim`. -/
def dim (style : Style) (text : Text) : Text := style.paint ['2'] text

/-- `Style::bold`. -/
def bold (style : Style) (text : Text) : Text := style.paint ['1'] text

/-- `Style::green`. -/
def green (style : Style) (text : Text) : Text := style.paint "32".toList text

/-- `Style::red`. -/
def red (style : Style) (text : Text) : Text := style.paint "31".toList text

/-- `Style::yellow`. -/
def yellow (style : Style) (text : Text) : Text := style.paint "33".toList text

/-- `Style::cyan`. -/
def cyan (style : Style) (text : Text) : Text := style.paint "36".toList text

/-- A status in the colour of its class. -/
def status (style : Style) (status : UInt16) : Text :=
  let text := natText status.toNat
  if 200 ≤ status.toNat ∧ status.toNat ≤ 299 then style.green text
  else if 300 ≤ status.toNat ∧ status.toNat ≤ 399 then style.cyan text
  else if 400 ≤ status.toNat ∧ status.toNat ≤ 499 then style.yellow text
  else style.red text

end Style

/-! ### Parts of the output -/

/-- The libraries that the output needs. -/
structure PrintTools where
  platform : Platform
  json : JsonLib
  /-- A quotient with a number of decimals. -/
  decimal : Nat → Nat → Nat → Text

/-- A number of bytes, with its unit. -/
def formatBytes (tools : PrintTools) (bytes : Nat) : Text :=
  if bytes < 1024 then natText bytes ++ " B".toList
  else if bytes < 1024 ^ 2 then tools.decimal bytes 1024 1 ++ " KB".toList
  else if bytes < 1024 ^ 3 then tools.decimal bytes (1024 ^ 2) 1 ++ " MB".toList
  else tools.decimal bytes (1024 ^ 3) 1 ++ " GB".toList

/-- Two units of time; the smaller one is left out when it is zero. -/
def twoUnits (large small : Nat) (largeUnit smallUnit : Char) : Text :=
  natText large ++ largeUnit :: (if small = 0 then [] else ' ' :: natText small ++ [smallUnit])

/-- A duration at the scale it has. -/
def formatDuration (tools : PrintTools) (ms : UInt64) : Text :=
  let ms := ms.toNat
  let second := 1000
  let minute := 60 * second
  let hour := 60 * minute
  let day := 24 * hour
  if ms < second then natText ms ++ "ms".toList
  else if ms < minute then tools.decimal ms second 2 ++ ['s']
  else if ms < hour then twoUnits (ms / minute) (ms % minute / second) 'm' 's'
  else if ms < day then twoUnits (ms / hour) (ms % hour / minute) 'h' 'm'
  else twoUnits (ms / day) (ms % day / hour) 'd' 'h'

/-- What `truncate` says about the characters it left out. -/
def truncationNote (more : Nat) : Text :=
  "… (".toList ++ natText more ++ " more characters)".toList

/-- The first characters of a text, with a note about the others. -/
def truncate (text : Text) (limit : Nat) : Text :=
  if text.length ≤ limit then text
  else text.take limit ++ truncationNote (text.length - limit)

/-- Drop the carriage return at the end of a line. -/
def stripCarriageReturn (line : Text) : Text :=
  if line.getLast? = some '\r' then line.dropLast else line

/-- The lines of a text, without their line breaks. -/
def textLines (text : Text) : List Text :=
  let pieces := text.splitOn '\n'
  let last := pieces.getLastD []
  pieces.dropLast.map stripCarriageReturn ++ if last = [] then [] else [last]

/-- Indent every line. -/
def indent (text : Text) (spaces : Nat) : Text :=
  List.intercalate ['\n'] ((textLines text).map (List.replicate spaces ' ' ++ ·))

/-- The body of a response before it is cut: JSON on several lines, other text as it is, and a
note in the place of anything else. -/
def bodyText (tools : PrintTools) (response : ExecutedResponse) : Text :=
  match response.json tools.platform with
  | some json => tools.json.pretty json
  | none => (Utf8.decode? response.body).getD []

/-- The body of a response as it is shown. -/
def renderBody (tools : PrintTools) (response : ExecutedResponse) (limit : Nat) : Text :=
  if response.body = [] then []
  else if (response.json tools.platform).isSome ∨ (Utf8.decode? response.body).isSome then
    truncate (bodyText tools response) limit
  else '<' :: formatBytes tools response.body.length ++ " of binary data>".toList

/-- The text of some lines. -/
def printed (lines : List Text) : Text := lines.flatMap (· ++ ['\n'])

/-! ### A completed run -/

/-- The outcome of a run, with its assertions and the time it took. -/
structure FinishedRun extends RunOutcome where
  assertions : List AssertionOutcome
  totalMs : UInt64

/-- Whether every assertion holds. -/
def FinishedRun.assertionsPassed (outcome : FinishedRun) : Bool :=
  outcome.assertions.all (·.passed)

/-- A header of the verbose output. -/
def headerLine (style : Style) (redactor : Redactor) (header : Text × Text) : Text :=
  "  ".toList ++ style.dim (style.safe (header.1 ++ [':'])) ++ ' ' ::
    style.safe (redactor.apply header.2)

/-- What was sent, for the verbose output. -/
def sentLines (style : Style) (redactor : Redactor) (sent : SentRequest) : List Text :=
  sent.headers.map (headerLine style redactor)
    ++ sent.body.elim [] (fun body =>
      [style.dim "  body:".toList, indent (style.safe (redactor.apply body)) 4])
    ++ [[]]

/-- The line with the status. -/
def statusLine (tools : PrintTools) (style : Style) (outcome : FinishedRun) : Text :=
  List.intercalate [' '] [style.status outcome.response.status,
    style.dim outcome.response.statusText, style.dim ['·'],
    formatDuration tools outcome.totalMs,
    style.dim (formatBytes tools outcome.response.body.length)]

/-- A captured variable. -/
def capturedLine (style : Style) (redactor : Redactor) (captured : Text × Text) : Text :=
  style.cyan "captured".toList ++ ' ' :: style.safe captured.1 ++ " = ".toList
    ++ style.safe (redactor.apply (truncate captured.2 120))

/-- The result of an assertion. -/
def assertionLine (style : Style) (assertion : AssertionOutcome) : Text :=
  if assertion.passed then style.green ['✓'] ++ ' ' :: style.safe assertion.description
  else style.red ['✗'] ++ ' ' :: style.safe assertion.description ++ ' ' ::
    style.dim (style.safe ("(got ".toList ++ truncate assertion.actual 80 ++ [')']))

/-- An empty line and some lines, when there are any. -/
def section_ (lines : List Text) : List Text := if lines = [] then [] else [] :: lines

/-- Print a completed run. -/
def writeRun (tools : PrintTools) (outcome : FinishedRun) (style : Style) (redactor : Redactor)
    (verbose : Bool) (bodyLimit : Nat) : List Text :=
  let body := renderBody tools outcome.response bodyLimit
  [style.bold outcome.sent.method ++ ' ' :: style.safe (redactor.apply outcome.sent.url)]
    ++ (if verbose then sentLines style redactor outcome.sent else [])
    ++ [statusLine tools style outcome]
    ++ (if verbose then outcome.response.headers.iterPairs.map (headerLine style redactor) else [])
    ++ (if trim body = [] then [] else [[], style.safe (redactor.apply body)])
    ++ section_ (outcome.captured.map (capturedLine style redactor))
    ++ section_ (outcome.assertions.map (assertionLine style))

/-! ### A request that is only shown -/

/-- The name of an effect. -/
def effectName : Effect → Text
  | .read => "read".toList
  | .idempotent => "idempotent".toList
  | .unsafe_ => "unsafe".toList
  | .unknown => "unknown".toList

/-- Print what a request would send. -/
def printDryRun (request : SentRequest) (effect : Effect) (style : Style) (redactor : Redactor)
    (showSecrets : Bool) : List Text :=
  [style.dim "would send".toList ++ ' ' :: style.bold request.method ++ ' ' ::
      style.safe (redactor.apply request.url),
    "  ".toList ++ style.dim "effect:".toList ++ ' ' :: effectName effect]
    ++ request.headers.map (fun header => "  ".toList ++ style.dim header.1 ++ ": ".toList
      ++ style.safe (headerForDisplay header.1 header.2 redactor showSecrets))
    ++ request.body.elim [] (fun body => [[], style.safe (redactor.apply body)])
    ++ [[], style.dim "nothing was sent".toList]

/-- Headers that curl sets itself. -/
def curlManaged : List Text := ["content-length".toList, "host".toList]

/-- A text in single quotes for a shell. -/
def quote (value : Text) : Text := '\'' :: replace ['\''] "'\\''".toList value ++ ['\'']

/-- A resolved request as a `curl` command. `upper` is the upper-case mapping of the texts. -/
def toCurl (upper : Text → Text) (request : SentRequest) (redactor : Redactor) (multiline : Bool)
    (showSecrets : Bool) : Text :=
  let joiner := if multiline then " \\\n  ".toList else [' ']
  List.intercalate joiner (["curl".toList]
    ++ (if eqIgnoreAsciiCase request.method "GET".toList then []
      else ["-X ".toList ++ upper request.method])
    ++ [quote (redactor.apply request.url)]
    ++ (request.headers.filter fun header => asciiLower header.1 ∉ curlManaged).map (fun header =>
      "-H ".toList ++ quote (header.1 ++ ": ".toList
        ++ headerForDisplay header.1 header.2 redactor showSecrets))
    ++ request.body.elim [] (fun body =>
      if body = [] then [] else ["--data-raw ".toList ++ quote (redactor.apply body)]))

end Gabriel.Cli
