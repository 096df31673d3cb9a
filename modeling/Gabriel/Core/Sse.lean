import Gabriel.Core.Numbers
import Gabriel.Lib.Utf8

/-!
# `Gabriel.Core.Sse`: server-sent events

The incremental parser of `gabriel-core/src/sse.rs`. It is fed bytes as they arrive and gives out
whole events; only a blank line dispatches one.

The definitions:

* `fieldOf`, `takeField`: the field of a line, and what it changes.
* `line`: one line without its line end: an empty one dispatches what was started.
* `push`: read the whole lines of the buffer and of a chunk, and keep what follows the last one.
* `finish`: give out the event that the stream ended without.
-/

set_option autoImplicit false

namespace Gabriel.Core.Sse

open Text

/-- One dispatched event. -/
structure Event where
  /-- The `event:` field, or `none` for the default. -/
  name : Option Text
  /-- The `data:` fields, joined with line breaks. -/
  data : Text
  /-- The `id:` field, which persists until it is changed. -/
  id : Option Text
  retryMs : Option UInt64
  deriving DecidableEq

/-- What was received and not dispatched yet. -/
structure Parser where
  /-- Bytes that do not form a whole line yet. -/
  buffer : List UInt8 := []
  name : Option Text := none
  data : List Text := []
  lastId : Option Text := none
  retryMs : Option UInt64 := none
  /-- A field of the current event has been seen. -/
  started : Bool := false
  deriving DecidableEq

/-- The field and the value of a line. One space after the colon is not part of the value, and a
line without a colon is a field without a value. -/
def fieldOf (line : Text) : Text × Text :=
  match splitOnce [':'] line with
  | some (field, ' ' :: value) => (field, value)
  | some (field, value) => (field, value)
  | none => (line, [])

namespace Parser

/-- Give out the event that has accumulated. -/
def dispatch (parser : Parser) : Event × Parser :=
  ({ name := parser.name, data := List.intercalate ['\n'] parser.data, id := parser.lastId
     retryMs := parser.retryMs },
   { parser with name := none, data := [], retryMs := none, started := false })

/-- Take in one field. A field that is not known is ignored. -/
def takeField (parser : Parser) (field value : Text) : Parser :=
  if field = "event".toList then { parser with name := some value, started := true }
  else if field = "data".toList then
    { parser with data := parser.data ++ [value], started := true }
  else if field = "id".toList then
    -- An id with a NUL is ignored, but it starts an event.
    { parser with
      lastId := if '\x00' ∈ value then parser.lastId else some value
      started := true }
  else if field = "retry".toList then
    { parser with
      retryMs := ((parseUsize value).map UInt64.ofNat).or parser.retryMs
      started := true }
  else parser

/-- Read one line. -/
def line (parser : Parser) (line : Text) : Option Event × Parser :=
  if line = [] then
    if parser.started then (some parser.dispatch.1, parser.dispatch.2) else (none, parser)
  -- A comment; servers send these as keep-alives.
  else if line.head? = some ':' then (none, parser)
  else (none, parser.takeField (fieldOf line).1 (fieldOf line).2)

/-- Drop the carriage return at the end of a line. -/
def stripReturn (line : List UInt8) : List UInt8 :=
  if line.getLast? = some 0x0D then line.dropLast else line

/-- Read some whole lines, and collect the events they complete. -/
def readLines (parser : Parser) : List (List UInt8) → List Event × Parser
  | [] => ([], parser)
  | bytes :: rest =>
    let (event, parser) := parser.line (Utf8.decodeLossy (stripReturn bytes))
    let (events, parser) := parser.readLines rest
    (event.toList ++ events, parser)

/-- Feed a chunk, and collect the events it completes. What follows the last line feed stays in
the buffer. -/
def push (parser : Parser) (chunk : List UInt8) : List Event × Parser :=
  let pieces := (parser.buffer ++ chunk).splitOn 0x0A
  { parser with buffer := pieces.getLastD [] }.readLines pieces.dropLast

/-- The event of a stream that ended without its blank line. The bytes in the buffer are a last
line. -/
def finish (parser : Parser) : Option Event × Parser :=
  let parser := if parser.buffer = [] then parser
    else ({ parser with buffer := [] }.line (Utf8.decodeLossy parser.buffer)).2
  if parser.started then (some parser.dispatch.1, parser.dispatch.2) else (none, parser)

example :
    (Parser.push {} (Utf8.encode "event: token\ndata: one\r\ndata:two\n\n: ping\ndata".toList)).1
      = [⟨some "token".toList, "one\ntwo".toList, none, none⟩] := by decide +kernel

end Parser

end Gabriel.Core.Sse
