import Gabriel.Cli.Bundle
import Gabriel.Cli.CaptureSummary
import Gabriel.Cli.Scrub
import Gabriel.Core.Json

/-!
# `Gabriel.Cli.ErrorLog`: the local error log

What `record_error` of `gabriel-cli/src/feedback.rs` writes into a line, and `read_errors`, which
reads it back. The JSON decoder is an argument. `recordError` is in `Gabriel.Cli.Bundle`.

The definitions:

* `errorLine`: the line of a failure. Its message is scrubbed, and its command is not.
* `errorOfLine`: what a line says, or nothing when it cannot be read.
* `readErrors`: the failures of a log, the lines that cannot be read left out.
* `recordErrors`: some failures, recorded one after the other.
-/

set_option autoImplicit false

namespace Gabriel.Cli

open Gabriel.Core Text

/-- A failure in the log. -/
structure ErrorRecord where
  atMs : UInt64
  command : Text
  message : Text
  deriving DecidableEq

/-- The line of a failure. The message is scrubbed, and the command is not. -/
def errorLine (failure : ErrorRecord) : Text :=
  "\x7b\"at_ms\": ".toList ++ natText failure.atMs.toNat
    ++ ", \"command\": ".toList ++ jsonString failure.command
    ++ ", \"message\": ".toList ++ jsonString (scrub failure.message) ++ ['\x7d']

/-- `Value::as_u64`. -/
def asU64 : Json → Option UInt64
  | .number (.posInt n) => some n
  | _ => none

/-- `Value::as_str`. -/
def asStr : Json → Option Text
  | .string value => some value
  | _ => none

/-- The failure of a line, unless the line is malformed. -/
def errorOfLine (parse : Text → Option Json) (line : Text) : Option ErrorRecord := do
  let value ← parse line
  let atMs ← (value.get? "at_ms".toList).bind asU64
  let command ← (value.get? "command".toList).bind asStr
  let message ← (value.get? "message".toList).bind asStr
  some { atMs, command, message }

/-- Read back what was recorded. Malformed lines are skipped. -/
def readErrors (parse : Text → Option Json) (file : Option (List UInt8)) : List ErrorRecord :=
  match file.bind Utf8.decode? with
  | none => []
  | some text => (textLines text).filterMap (errorOfLine parse)

/-- Record failures, one after the other. -/
def recordErrors (runtimeDir : TreePath) (failures : List ErrorRecord)
    (disk : FileTree) : FileTree :=
  failures.foldl (fun disk failure => recordError runtimeDir (errorLine failure) none disk) disk

end Gabriel.Cli
