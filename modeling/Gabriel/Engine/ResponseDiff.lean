import Gabriel.Core.Diff
import Gabriel.Engine.Captures

/-!
# `Gabriel.Engine.ResponseDiff`: what changed between two responses

`diff_responses` of `gabriel-core/src/diff.rs`. The measured times of the responses are arguments.

The definitions:

* `ResponseDiff`: the changes of the status, the headers and the body.
* `diffResponses`: compare two responses. Bodies are compared as JSON when both are, and otherwise
  as bytes.
-/

set_option autoImplicit false

namespace Gabriel.Engine

open Gabriel.Core Gabriel.Core.Diff Text

/-- The parts of a response worth comparing between runs. -/
structure ResponseDiff where
  status : Option (UInt16 × UInt16) := none
  headers : List Change := []
  body : List Change := []
  /-- At least one body is not JSON, so that a structural diff was impossible. -/
  bodyIsOpaque : Bool := false
  durationMs : UInt64 × UInt64 := (0, 0)
  deriving DecidableEq

/-- Nothing changed. The times do not count. -/
def ResponseDiff.isEmpty (diff : ResponseDiff) : Bool :=
  diff.status.isNone && diff.headers.isEmpty && diff.body.isEmpty

/-- The size of a body that is not JSON. -/
def sizeText (body : List UInt8) : Text := natText body.length ++ " bytes".toList

/-- Compare two responses. -/
def diffResponses (platform : Platform) (before after : ExecutedResponse)
    (beforeMs afterMs : UInt64) : ResponseDiff :=
  let diff : ResponseDiff :=
    { durationMs := (beforeMs, afterMs)
      status := if before.status ≠ after.status then some (before.status, after.status) else none
      headers := diffHeaders before.headers after.headers }
  match before.json platform, after.json platform with
  | some a, some b => { diff with body := diffJson platform.renderJson a b }
  | _, _ =>
    { diff with
      bodyIsOpaque := true
      body := if before.body ≠ after.body then
          [⟨"body".toList, .changed (sizeText before.body) (sizeText after.body)⟩]
        else [] }

end Gabriel.Engine
