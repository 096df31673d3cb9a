import Gabriel.Core.Capture
import Gabriel.Engine.Body

/-!
# `Gabriel.Engine.Callback`: waiting for the browser to come back

`wait_for_code` of `gabriel-engine/src/oauth.rs`, with `parse_query`, `constant_time_eq` and
`urldecode`. A connection is what the first read of it gives, at most 8192 bytes; a read that
fails gives none. The connections are those before the deadline.

`urldecode` slices its input at a byte offset, which panics inside a character. A call that can
panic returns an `Option`, with `none` for the panic.

The definitions:

* `urldecode`, `parseQuery`: the parameters of a query.
* `constantTimeEq`: the comparison of the states, byte by byte.
* `requestTarget`: the target of a request line.
* `answerCallback`: what one connection is answered, and whether the wait goes on.
* `waitForCode`: the loop over the connections.
-/

set_option autoImplicit false

namespace Gabriel.Engine

open Gabriel.Core Text

/-! ### Parsing -/

/-- Decode `%XX` and `+`. The body is that of `percent_decode`. -/
def urldecode (input : Text) : Option Text := percentDecode input

/-- Decode both sides of a pair. -/
def decodeParam (pair : Text × Text) : Option (Text × Text) := do
  let key ← urldecode pair.1
  let value ← urldecode pair.2
  some (key, value)

/-- The pairs of a query, not decoded. A piece without a `=` is left out. -/
def rawParams (query : Text) : List (Text × Text) :=
  ((query.splitOn '&').filter (· ≠ [])).filterMap (splitOnce ['='])

/-- The parameters of a query. Of two with one name the later one stays. -/
def parseQuery (query : Text) : Option (SortedMap Text Text) :=
  ((rawParams query).mapM decodeParam).map SortedMap.ofList

/-- Compare without leaking the position of the first difference. -/
def constantTimeEq (a b : Text) : Bool :=
  let a := Utf8.encode a
  let b := Utf8.encode b
  if a.length ≠ b.length then false
  else (a.zip b).foldl (fun acc e => acc ||| (e.1 ^^^ e.2)) 0 == 0

/-- The first line of a request, without its end. -/
def requestLine (request : Text) : Option Text :=
  if request = [] then none
  else match splitOnce ['\n'] request with
    | some (line, _) => some (if line.getLast? = some '\r' then line.dropLast else line)
    | none => some request

/-- The target of a request. -/
def requestTarget (read : List UInt8) : Text :=
  ((requestLine (Utf8.decodeLossy (read.take 8192))).bind fun line =>
    (splitWhitespace line)[1]?).getD ['/']

/-- The query of a request. -/
def requestQuery (read : List UInt8) : Option Text :=
  (splitOnce ['?'] (requestTarget read)).map (·.2)

/-! ### The answer to one request -/

/-- A status and a message, as `respond` sends them. -/
structure Reply where
  status : Nat
  message : Text
  deriving DecidableEq

/-- What a request does to the wait. -/
inductive Answer where
  | wait (reply : Reply)
  | done (reply : Reply) (result : Except EngineError Text)
  | panicked

/-- The error when the provider refuses. -/
def refusal (error description : Text) : EngineError :=
  .auth ("the provider refused: ".toList ++ error ++ " — ".toList ++ description)

/-- Answer one request. -/
def answerCallback (expectedState : Text) (read : List UInt8) : Answer :=
  match requestQuery read with
  -- Browsers ask for /favicon.ico.
  | none => .wait ⟨404, "Not the callback.".toList⟩
  | some query =>
    match parseQuery query with
    | none => .panicked
    | some params =>
      match params.get? "error".toList with
      | some error =>
        .done ⟨400, "Authorization failed. You can close this tab.".toList⟩
          (.error (refusal error ((params.get? "error_description".toList).getD error)))
      | none =>
        if (params.get? "state".toList).any fun state => constantTimeEq state expectedState then
          match params.get? "code".toList with
          | none => .wait ⟨400, "No code in the callback.".toList⟩
          | some code =>
            .done ⟨200,
              "Signed in. You can close this tab and go back to the terminal.".toList⟩ (.ok code)
        else
          .done ⟨400, "Unexpected state. Nothing was accepted.".toList⟩
            (.error (.auth
              "the callback's state did not match — the response was discarded".toList))

/-! ### The wait -/

/-- How a wait ends: what it returns, or `none` for a panic, and the request that it was
answering. -/
structure WaitEnd where
  result : Option (Except EngineError Text)
  answering : Option (List UInt8)

/-- Wait for the callback. A connection is what its first read gives, or why accepting it
failed. -/
def waitForCode (expectedState : Text) : List (Except Text (List UInt8)) → WaitEnd
  | [] => ⟨some (.error (.auth "timed out waiting for the browser to come back".toList)), none⟩
  | .error message :: _ =>
    ⟨some (.error (.auth ("accepting the callback failed: ".toList ++ message))), none⟩
  | .ok read :: rest =>
    match answerCallback expectedState read with
    | .wait _ => waitForCode expectedState rest
    | .done _ result => ⟨some result, some read⟩
    | .panicked => ⟨none, some read⟩

end Gabriel.Engine
