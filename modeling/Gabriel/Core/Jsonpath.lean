import Gabriel.Core.Json
import Gabriel.Core.Numbers
import Gabriel.Core.Vars

/-!
# `Gabriel.Core.Jsonpath`: a small JSON path

`select` of `gabriel-core/src/jsonpath.rs`: keys between dots, and an index or a key between
brackets. The source's loop reads ahead inside a bracket; here the loop carries what it has read
of the bracket so far, so that each step takes one character.

The definitions:

* `parse`: the segments of a path, or none when it is no path (`parseLoop`).
* `bracketSegment`: the segment of a bracket: an index, or a key with quotes or without.
* `walk`: the value that segments lead to.
* `select`: the value that a path leads to in a document.
* `toPlainString`: a value as the text that is bound or compared.
-/

set_option autoImplicit false

namespace Gabriel.Core

namespace Jsonpath

open Text

/-- One step of a path. -/
inductive Segment where
  | key (key : Text)
  | index (index : Nat)
  deriving DecidableEq

/-- Append the key read so far, unless it is empty. -/
def flush (current : Text) (segments : List Segment) : List Segment :=
  if current = [] then segments else segments ++ [.key current]

/-- The quotes around a key in brackets. -/
def isQuote (c : Char) : Bool := c == '\'' || c == '"'

/-- The segment a closed bracket holds. -/
def bracketSegment (index : Text) : Option Segment :=
  let index := ((trim index).dropWhile isQuote).rdropWhile isQuote
  match parseUsize index with
  | some n => some (.index n)
  | none => if index = [] then none else some (.key index)

/-- The loop of `parse`: the bracket being read, if any, the key being read, and the segments
so far. -/
def parseLoop (path : Text) :
    Text → Option Text → Text → List Segment → Except CoreError (List Segment)
  | [], some _, _, _ => .error (.badJsonPath path)
  | [], none, current, segments =>
    if flush current segments = [] then .error (.badJsonPath path)
    else .ok (flush current segments)
  | c :: rest, some index, current, segments =>
    if c = ']' then
      match bracketSegment index with
      | some segment => parseLoop path rest none current (segments ++ [segment])
      | none => .error (.badJsonPath path)
    else parseLoop path rest (some (index ++ [c])) current segments
  | c :: rest, none, current, segments =>
    if c = '.' then parseLoop path rest none [] (flush current segments)
    else if c = '[' then parseLoop path rest (some []) [] (flush current segments)
    else if c = ']' then .error (.badJsonPath path)
    else parseLoop path rest none (current ++ [c]) segments

/-- The segments of a path. A leading `$.` or `$` is dropped. -/
def parse (path : Text) : Except CoreError (List Segment) :=
  let path := trim path
  let path := (Resolver.stripPrefix "$.".toList path).getD
    ((Resolver.stripPrefix "$".toList path).getD path)
  parseLoop path path none [] []

/-- Follow the segments; `none` when one of them leads nowhere. -/
def walk : Json → List Segment → Option Json
  | current, [] => some current
  | current, .key key :: rest => (current.get? key).bind (walk · rest)
  | current, .index index :: rest => (current.getIndex? index).bind (walk · rest)

/-- The value at a path. -/
def select (root : Json) (path : Text) : Except CoreError (Option Json) :=
  (parse path).map (walk root)

/-- A value as a shell user wants it: a string without its quotes, nothing for `null`, and the
compact JSON text of everything else. -/
def toPlainString (renderJson : Json → Text) : Json → Text
  | .string value => value
  | .null => []
  | other => renderJson other

end Jsonpath

example : Jsonpath.parse "$.data.items[0][\"odd key\"]".toList
    = .ok [.key "data".toList, .key "items".toList, .index 0, .key "odd key".toList] := by decide

end Gabriel.Core
