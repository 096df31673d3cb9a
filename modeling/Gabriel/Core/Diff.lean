import Gabriel.Core.JsonEq
import Gabriel.Core.Model
import Gabriel.Core.Numbers

/-!
# `Gabriel.Core.Diff`: what changed between two documents

`diff_json` and `diff_headers` of `gabriel-core/src/diff.rs`. `renderJson` is the compact text of a
JSON value. The source pushes to one list; here each part of a pass gives the changes that it
pushes.

The definitions:

* `walk`: compare two values below a path, through their objects (`walkFields`) and arrays
  (`walkItems`).
* `diffJson`: the changes of two documents, from the root on.
* `headerChange`: a header of one side, compared with the first value of the other side.
* `diffHeaders`: the changes of two maps of headers, the volatile ones left out.
-/

set_option autoImplicit false

namespace Gabriel.Core

open Text

namespace Diff

/-- How a field changed, with the texts of its values. -/
inductive ChangeKind where
  | added (after : Text)
  | removed (before : Text)
  | changed (before after : Text)
  deriving DecidableEq

/-- A field that changed. -/
structure Change where
  path : Text
  kind : ChangeKind
  deriving DecidableEq

/-! ### Documents -/

section Json

variable (renderJson : Json → Text)

/-- A value as text: a string without its quotes. -/
def render : Json → Text
  | .string value => value
  | other => renderJson other

/-- A field that is new. -/
def Change.added (path : Text) (after : Json) : Change := ⟨path, .added (render renderJson after)⟩

/-- A field that is gone. -/
def Change.removed (path : Text) (before : Json) : Change :=
  ⟨path, .removed (render renderJson before)⟩

/-- A field that has another value. -/
def Change.changed (path : Text) (before after : Json) : Change :=
  ⟨path, .changed (render renderJson before) (render renderJson after)⟩

/-- The path of a field. -/
def join (path key : Text) : Text := if path = [] then key else path ++ '.' :: key

/-- The path of an item. -/
def itemPath (path : Text) (index : Nat) : Text := path ++ '[' :: natText index ++ [']']

mutual

/-- The changes below a path. -/
def walk (path : Text) : Json → Json → List Change
  | .object a, .object b =>
    walkFields path b a
      ++ (b.filter fun e => !a.any (·.1 = e.1)).map fun e =>
        Change.added renderJson (join path e.1) e.2
  | .array a, .array b =>
    walkItems path 0 a b
      ++ (b.zipIdx.drop a.length).map fun e => Change.added renderJson (itemPath path e.2) e.1
  | a, b =>
    if a.same b then []
    else [Change.changed renderJson (if path = [] then ['$'] else path) a b]

/-- The changes of the fields of an object, against those of the other one. -/
def walkFields (path : Text) (b : List (Text × Json)) : List (Text × Json) → List Change
  | [] => []
  | (key, value) :: rest =>
    (match (Json.object b).get? key with
      | some other => walk (join path key) value other
      | none => [Change.removed renderJson (join path key) value])
      ++ walkFields path b rest

/-- The changes of the items of an array from an index on, against those of the other one. -/
def walkItems (path : Text) (index : Nat) : List Json → List Json → List Change
  | [], _ => []
  | value :: rest, [] =>
    Change.removed renderJson (itemPath path index) value :: walkItems path (index + 1) rest []
  | value :: rest, other :: others =>
    walk (itemPath path index) value other ++ walkItems path (index + 1) rest others

end

/-- The differences of two documents. -/
def diffJson (before after : Json) : List Change := walk renderJson [] before after

end Json

/-! ### Headers -/

/-- Headers that differ on every request and mean nothing to a diff. -/
def volatileHeaders : List Text :=
  ["date".toList, "age".toList, "expires".toList, "set-cookie".toList, "content-length".toList,
    "etag".toList, "last-modified".toList, "x-request-id".toList, "x-correlation-id".toList,
    "x-amzn-requestid".toList, "cf-ray".toList, "server-timing".toList, "report-to".toList,
    "keep-alive".toList]

/-- A header that is worth comparing. -/
def interesting (key : Text) : Bool := asciiLower key ∉ volatileHeaders

/-- The change of a header pair, against the first value of the other side. -/
def headerChange (after : FieldMap) (key value : Text) : Option Change :=
  if !interesting key then none
  else
    match after.getFirst key with
    | some other => if other = value then none else some ⟨key, .changed value other⟩
    | none => some ⟨key, .removed value⟩

/-- The differences of two header maps, by name, without repetitions. -/
def diffHeaders (before after : FieldMap) : List Change :=
  let changes := before.iterPairs.filterMap (fun e => headerChange after e.1 e.2)
    ++ (after.iterPairs.filter fun e => interesting e.1 && !before.containsKey e.1).map fun e =>
      ⟨e.1, .added e.2⟩
  (changes.insertionSort fun a b => a.path ≤ b.path).destutter (· ≠ ·)

end Diff

end Gabriel.Core
