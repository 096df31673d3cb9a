import Gabriel.Core.JsonEq
import Gabriel.Engine.Captures
import Gabriel.Lib.Double

/-!
# `Gabriel.Engine.Assertion`: what a response is checked against

`gabriel-engine/src/assertion.rs`, with the assertion types of `gabriel-core/src/model.rs`. The
comparison of numbers goes through floating-point numbers in the source: `JsonLib` is the JSON
library, with the two comparisons of values that the source builds from it, and `comparingLib`
builds them. The measured time of a response is an argument.

The definitions:

* `JsonLib`, `comparingLib`: the comparisons of JSON values, and the ones by roundings.
* `tomlToJson`: an expected value, which is written in TOML, as JSON.
* `assertionActual`: what an assertion looks at in a response, if it is there.
* `compare`: an operator on what is there and what is expected.
* `evaluate`: the outcome of an assertion.
-/

set_option autoImplicit false

namespace Gabriel.Engine

open Gabriel.Core Text

/-- A TOML value. A floating-point number has its decimal text, when it is finite. -/
inductive TomlValue where
  | string (value : Text)
  | integer (value : Int64)
  | float (text : Option Text)
  | boolean (value : Bool)
  | datetime (text : Text)
  | array (items : List TomlValue)
  | table (fields : List (Text × TomlValue))

/-- What an assertion looks at. -/
inductive AssertTarget where
  | status
  | header
  | body
  | durationMs
  deriving DecidableEq

/-- How an assertion compares. -/
inductive AssertOp where
  | eq
  | ne
  | lt
  | gt
  | contains
  | exists_
  | missing
  deriving DecidableEq

/-- An assertion of a request file. -/
structure Assertion where
  target : AssertTarget := .status
  path : Option Text := none
  op : AssertOp := .eq
  value : Option TomlValue := none

/-- The result of an assertion. -/
structure AssertionOutcome where
  /-- What was checked, e.g. `status == 200`. -/
  description : Text
  passed : Bool
  /-- What was found. -/
  actual : Text
  deriving DecidableEq

/-- The JSON library. -/
structure JsonLib where
  /-- The compact text of a value. -/
  render : Json → Text
  /-- The text of a value on several lines. -/
  pretty : Json → Text
  /-- Equal, or numbers with the same floating-point value. -/
  valuesEqual : Json → Json → Bool
  /-- Numbers, and the first one is less as a floating-point number. -/
  less : Json → Json → Bool

/-- `as_f64`: a number as a floating-point number. What the text of one stands for is up to the
JSON library. -/
def asF64 (floatValue : Text → ℚ) : Json → Option ℚ
  | .number (.posInt n) => some (Double.ofInt n.toNat)
  | .number (.negInt n) => some (Double.ofInt n.toInt)
  | .number (.float text) => some (floatValue text)
  | _ => none

/-- Equal, or numbers that are equal as floating-point numbers. A string is no number. -/
def valuesEqual (floatValue : Text → ℚ) (actual expected : Json) : Bool :=
  if actual.same expected then true
  else
    match asF64 floatValue actual, asF64 floatValue expected with
    | some a, some b => a = b
    | _, _ => false

/-- The order of two numbers, as floating-point numbers. -/
def less (floatValue : Text → ℚ) (a b : Json) : Bool :=
  match asF64 floatValue a, asF64 floatValue b with
  | some a, some b => a < b
  | _, _ => false

/-- The JSON library with the comparisons of the source. -/
def comparingLib (render pretty : Json → Text) (floatValue : Text → ℚ) : JsonLib :=
  { render, pretty, valuesEqual := valuesEqual floatValue, less := less floatValue }

mutual

/-- A TOML value as JSON. -/
def tomlToJson : TomlValue → Json
  | .string value => .string value
  | .integer value =>
    .number (if 0 ≤ value then .posInt value.toUInt64 else .negInt value)
  | .float text => text.elim .null fun text => .number (.float text)
  | .boolean value => .bool value
  | .datetime text => .string text
  | .array items => .array (tomlItems items)
  | .table fields => .object (tomlFields fields)

/-- The items of an array as JSON. -/
def tomlItems : List TomlValue → List Json
  | [] => []
  | item :: items => tomlToJson item :: tomlItems items

/-- The fields of a table as JSON. -/
def tomlFields : List (Text × TomlValue) → List (Text × Json)
  | [] => []
  | (key, value) :: fields => (key, tomlToJson value) :: tomlFields fields

end

/-- A value as text: a string without its quotes. -/
def render (lib : JsonLib) : Json → Text
  | .string value => value
  | other => lib.render other

/-- Compare with an operator that has an expected value. -/
def compare (lib : JsonLib) (op : AssertOp) (actual expected : Json) : Bool :=
  match op with
  | .eq => lib.valuesEqual actual expected
  | .ne => !lib.valuesEqual actual expected
  | .lt => lib.less actual expected
  | .gt => lib.less expected actual
  | .contains => render lib expected <:+: render lib actual
  -- The caller has handled these two.
  | .exists_ | .missing => false

/-- The name of what an assertion looks at. -/
def describeTarget (assertion : Assertion) : Text :=
  match assertion.target, assertion.path with
  | .status, _ => "status".toList
  | .durationMs, _ => "duration_ms".toList
  | .header, some name => "header ".toList ++ name
  | .header, none => "header".toList
  | .body, some path => "body ".toList ++ path
  | .body, none => "body".toList

/-- The name of an operator. -/
def describeOp : AssertOp → Text
  | .eq => "==".toList
  | .ne => "!=".toList
  | .lt => "<".toList
  | .gt => ">".toList
  | .contains => "contains".toList
  | .exists_ => "exists".toList
  | .missing => "is missing".toList

/-- A restatement of what is checked. -/
def describe (lib : JsonLib) (assertion : Assertion) (expected : Option Json) : Text :=
  let check := describeTarget assertion ++ ' ' :: describeOp assertion.op
  expected.elim check fun value => check ++ ' ' :: render lib value

/-- What an assertion looks at, when it is there. -/
def assertionActual (platform : Platform) (totalMs : UInt64) (response : ExecutedResponse)
    (assertion : Assertion) : Option Json :=
  match assertion.target with
  | .status => some (.number (.posInt response.status.toUInt64))
  | .durationMs => some (.number (.posInt totalMs))
  | .header => (assertion.path.bind response.headers.getFirst).map .string
  | .body =>
    match assertion.path with
    | some path => (response.json platform).bind fun json =>
      (Jsonpath.select json path).toOption.join
    | none => some (.string response.text)

/-- Check an assertion. -/
def evaluate (platform : Platform) (lib : JsonLib) (totalMs : UInt64) (response : ExecutedResponse)
    (assertion : Assertion) : AssertionOutcome :=
  let expected := assertion.value.map tomlToJson
  let actual := assertionActual platform totalMs response assertion
  let passed := match assertion.op with
    | .exists_ => actual.isSome
    | .missing => actual.isNone
    | op =>
      match actual, expected with
      | some actual, some expected => compare lib op actual expected
      | _, _ => false
  { description := describe lib assertion expected, passed
    actual := (actual.map (render lib)).getD "<missing>".toList }

end Gabriel.Engine
