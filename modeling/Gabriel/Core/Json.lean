import Gabriel.Lib.Text

/-!
# `Gabriel.Core.Json`: JSON values

A JSON document as the decoder returns it. The fields of an object are in increasing key order
and have distinct keys, as in a sorted map. A number keeps the form the decoder chose: a
nonnegative or a negative 64-bit integer, or a floating-point number with its decimal text.

The definitions:

* `JsonNumber`, `Json`: the values.
* `get?`, `getIndex?`: a field of an object, and an item of an array.
-/

set_option autoImplicit false

namespace Gabriel.Core

/-- A JSON number. -/
inductive JsonNumber where
  | posInt (n : UInt64)
  | negInt (n : Int64)
  | float (text : Text)
  deriving DecidableEq

/-- A JSON value. -/
inductive Json where
  | null
  | bool (value : Bool)
  | number (value : JsonNumber)
  | string (value : Text)
  | array (items : List Json)
  | object (fields : List (Text × Json))

namespace Json

/-- The value of a field; `none` when the value is not an object or has no such field. -/
def get? (key : Text) : Json → Option Json
  | .object fields => (fields.find? (·.1 = key)).map (·.2)
  | _ => none

/-- The item at an index; `none` when the value is not an array or is shorter. -/
def getIndex? (index : Nat) : Json → Option Json
  | .array items => items[index]?
  | _ => none

end Json

end Gabriel.Core
