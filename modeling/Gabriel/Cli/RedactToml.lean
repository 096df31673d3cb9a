import Gabriel.Cli.Scrub
import Gabriel.Engine.Assertion

/-!
# `Gabriel.Cli.RedactToml`: the redacted configuration

`redact_toml` and `redact_value` of `gabriel-cli/src/feedback.rs`. `TomlLib` is the TOML library.
The keys of a table stand in the order in which the library iterates over them.

The definitions:

* `templateLike`: whether a string looks like one reference.
* `redactValue`: redact a value under a key, through its arrays and tables.
* `redactToml`: read a document, redact it and write it. A text that is none is scrubbed as it is.
-/

set_option autoImplicit false

namespace Gabriel.Cli

open Gabriel.Core Gabriel.Engine Text

/-- The TOML library. -/
structure TomlLib where
  /-- The document of a text. -/
  fromStr : Text → Option (List (Text × TomlValue))
  /-- The text of a value. -/
  toStringPretty : TomlValue → Option Text

/-- An item is smaller than its array. -/
theorem sizeOf_item_lt {item : TomlValue} {items : List TomlValue} (h : item ∈ items) :
    sizeOf item < sizeOf (TomlValue.array items) := by
  have hlt := List.sizeOf_lt_of_mem h
  rw [TomlValue.array.sizeOf_spec]
  omega

/-- A value is smaller than its table. -/
theorem sizeOf_field_lt {field : Text × TomlValue} {fields : List (Text × TomlValue)}
    (h : field ∈ fields) : sizeOf field.2 < sizeOf (TomlValue.table fields) := by
  obtain ⟨key, value⟩ := field
  have hlt := List.sizeOf_lt_of_mem h
  rw [Prod.mk.sizeOf_spec] at hlt
  rw [TomlValue.table.sizeOf_spec]
  show sizeOf value < _
  omega

/-- Whether a text begins and ends as a template reference does. -/
def templateLike (text : Text) : Bool :=
  decide (Resolver.opening <+: text ∧ Resolver.closing <:+ text)

/-- A value, redacted under its key. An array passes its key on to its items. -/
def redactValue (key : Text) : TomlValue → TomlValue
  | .string text =>
    -- A template reference is a pointer to a secret, not the secret.
    if templateLike text then .string text
    else if keyIsSecret key then .string redactedMask
    else .string (scrub text)
  | .table fields => .table (fields.map fun field => (field.1, redactValue field.1 field.2))
  | .array items => .array (items.map fun item => redactValue key item)
  | other => other
termination_by value => sizeOf value
decreasing_by
  · exact sizeOf_field_lt ‹_›
  · exact sizeOf_item_lt ‹_›

/-- A document, redacted. A text that is none is scrubbed as it is. -/
def redactToml (lib : TomlLib) (raw : Text) : Text :=
  match lib.fromStr raw with
  | none => scrub raw
  | some fields => (lib.toStringPretty (redactValue [] (.table fields))).getD (scrub raw)

end Gabriel.Cli
