import Gabriel.Cli.RedactToml
import Gabriel.Proofs.ErrorLog
import Gabriel.Proofs.ScrubMarks

/-!
# `Gabriel.Proofs.RedactToml`: what is left of a configuration

Redacting a document keeps everything but its strings. Its `parts` are its keys and scalars, each
scalar with the nearest key and with whether a secret key is above it. The parts of the redacted
document are the redacted parts, so that everything else is a matter of single scalars. A number or
a date is kept under any key, a string is hidden by the nearest key only, and two references with a
text between them pass for one.

What may be left is said of the document as it was read: `Part.Hides` for what is under a secret
key, and `Part.Leaves` for the text of a credential. The theorems:

* `skeleton_redactValue`: redacting keeps everything but the strings, by `toml_induction`.
* `parts_redactValue`: the parts of the redacted value are the redacted parts.
* `hidden_redactPart`, `infix_redactPart`: what is left of a part.
* `fromStr_redactToml`: the result is the redacted document, for a library that writes what it reads
  (`Rewrites`).
* `redactsToml_iff`: a document is redacted whole exactly when its parts are.
-/

set_option autoImplicit false

namespace Gabriel.Cli

open Gabriel.Core Gabriel.Engine Text

/-! ### Values -/

/-- Induction over a value, through its arrays and tables. -/
theorem toml_induction {motive : TomlValue → Prop} (string : ∀ text, motive (.string text))
    (integer : ∀ n, motive (.integer n)) (float : ∀ text, motive (.float text))
    (boolean : ∀ b, motive (.boolean b)) (datetime : ∀ text, motive (.datetime text))
    (array : ∀ items, (∀ item ∈ items, motive item) → motive (.array items))
    (table : ∀ fields, (∀ field ∈ fields, motive field.2) → motive (.table fields)) :
    ∀ value, motive value
  | .string text => string text
  | .integer n => integer n
  | .float text => float text
  | .boolean b => boolean b
  | .datetime text => datetime text
  | .array items => array items fun item _ =>
    toml_induction string integer float boolean datetime array table item
  | .table fields => table fields fun field _ =>
    toml_induction string integer float boolean datetime array table field.2
termination_by value => sizeOf value
decreasing_by
  · exact sizeOf_item_lt ‹_›
  · exact sizeOf_field_lt ‹_›

/-- A value with its strings blanked: what is left are the keys, the nesting, the lengths of the
arrays, and the scalars of other types. -/
def skeleton : TomlValue → TomlValue
  | .string _ => .string []
  | .table fields => .table (fields.map fun field => (field.1, skeleton field.2))
  | .array items => .array (items.map fun item => skeleton item)
  | other => other
termination_by value => sizeOf value
decreasing_by
  · exact sizeOf_field_lt ‹_›
  · exact sizeOf_item_lt ‹_›

/-- A key, or a scalar: whether it is at or below a secret key, the nearest key, and the value. -/
inductive Part where
  | key (name : Text)
  | scalar (under : Bool) (key : Text) (value : TomlValue)

/-- The parts of a value. -/
def parts (under : Bool) (key : Text) : TomlValue → List Part
  | .table fields => fields.flatMap fun field =>
    .key field.1 :: parts (under || keyIsSecret field.1) field.1 field.2
  | .array items => items.flatMap fun item => parts under key item
  | scalar => [.scalar under key scalar]
termination_by value => sizeOf value
decreasing_by
  · exact sizeOf_field_lt ‹_›
  · exact sizeOf_item_lt ‹_›

/-- A part, redacted. -/
def redactPart : Part → Part
  | .key name => .key name
  | .scalar under key value => .scalar under key (redactValue key value)

/-- Redacting keeps everything but the strings. -/
theorem skeleton_redactValue (key : Text) (value : TomlValue) :
    skeleton (redactValue key value) = skeleton value := by
  induction value using toml_induction generalizing key with
  | string text =>
    rw [redactValue]
    split_ifs
    all_goals simp only [skeleton]
  | integer n => simp [redactValue]
  | float text => simp [redactValue]
  | boolean b => simp [redactValue]
  | datetime text => simp [redactValue]
  | array items ih =>
    rw [redactValue, skeleton, skeleton, List.map_map]
    congr 1
    exact List.map_congr_left fun item hitem => ih item hitem key
  | table fields ih =>
    rw [redactValue, skeleton, skeleton, List.map_map]
    congr 1
    refine List.map_congr_left fun field hfield => ?_
    show (field.1, skeleton (redactValue field.1 field.2)) = _
    rw [ih field hfield field.1]

/-- The parts of the redacted value are the redacted parts. -/
theorem parts_redactValue (under : Bool) (key : Text) (value : TomlValue) :
    parts under key (redactValue key value) = (parts under key value).map redactPart := by
  -- By induction on the value; the key of an array is that of each item.
  induction value using toml_induction generalizing under key with
  | string text =>
    have hparts : ∀ text, parts under key (.string text) = [.scalar under key (.string text)] := by
      intro text
      simp [parts]
    rw [hparts]
    show _ = [Part.scalar under key (redactValue key (.string text))]
    rw [redactValue]
    split_ifs
    all_goals rw [hparts]
  -- Only texts are redacted.
  | integer n => simp [parts, redactValue, redactPart]
  | float text => simp [parts, redactValue, redactPart]
  | boolean b => simp [parts, redactValue, redactPart]
  | datetime text => simp [parts, redactValue, redactPart]
  | array items ih =>
    rw [redactValue, parts, parts, List.flatMap_map, List.map_flatMap]
    exact List.flatMap_congr fun item hitem => ih item hitem under key
  | table fields ih =>
    rw [redactValue, parts, parts, List.flatMap_map, List.map_flatMap]
    refine List.flatMap_congr fun field hfield => ?_
    show Part.key field.1 :: parts _ field.1 (redactValue field.1 field.2) = _
    rw [ih field hfield]
    rfl

/-! ### Scalars -/

/-- A text that is one template reference and nothing else. -/
def IsReference (text : Text) : Prop :=
  ∃ name, Template.parse Resolver.opening Resolver.closing text = ⟨[([], name)], [], true⟩

/-- Under a secret key there is only the mask, or a reference. -/
def Part.Hidden : Part → Prop
  | .scalar true _ value =>
    value = .string redactedMask ∨ ∃ text, value = .string text ∧ IsReference text
  | _ => True

/-- A part that redacting hides: under a secret key there is a string, which is a reference when it
looks like one, and otherwise has a secret key itself or is scrubbed to the mask alone. -/
def Part.Hides : Part → Prop
  | .scalar true nearest (.string text) =>
    if templateLike text then IsReference text
    else keyIsSecret nearest = true ∨ text = redactedMask ∨ IsKey text
  | .scalar true _ _ => False
  | _ => True

/-- The condition for a string under a secret key. -/
theorem hides_string (nearest text : Text) :
    Part.Hides (.scalar true nearest (.string text)) ↔
      if templateLike text then IsReference text
      else keyIsSecret nearest = true ∨ text = redactedMask ∨ IsKey text := Iff.rfl

/-- A reference begins and ends as one. -/
theorem templateLike_of_isReference {text : Text} (h : IsReference text) :
    templateLike text = true := by
  obtain ⟨name, hname⟩ := h
  have hrender : Template.renderRefs Resolver.opening Resolver.closing
        (Template.parse Resolver.opening Resolver.closing text).refs
      ++ (Template.parse Resolver.opening Resolver.closing text).tail = text :=
    Template.render_parse (by decide) text
  rw [hname] at hrender
  have htext : Resolver.opening ++ name ++ Resolver.closing = text := by
    simpa [Template.renderRefs] using hrender
  refine decide_eq_true ⟨⟨name ++ Resolver.closing, ?_⟩, ⟨Resolver.opening ++ name, htext⟩⟩
  rw [← htext, List.append_assoc]

/-- Scrubbing makes no text look like a reference. -/
theorem templateLike_of_scrub {text : Text} (h : templateLike (scrub text) = true) :
    templateLike text = true := by
  obtain ⟨hopening, hclosing⟩ := of_decide_eq_true h
  have hfront : ∀ mask ∈ scrubMasks, ¬ Overlap Resolver.opening mask := by decide
  have hback : ∀ mask ∈ scrubMasks.map List.reverse,
      ¬ Overlap Resolver.closing.reverse mask := by decide
  refine decide_eq_true ⟨?_, ?_⟩
  · exact of_scrub (motive := fun u => Resolver.opening <+: u)
      (fun _ _ hcovered => hcovered.uncovered_front hfront (by decide) (List.suffix_refl _))
      hopening
  · refine of_scrub (motive := fun u => Resolver.closing <:+ u) (fun t out hcovered hsuf => ?_)
      hclosing
    rw [← List.reverse_prefix] at hsuf ⊢
    exact hcovered.reverse.uncovered_front hback (by decide) (List.suffix_refl _) hsuf

/-- What is hidden after redacting. -/
theorem hidden_redactPart (p : Part) : (redactPart p).Hidden ↔ p.Hides := by
  -- Only a text that stands under a secret key is asked for anything.
  match p with
  | .key name => exact Iff.rfl
  | .scalar false nearest value => exact Iff.rfl
  | .scalar true nearest (.string text) =>
    have hscalar : ∀ out, Part.Hidden (.scalar true nearest (.string out))
        ↔ out = redactedMask ∨ IsReference out := by
      intro out
      simp [Part.Hidden]
    show Part.Hidden (.scalar true nearest (redactValue nearest (.string text))) ↔ _
    rw [hides_string, redactValue]
    -- In the order of the source: a template stays, a secret key gives the mask, and the rest is
    -- scrubbed.
    by_cases hlike : templateLike text = true
    · rw [if_pos hlike, if_pos hlike, hscalar]
      refine or_iff_right ?_
      rintro rfl
      exact absurd hlike (by decide)
    · rw [if_neg hlike, if_neg hlike]
      by_cases hkey : keyIsSecret nearest = true
      · rw [if_pos hkey, hscalar]
        exact iff_of_true (Or.inl rfl) (Or.inl hkey)
      · rw [if_neg hkey, hscalar, scrub_eq_mask_iff, or_iff_right hkey]
        -- What is scrubbed to a reference was one, since scrubbing writes no braces.
        refine or_iff_left fun href => hlike ?_
        exact templateLike_of_scrub (templateLike_of_isReference href)
  | .scalar true nearest (.integer n) => simp [redactPart, redactValue, Part.Hidden, Part.Hides]
  | .scalar true nearest (.float text) => simp [redactPart, redactValue, Part.Hidden, Part.Hides]
  | .scalar true nearest (.boolean b) => simp [redactPart, redactValue, Part.Hidden, Part.Hides]
  | .scalar true nearest (.datetime text) =>
    simp [redactPart, redactValue, Part.Hidden, Part.Hides]
  | .scalar true nearest (.array items) => simp [redactPart, redactValue, Part.Hidden, Part.Hides]
  | .scalar true nearest (.table fields) =>
    simp [redactPart, redactValue, Part.Hidden, Part.Hides]

/-! ### Credentials -/

/-- The keys of an `[auth]` table that hold a credential. -/
def credentialKeys : List Text :=
  ["token".toList, "password".toList, "value".toList, "client_secret".toList]

/-- The literal credentials in the `[auth]` table of a document. -/
def IsCredential (fields : List (Text × TomlValue)) (c : Text) : Prop :=
  c ≠ [] ∧ ¬ IsReference c ∧
    ∃ auth, ("auth".toList, TomlValue.table auth) ∈ fields ∧
      ∃ key ∈ credentialKeys, (key, TomlValue.string c) ∈ auth

/-- The text of a scalar. -/
def scalarText : TomlValue → Text
  | .string text => text
  | .integer n => (toString n.toInt).toList
  | .float text => text.getD []
  | .boolean b => (toString b).toList
  | .datetime text => text
  | _ => []

/-- The text of a part. -/
def Part.text : Part → Text
  | .key name => name
  | .scalar _ _ value => scalarText value

/-- A text is in what redacting leaves of a part: in a key, in a scalar that is no string, in a
string that looks like a reference, in the mask of one with a secret key, or in another string,
where no pass of `scrub` hides it. Only a text that a mask overlaps can be spelled by what is
left. -/
def Part.Leaves (c : Text) : Part → Prop
  | .key name => c <:+: name
  | .scalar _ nearest (.string text) =>
    if templateLike text then c <:+: text
    else if keyIsSecret nearest then c <:+: redactedMask
    else if Overlap c redactedMask ∨ Overlap c jwtMask then c <:+: scrub text
    else c <:+: text ∧ ¬ ScrubHides c text
  | .scalar _ _ value => c <:+: scalarText value

/-- What is left of a part. -/
theorem infix_redactPart (c : Text) (p : Part) : c <:+: (redactPart p).text ↔ p.Leaves c := by
  -- A key is never redacted, and of the values only texts are.
  match p with
  | .key name => exact Iff.rfl
  | .scalar under nearest (.string text) =>
    show c <:+: scalarText (redactValue nearest (.string text))
      ↔ if templateLike text then c <:+: text
        else if keyIsSecret nearest then c <:+: redactedMask
        else if Overlap c redactedMask ∨ Overlap c jwtMask then c <:+: scrub text
        else c <:+: text ∧ ¬ ScrubHides c text
    rw [redactValue]
    split_ifs with htemplate hkey hoverlap
    · exact Iff.rfl
    · exact Iff.rfl
    · exact Iff.rfl
    -- Away from the masks the scrubbed text holds what the passes left of the text.
    · obtain ⟨hred, hjwt⟩ := not_or.mp hoverlap
      exact infix_scrub_iff_of_not_overlap hred hjwt
  | .scalar under nearest (.integer n) => simp [redactPart, redactValue, Part.text, Part.Leaves]
  | .scalar under nearest (.float text) => simp [redactPart, redactValue, Part.text, Part.Leaves]
  | .scalar under nearest (.boolean b) => simp [redactPart, redactValue, Part.text, Part.Leaves]
  | .scalar under nearest (.datetime text) =>
    simp [redactPart, redactValue, Part.text, Part.Leaves]
  | .scalar under nearest (.array items) =>
    simp [redactPart, redactValue, Part.text, Part.Leaves, scalarText]
  | .scalar under nearest (.table fields) =>
    simp [redactPart, redactValue, Part.text, Part.Leaves, scalarText]

/-! ### Documents -/

/-- The library writes every document that differs from one it has read in its strings only, and
reads it back. -/
def TomlLib.Rewrites (lib : TomlLib) : Prop :=
  ∀ raw fields fields', lib.fromStr raw = some fields →
    skeleton (.table fields') = skeleton (.table fields) →
    ∃ text, lib.toStringPretty (.table fields') = some text ∧ lib.fromStr text = some fields'

/-- The redacted text is a document with the same structure, nothing but masks and references under
secret keys, and no literal credential in a key or a scalar. -/
def RedactsToml (lib : TomlLib) (raw : Text) (fields : List (Text × TomlValue)) : Prop :=
  ∃ result, lib.fromStr (redactToml lib raw) = some result ∧
    skeleton (.table result) = skeleton (.table fields) ∧
    (∀ p ∈ parts false [] (.table result), p.Hidden) ∧
    ∀ c, IsCredential fields c → ∀ p ∈ parts false [] (.table result), ¬ c <:+: p.text

/-- The result is the redacted document. -/
theorem fromStr_redactToml {lib : TomlLib} (hlib : lib.Rewrites) {raw : Text}
    {fields : List (Text × TomlValue)} (hraw : lib.fromStr raw = some fields) :
    ∃ result, lib.fromStr (redactToml lib raw) = some result ∧
      TomlValue.table result = redactValue [] (.table fields) := by
  have hvalue : redactValue [] (.table fields)
      = .table (fields.map fun field => (field.1, redactValue field.1 field.2)) := by
    rw [redactValue]
  have hsame := skeleton_redactValue [] (.table fields)
  rw [hvalue] at hsame
  obtain ⟨text, hwritten, hread⟩ := hlib raw fields _ hraw hsame
  refine ⟨_, ?_, hvalue.symm⟩
  rw [redactToml, hraw]
  show lib.fromStr ((lib.toStringPretty (redactValue [] (.table fields))).getD (scrub raw)) = _
  rw [hvalue, hwritten]
  exact hread

/-- A document with the value of an API key. -/
def authDocument (value : Text) : List (Text × TomlValue) :=
  [("auth".toList, .table [("value".toList, .string value)])]

/-- A library for these documents. -/
def authLib : TomlLib where
  fromStr raw :=
    match Resolver.stripPrefix "[auth]\nvalue = \"".toList raw with
    | some rest =>
      match JsonText.readBody rest with
      | some (value, ['\n']) => some (authDocument value)
      | _ => none
    | none => none
  toStringPretty
    | .table [(auth, .table [(key, .string value)])] =>
      if auth = "auth".toList ∧ key = "value".toList then
        some ("[auth]\nvalue = ".toList ++ jsonString value ++ ['\n'])
      else none
    | _ => none

/-- A value with the skeleton of a string is one. -/
theorem exists_string {value : TomlValue} (h : skeleton value = .string []) :
    ∃ text, value = .string text := by
  cases value with
  | string text => exact ⟨text, rfl⟩
  | _ => simp [skeleton] at h

/-- A value with the skeleton of a table with one key is one. -/
theorem exists_field {value inner : TomlValue} {key : Text}
    (h : skeleton value = .table [(key, inner)]) :
    ∃ value', value = .table [(key, value')] ∧ skeleton value' = inner := by
  cases value with
  | table fields =>
    simp only [skeleton, TomlValue.table.injEq] at h
    obtain ⟨⟨key', value'⟩, rest, rfl, hfield, hrest⟩ := List.map_eq_cons_iff.mp h
    obtain ⟨rfl, hvalue⟩ := Prod.mk.inj hfield
    rw [List.map_eq_nil_iff.mp hrest]
    exact ⟨value', rfl, hvalue⟩
  | _ => simp [skeleton] at h

/-- These documents have one skeleton. -/
theorem skeleton_authDocument (value : Text) :
    skeleton (.table (authDocument value))
      = .table [("auth".toList, .table [("value".toList, .string [])])] := by
  simp [authDocument, skeleton]

/-- The library does what is asked of it. -/
theorem rewrites_authLib : authLib.Rewrites := by
  intro raw fields fields' hraw hsame
  -- The document is the one table that the library knows.
  obtain ⟨value, rfl⟩ : ∃ value, fields = authDocument value := by
    unfold authLib at hraw
    dsimp only at hraw
    split at hraw
    · split at hraw
      · exact ⟨_, (Option.some.inj hraw).symm⟩
      · exact absurd hraw (by simp)
    · exact absurd hraw (by simp)
  -- What has its skeleton is this table with another text.
  rw [skeleton_authDocument] at hsame
  obtain ⟨inner, houter, hinner⟩ := exists_field hsame
  obtain ⟨leaf, rfl, hleaf⟩ := exists_field hinner
  obtain ⟨value', rfl⟩ := exists_string hleaf
  obtain rfl : fields' = authDocument value' := TomlValue.table.inj houter
  refine ⟨_, rfl, ?_⟩
  -- And the text is read back from the line that was written.
  have hstrip : Resolver.stripPrefix "[auth]\nvalue = \"".toList
      ("[auth]\nvalue = ".toList ++ jsonString value' ++ ['\n'])
      = some (value'.flatMap jsonChar ++ '"' :: ['\n']) := by
    have hfront : "[auth]\nvalue = ".toList ++ jsonString value' ++ ['\n']
        = "[auth]\nvalue = \"".toList ++ (value'.flatMap jsonChar ++ '"' :: ['\n']) := by
      simp [jsonString]
    rw [hfront, Resolver.stripPrefix, if_pos (List.prefix_append _ _), List.drop_left]
  unfold authLib
  dsimp only
  rw [hstrip]
  dsimp only
  rw [JsonText.readBody_of_body (stringBody_jsonChars value')]
  rfl

/-- The parts of such a document. -/
theorem parts_authDocument (value : Text) :
    parts false [] (.table (authDocument value))
      = [.key "auth".toList, .key "value".toList,
        .scalar true "value".toList (.string value)] := by
  have hauth : keyIsSecret "auth".toList = true := by decide
  simp only [authDocument, parts, List.flatMap_cons, List.flatMap_nil, Bool.false_or, hauth,
    Bool.true_or, List.append_nil]

end Gabriel.Cli
