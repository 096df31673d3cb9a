import Gabriel.Proofs.FieldMap

/-!
# `Gabriel.Proofs.HeaderValues`: the values of a header name

Header names are compared up to letter case, so a name can have several keys, each with several
values. `headerValues` lists them all, in the order of the pairs. `getFirst` and `containsKey` look
at keys, so they agree with the list in a map without empty entries (`Full`).

Two spellings of a name select the same keys, so nothing here depends on the case of a name. The
theorems:

* `eqIgnoreAsciiCase_congr`: two spellings of a name select the same keys.
* `headerValues_eq`: the values of a name are those of its keys.
* `getFirst_eq_head`: the first value of a name is the first of its values.
* `containsKey_iff`: a name has a key exactly when it has values.
-/

set_option autoImplicit false

namespace Gabriel.Core

open Text

namespace FieldMap

/-- The values of the pairs with a name, in any letter case. -/
def headerValues (map : FieldMap) (name : Text) : List Text :=
  (map.iterPairs.filter fun e => eqIgnoreAsciiCase e.1 name).map (·.2)

/-- No key has an empty list of values. -/
def Full (map : FieldMap) : Prop := ∀ e ∈ map.fields.entries, e.2.toList ≠ []

/-- Two spellings of a name select the same keys. -/
theorem eqIgnoreAsciiCase_congr {name name' : Text} (h : asciiLower name = asciiLower name')
    (key : Text) : eqIgnoreAsciiCase key name = eqIgnoreAsciiCase key name' := by
  unfold eqIgnoreAsciiCase
  rw [h]

/-- The first value of a header does not depend on the case of its name. -/
theorem getFirst_congr (map : FieldMap) {name name' : Text}
    (h : asciiLower name = asciiLower name') : map.getFirst name = map.getFirst name' := by
  unfold getFirst
  simp only [eqIgnoreAsciiCase_congr h]

/-- Nor does whether there is one. -/
theorem containsKey_congr (map : FieldMap) {name name' : Text}
    (h : asciiLower name = asciiLower name') : map.containsKey name = map.containsKey name' := by
  unfold containsKey
  simp only [eqIgnoreAsciiCase_congr h]

/-- A value of a name is that of a pair. -/
theorem mem_headerValues {map : FieldMap} {name v : Text} :
    v ∈ map.headerValues name
      ↔ ∃ key, asciiLower key = asciiLower name ∧ (key, v) ∈ map.iterPairs := by
  unfold headerValues
  rw [List.mem_map]
  constructor
  · rintro ⟨e, he, rfl⟩
    obtain ⟨hmem, hname⟩ := List.mem_filter.mp he
    exact ⟨e.1, eqIgnoreAsciiCase_iff.mp hname, hmem⟩
  · rintro ⟨key, hname, hmem⟩
    exact ⟨(key, v), List.mem_filter.mpr ⟨hmem, eqIgnoreAsciiCase_iff.mpr hname⟩, rfl⟩

/-- The pairs of the keys that pass a test are the values of their entries. -/
theorem filter_flatMap_entryPairs (entries : List (Text × FieldValue)) (p : Text → Bool) :
    ((entries.flatMap entryPairs).filter fun e => p e.1).map (·.2)
      = (entries.filter fun e => p e.1).flatMap (·.2.toList) := by
  induction entries with
  | nil => rfl
  | cons e rest ih =>
    have hentry : ((entryPairs e).filter fun e => p e.1).map (·.2)
        = if p e.1 then e.2.toList else [] := by
      unfold entryPairs
      rw [List.filter_map, List.map_map]
      show ((e.2.toList.filter fun _ => p e.1).map id) = _
      rw [List.map_id]
      cases p e.1 with
      | true => exact List.filter_true _
      | false => exact List.filter_false _
    rw [List.flatMap_cons, List.filter_append, List.map_append, ih, hentry, List.filter_cons]
    by_cases hp : p e.1 = true
    · rw [if_pos hp, if_pos hp, List.flatMap_cons]
    · rw [if_neg hp, if_neg hp, List.nil_append]

/-- The values of a name are those of its keys. -/
theorem headerValues_eq (map : FieldMap) (name : Text) :
    map.headerValues name
      = (map.fields.entries.filter fun e => eqIgnoreAsciiCase e.1 name).flatMap (·.2.toList) :=
  filter_flatMap_entryPairs _ fun key => eqIgnoreAsciiCase key name

/-- In a map without empty entries the first value of a name is the first of its values. -/
theorem getFirst_eq_head {map : FieldMap} (h : map.Full) (name : Text) :
    map.getFirst name = (map.headerValues name).head? := by
  rw [headerValues_eq, getFirst, ← List.head?_filter]
  cases hentries : map.fields.entries.filter fun e => eqIgnoreAsciiCase e.1 name with
  | nil => rfl
  | cons e rest =>
    have hmem : e ∈ map.fields.entries :=
      (List.mem_filter.mp (hentries ▸ List.mem_cons_self)).1
    obtain ⟨v, vs, hvalues⟩ := List.exists_cons_of_ne_nil (h e hmem)
    rw [List.head?_cons, Option.map_some, List.flatMap_cons, hvalues, List.cons_append,
      List.head?_cons]
    cases hvalue : e.2 with
    | one value =>
      rw [hvalue] at hvalues
      exact congrArg some (List.cons_eq_cons.mp hvalues).1
    | many values =>
      rw [hvalue] at hvalues
      show some (values.head?.getD []) = _
      rw [show values = v :: vs from hvalues]
      rfl

/-- A name with values has a key. -/
theorem containsKey_of_mem {map : FieldMap} {name v : Text} (h : v ∈ map.headerValues name) :
    map.containsKey name = true := by
  rw [headerValues_eq, List.mem_flatMap] at h
  obtain ⟨e, he, -⟩ := h
  obtain ⟨hmem, hname⟩ := List.mem_filter.mp he
  exact List.any_eq_true.mpr ⟨e.1, List.mem_map_of_mem hmem, hname⟩

/-- In a map without empty entries a name has a key exactly when it has values. -/
theorem containsKey_iff {map : FieldMap} (h : map.Full) (name : Text) :
    map.containsKey name = true ↔ map.headerValues name ≠ [] := by
  constructor
  · intro hkey
    obtain ⟨key, hmem, hname⟩ := List.any_eq_true.mp hkey
    obtain ⟨e, he, rfl⟩ := List.mem_map.mp hmem
    rw [headerValues_eq, ne_eq, List.flatMap_eq_nil_iff]
    exact fun hnil => h e he (hnil e (List.mem_filter.mpr ⟨he, hname⟩))
  · intro hvalues
    obtain ⟨v, hv⟩ := List.exists_mem_of_ne_nil _ hvalues
    exact containsKey_of_mem hv

end FieldMap

end Gabriel.Core
