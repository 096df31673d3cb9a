import Gabriel.Core.Model
import Gabriel.Lib.StableSort
import Gabriel.Lib.Utf8

/-!
# `Gabriel.Proofs.FieldMap`: the pairs of a field map

A `FieldMap` is read through two functions: `valuesOf`, the values of one key in order, and
`iterPairs`, the list of all pairs. Insertion appends to the values of its key, so collecting a
list keeps each key's values in the order they came. Two lists with the same values for each name
hold the same pairs, and the pairs of a map come in the order of their names, so the pairs of a
collected list are the list, sorted.

The other modules read headers, queries and form fields through these facts and do not unfold the
map. The theorems:

* `valuesOf_insert`, `valuesOf_fromIter`: the values of each name.
* `filter_iterPairs`: the pairs of one key are its values, in order.
* `perm_of_values`: two lists with the same values for each name hold the same pairs.
* `iterPairs_ascending`: the pairs of a map come in the order of their names.
* `keepsEveryPair`: collecting any list and flattening the map again sorts the list by the bytes of
  the keys, and keeps the order of the pairs of one key.
-/

set_option autoImplicit false

namespace Gabriel.Core

open Text

namespace FieldMap

/-- The values of a key, in order; none for a key that is not present. -/
def valuesOf (map : FieldMap) (key : Text) : List Text :=
  ((map.fields.get? key).map FieldValue.toList).getD []

/-- The empty map has no pairs. -/
@[simp] theorem iterPairs_empty : iterPairs empty = [] := rfl

/-- It has no values of a key. -/
@[simp] theorem valuesOf_empty (key : Text) : valuesOf empty key = [] := rfl

/-- A value is listed under a key exactly when it is one of the key's values. -/
theorem mem_iterPairs {map : FieldMap} {k v : Text} :
    (k, v) ∈ map.iterPairs ↔ v ∈ map.valuesOf k := by
  have hentry : (k, v) ∈ map.iterPairs ↔
      ∃ value, map.fields.get? k = some value ∧ v ∈ value.toList := by
    simp only [iterPairs, entryPairs, List.mem_flatMap, List.mem_map, Prod.mk.injEq]
    constructor
    · rintro ⟨⟨k', value⟩, hmem, w, hw, rfl, rfl⟩
      exact ⟨value, SortedMap.mem_entries_iff.mp hmem, hw⟩
    · rintro ⟨value, hget, hv⟩
      exact ⟨(k, value), SortedMap.mem_entries_iff.mpr hget, v, hv, rfl, rfl⟩
  rw [hentry, valuesOf]
  cases map.fields.get? k <;> simp

/-- Insertion appends to the values of its key and leaves the others. -/
theorem valuesOf_insert (map : FieldMap) (key value k : Text) :
    (map.insert key value).valuesOf k
      = if k = key then map.valuesOf k ++ [value] else map.valuesOf k := by
  unfold insert valuesOf
  cases hget : map.fields.get? key with
  | none =>
    by_cases hk : k = key
    · simp [hk, hget, FieldValue.toList]
    · simp [hk, SortedMap.get?_insert_of_ne]
  | some existing =>
    cases existing <;>
    · by_cases hk : k = key
      · simp [hk, hget, FieldValue.toList]
      · simp [hk, SortedMap.get?_insert_of_ne]

/-- Collecting keeps the values of each key in the order they came. -/
theorem valuesOf_fromIter (pairs : List (Text × Text)) (k : Text) :
    (fromIter pairs).valuesOf k = (pairs.filter (·.1 = k)).map (·.2) := by
  suffices hgen : ∀ map : FieldMap,
      (pairs.foldl (fun map e => map.insert e.1 e.2) map).valuesOf k
        = map.valuesOf k ++ (pairs.filter (·.1 = k)).map (·.2) by
    simpa [fromIter] using hgen empty
  induction pairs with
  | nil => simp
  | cons e pairs ih =>
    intro map
    rw [List.foldl_cons, ih, valuesOf_insert]
    by_cases hk : k = e.1
    · rw [if_pos hk, List.filter_cons_of_pos (by simp [hk])]
      simp
    · rw [if_neg hk, List.filter_cons_of_neg (by simpa using Ne.symm hk)]

/-- In a strictly sorted list of entries, the pairs of a key are those of its entry. -/
theorem filter_entryPairs {entries : List (Text × FieldValue)}
    (h : entries.Pairwise (fun a b => a.1 < b.1)) (k : Text) :
    ((entries.flatMap entryPairs).filter (·.1 = k)).map (·.2)
      = ((SortedMap.lookupEntry k entries).map FieldValue.toList).getD [] := by
  -- Induction on the entries, which are sorted by their keys.
  induction entries with
  | nil => rfl
  | cons e entries ih =>
    obtain ⟨hhead, htail⟩ := List.pairwise_cons.mp h
    rw [List.flatMap_cons, List.filter_append, List.map_append, ih htail, SortedMap.lookupEntry]
    by_cases hk : k = e.1
    · -- The key stands in this entry only: every later key is larger.
      have hrest : SortedMap.lookupEntry k entries = none := by
        cases hget : SortedMap.lookupEntry k entries with
        | none => rfl
        | some value =>
          have hlt := hhead _ (SortedMap.mem_of_lookupEntry hget)
          exact absurd hlt (by simp [hk])
      have hall : (entryPairs e).filter (·.1 = k) = entryPairs e := by
        rw [List.filter_eq_self]
        intro p hp
        obtain ⟨v, -, rfl⟩ := List.mem_map.mp hp
        simp [hk]
      have hvalues : (entryPairs e).map (·.2) = e.2.toList := by
        rw [entryPairs, List.map_map]
        exact List.map_id _
      rw [if_pos hk, hrest, hall, hvalues]
      simp
    -- No pair of this entry has the key.
    · have hnone : (entryPairs e).filter (·.1 = k) = [] := by
        rw [List.filter_eq_nil_iff]
        intro p hp
        obtain ⟨v, -, rfl⟩ := List.mem_map.mp hp
        simpa using Ne.symm hk
      rw [if_neg hk, hnone]
      rfl

/-- The pairs of one key are its values, in order. -/
theorem filter_iterPairs (map : FieldMap) (k : Text) :
    (map.iterPairs.filter (·.1 = k)).map (·.2) = map.valuesOf k :=
  filter_entryPairs map.fields.sorted k

/-! ### Lists of pairs with the same values for each name -/

/-- A pair is counted among the values of its name. -/
theorem count_pair (l : List (Text × Text)) (k v : Text) :
    l.count (k, v) = ((l.filter (·.1 = k)).map (·.2)).count v := by
  induction l with
  | nil => rfl
  | cons e l ih =>
    by_cases hk : e.1 = k
    · rw [List.filter_cons_of_pos (by simpa using hk), List.map_cons, List.count_cons,
        List.count_cons, ih]
      obtain ⟨k', v'⟩ := e
      obtain rfl : k' = k := hk
      simp
    · rw [List.filter_cons_of_neg (by simpa using hk), List.count_cons_of_ne, ih]
      intro he
      exact hk (by rw [he])

/-- Two lists with the same values for each name hold the same pairs, in some order. -/
theorem perm_of_values {l l' : List (Text × Text)}
    (h : ∀ k, (l.filter (·.1 = k)).map (·.2) = (l'.filter (·.1 = k)).map (·.2)) : l.Perm l' := by
  rw [List.perm_iff_count]
  rintro ⟨k, v⟩
  rw [count_pair, count_pair, h]

/-- Collecting a list changes only the order of its pairs. -/
theorem iterPairs_fromIter_perm (pairs : List (Text × Text)) :
    (fromIter pairs).iterPairs.Perm pairs := by
  refine perm_of_values ?_
  intro k
  rw [filter_iterPairs, valuesOf_fromIter]

/-- Every key of a collected map has a value. -/
theorem toList_ne_nil_of_fromIter {pairs : List (Text × Text)} {e : Text × FieldValue}
    (h : e ∈ (fromIter pairs).fields.entries) : e.2.toList ≠ [] := by
  have hinsert : ∀ (map : FieldMap) (key value : Text),
      (∀ e ∈ map.fields.entries, e.2.toList ≠ []) →
      ∀ e ∈ (map.insert key value).fields.entries, e.2.toList ≠ [] := by
    intro map key value hmap e he
    unfold insert at he
    split at he
    all_goals
      rcases SortedMap.mem_insertEntry he with rfl | he
      · simp [FieldValue.toList]
      · exact hmap e he
  suffices hgen : ∀ map : FieldMap, (∀ e ∈ map.fields.entries, e.2.toList ≠ []) →
      ∀ e ∈ (pairs.foldl (fun map e => map.insert e.1 e.2) map).fields.entries,
        e.2.toList ≠ [] by
    exact hgen empty (by simp [empty, SortedMap.empty]) e h
  clear h
  induction pairs with
  | nil => exact fun map hmap => hmap
  | cons pair pairs ih =>
    intro map hmap
    exact ih _ (hinsert map pair.1 pair.2 hmap)

/-! ### The order of the pairs -/

/-- The pairs of a map come in the order of their names. -/
theorem iterPairs_ascending (map : FieldMap) : map.iterPairs.Pairwise fun a b => a.1 ≤ b.1 := by
  have hentries : ∀ entries : List (Text × FieldValue), entries.Pairwise (fun a b => a.1 < b.1) →
      (entries.flatMap entryPairs).Pairwise fun a b => a.1 ≤ b.1 := by
    intro entries hsorted
    induction entries with
    | nil => exact List.Pairwise.nil
    | cons e entries ih =>
      obtain ⟨hhead, htail⟩ := List.pairwise_cons.mp hsorted
      rw [List.flatMap_cons, List.pairwise_append]
      refine ⟨?_, ih htail, ?_⟩
      · -- The pairs of one entry have one name.
        unfold entryPairs
        rw [List.pairwise_map]
        exact List.pairwise_of_forall fun _ _ => le_rfl
      · intro a ha b hb
        obtain ⟨v, -, rfl⟩ := List.mem_map.mp ha
        obtain ⟨e', he', hb⟩ := List.mem_flatMap.mp hb
        obtain ⟨v', -, rfl⟩ := List.mem_map.mp hb
        exact (hhead e' he').le
  exact hentries map.fields.entries map.fields.sorted

/-- The pairs of a name, from their values. -/
theorem filter_eq_map (l : List (Text × Text)) (k : Text) :
    l.filter (·.1 = k) = ((l.filter (·.1 = k)).map (·.2)).map fun v => (k, v) := by
  rw [List.map_map]
  refine (List.map_congr_left fun e he => ?_).trans (List.map_id _) |>.symm
  have hk : e.1 = k := by simpa using (List.mem_filter.mp he).2
  show (k, e.2) = e
  rw [← hk]

/-- The pairs of a name in a collected map are those of the list, in the order they came. -/
theorem filter_iterPairs_fromIter (pairs : List (Text × Text)) (k : Text) :
    (fromIter pairs).iterPairs.filter (·.1 = k) = pairs.filter (·.1 = k) := by
  rw [filter_eq_map, filter_eq_map pairs, filter_iterPairs, valuesOf_fromIter]

/-- The pairs that are left by a removal. -/
theorem iterPairs_remove (map : FieldMap) (key : Text) :
    (map.remove key).iterPairs = map.iterPairs.filter fun e => !eqIgnoreAsciiCase e.1 key := by
  have hentries : ∀ entries : List (Text × FieldValue),
      (entries.filter fun e => !eqIgnoreAsciiCase e.1 key).flatMap entryPairs
        = (entries.flatMap entryPairs).filter fun e => !eqIgnoreAsciiCase e.1 key := by
    intro entries
    induction entries with
    | nil => rfl
    | cons e entries ih =>
      rw [List.flatMap_cons, List.filter_append, ← ih]
      by_cases hkept : (!eqIgnoreAsciiCase e.1 key) = true
      · have hall : (entryPairs e).filter (fun e => !eqIgnoreAsciiCase e.1 key) = entryPairs e := by
          refine List.filter_eq_self.mpr fun pair hpair => ?_
          obtain ⟨v, -, rfl⟩ := List.mem_map.mp hpair
          exact hkept
        rw [List.filter_cons, if_pos hkept, List.flatMap_cons, hall]
      · have hnone : (entryPairs e).filter (fun e => !eqIgnoreAsciiCase e.1 key) = [] := by
          refine List.filter_eq_nil_iff.mpr fun pair hpair => ?_
          obtain ⟨v, -, rfl⟩ := List.mem_map.mp hpair
          exact hkept
        rw [List.filter_cons, if_neg hkept, hnone, List.nil_append]
  exact hentries map.fields.entries

/-- No key is left by a removal that is the removed one up to letter case. -/
theorem containsKey_remove (map : FieldMap) (key : Text) :
    (map.remove key).containsKey key = false := by
  rw [containsKey, List.any_eq_false]
  intro k hk
  obtain ⟨e, he, rfl⟩ := List.mem_map.mp hk
  have hkept := (List.mem_filter.mp he).2
  rw [Bool.not_eq_true'] at hkept
  exact Bool.eq_false_iff.mp hkept

/-- **A field map keeps every pair.** Collecting a list and flattening the map again sorts the
list by the bytes of its names, and the pairs of one name stay in the order they came. A removal
takes every key away that is the removed one up to letter case, and no other pair. -/
theorem keepsEveryPair (pairs : List (Text × Text)) :
    StableSort.InOrder (fun e => Utf8.byteValues e.1) pairs (fromIter pairs).iterPairs ∧
      (fromIter pairs).iterPairs.Perm pairs ∧
      ∀ (map : FieldMap) (key : Text),
        (∀ k ∈ (map.remove key).fields.keys, eqIgnoreAsciiCase k key = false) ∧
          (map.remove key).iterPairs
            = map.iterPairs.filter fun e => !eqIgnoreAsciiCase e.1 key := by
  refine ⟨⟨?_, ?_⟩, iterPairs_fromIter_perm pairs, ?_⟩
  · refine (iterPairs_ascending (fromIter pairs)).imp fun {a b} hab => ?_
    exact not_lt.mp fun hlt => absurd (Utf8.byteValues_lt_iff.mp hlt) (not_lt.mpr hab)
  · intro k
    by_cases hk : ∃ name, Utf8.byteValues name = k
    · -- One name has these bytes.
      obtain ⟨name, rfl⟩ := hk
      simp only [Utf8.byteValues_inj]
      exact filter_iterPairs_fromIter pairs name
    · have hnone : ∀ name, ¬ Utf8.byteValues name = k := not_exists.mp hk
      simp only [hnone, decide_false, List.filter_false]
  · intro map key
    refine ⟨fun k hk => ?_, iterPairs_remove map key⟩
    have hnone := containsKey_remove map key
    rw [containsKey, List.any_eq_false] at hnone
    exact Bool.eq_false_iff.mpr (hnone k hk)

end FieldMap

end Gabriel.Core
