import Gabriel.Proofs.FieldMap
import Gabriel.Proofs.Vars

/-!
# `Gabriel.Proofs.ResolveMap`: what resolving a map loses

`resolve_map` resolves the entries of a map and inserts each into a new one, under its resolved key
and in place of what is there. `FieldMap::insert` and the collection of a list append to the values
of a key; `resolve_map` does not use them. So it loses the values of an entry when a later key
resolves to the same text, and loses nothing otherwise.

A map of entries has the values of the last entry of each key, so nothing is lost when no two
entries with values have one key. The entries of a resolver are these, resolved one by one, and each
has as many values as its template. The theorems:

* `valuesOf_ofList_append`: a map of entries has the values of the last entry of each key.
* `values_ofList_iff`: when it has all of them, in order.
* `resolveMap_eq_ok`: a resolved map is the map of the resolved entries.
* `losesNothing_iff`: a resolved map has the resolved pairs exactly when no key with values resolves
  to the text of a later one.
-/

set_option autoImplicit false

namespace Gabriel.Core

open Text Fallible

/-- The pairs of some entries. -/
abbrev pairsOf (entries : List (Text × FieldValue)) : List (Text × Text) :=
  entries.flatMap FieldMap.entryPairs

/-- A map has the pairs of some entries, and the values of each key in the same order. -/
def LosesNothing (entries : List (Text × FieldValue)) (map : FieldMap) : Prop :=
  map.iterPairs.Perm (pairsOf entries) ∧
    ∀ key, map.valuesOf key = ((pairsOf entries).filter (·.1 = key)).map (·.2)

/-! ### Entries put into a map -/

/-- The values of a key in some entries. -/
theorem valuesAt_append (entries : List (Text × FieldValue)) (e : Text × FieldValue) (key : Text) :
    ((pairsOf (entries ++ [e])).filter (·.1 = key)).map (·.2)
      = ((pairsOf entries).filter (·.1 = key)).map (·.2)
        ++ if key = e.1 then e.2.toList else [] := by
  have hlast : ((FieldMap.entryPairs e).filter (·.1 = key)).map (·.2)
      = if key = e.1 then e.2.toList else [] := by
    have hpairs := FieldMap.filter_entryPairs (List.pairwise_singleton _ e) key
    rw [List.flatMap_singleton] at hpairs
    rw [hpairs, SortedMap.lookupEntry]
    by_cases hkey : key = e.1
    · rw [if_pos hkey, if_pos hkey]
      rfl
    · rw [if_neg hkey, if_neg hkey]
      rfl
  rw [pairsOf, List.flatMap_append, List.flatMap_singleton, List.filter_append, List.map_append,
    hlast]

/-- A map of entries has the values of the last entry of each key. -/
theorem valuesOf_ofList_append (entries : List (Text × FieldValue)) (e : Text × FieldValue)
    (key : Text) :
    FieldMap.valuesOf ⟨SortedMap.ofList (entries ++ [e])⟩ key
      = if key = e.1 then e.2.toList else FieldMap.valuesOf ⟨SortedMap.ofList entries⟩ key := by
  have hlast : SortedMap.ofList (entries ++ [e]) = (SortedMap.ofList entries).insert e.1 e.2 := by
    rw [SortedMap.ofList, SortedMap.insertAll, List.foldl_append]
    rfl
  rw [FieldMap.valuesOf, hlast]
  dsimp only
  rw [SortedMap.get?_insert]
  by_cases hkey : key = e.1
  · rw [if_pos hkey, if_pos hkey]
    rfl
  · rw [if_neg hkey, if_neg hkey]
    rfl

/-- There is no value of a key when the entries of the key are empty. -/
theorem valuesAt_eq_nil_iff (entries : List (Text × FieldValue)) (key : Text) :
    ((pairsOf entries).filter (·.1 = key)).map (·.2) = [] ↔
      ∀ a ∈ entries, a.1 = key → a.2.toList = [] := by
  rw [List.map_eq_nil_iff, List.filter_eq_nil_iff]
  constructor
  · intro h a ha hkey
    rw [List.eq_nil_iff_forall_not_mem]
    intro v hv
    have hpair : (a.1, v) ∈ pairsOf entries :=
      List.mem_flatMap.mpr ⟨a, ha, List.mem_map.mpr ⟨v, hv, rfl⟩⟩
    exact h _ hpair (decide_eq_true hkey)
  · rintro h p hp hkey
    obtain ⟨a, ha, hpa⟩ := List.mem_flatMap.mp hp
    obtain ⟨v, hv, rfl⟩ := List.mem_map.mp hpa
    rw [h a ha (of_decide_eq_true hkey)] at hv
    exact absurd hv List.not_mem_nil

/-- A map has no value of a key when the entries of the key are empty. -/
theorem valuesOf_ofList_eq_nil {entries : List (Text × FieldValue)} {key : Text}
    (h : ∀ a ∈ entries, a.1 = key → a.2.toList = []) :
    FieldMap.valuesOf ⟨SortedMap.ofList entries⟩ key = [] := by
  rw [FieldMap.valuesOf]
  dsimp only
  cases hget : (SortedMap.ofList entries).get? key with
  | none => rfl
  | some value => exact h _ (SortedMap.mem_of_get?_ofList hget) rfl

/-- Putting entries into a map one after the other keeps the values of each key exactly when no
entry with values is followed by one of the same key. -/
theorem values_ofList_iff (entries : List (Text × FieldValue)) :
    (∀ key, FieldMap.valuesOf ⟨SortedMap.ofList entries⟩ key
        = ((pairsOf entries).filter (·.1 = key)).map (·.2)) ↔
      entries.Pairwise fun a b => a.1 = b.1 → a.2.toList = [] := by
  -- Induction from the end of the list, since a later entry replaces an earlier one.
  induction entries using List.reverseRecOn with
  | nil => exact ⟨fun _ => List.Pairwise.nil, fun _ _ => rfl⟩
  | append_singleton entries e ih =>
    rw [List.pairwise_append, ← ih]
    constructor
    · intro h
      -- The last entry replaced what its key had, so nothing was there.
      have hempty : ((pairsOf entries).filter (·.1 = e.1)).map (·.2) = [] := by
        have hkey := h e.1
        rw [valuesOf_ofList_append, valuesAt_append, if_pos rfl, if_pos rfl] at hkey
        exact List.self_eq_append_left.mp hkey
      refine ⟨?_, List.pairwise_singleton _ _, ?_⟩
      · intro key
        -- Another key does not see the last entry.
        by_cases hkey : key = e.1
        · rw [hkey, hempty]
          exact valuesOf_ofList_eq_nil ((valuesAt_eq_nil_iff entries e.1).mp hempty)
        · have hsame := h key
          rw [valuesOf_ofList_append, valuesAt_append, if_neg hkey, if_neg hkey,
            List.append_nil] at hsame
          exact hsame
      · intro a ha b hb hkey
        rw [List.mem_singleton.mp hb] at hkey
        exact (valuesAt_eq_nil_iff entries e.1).mp hempty a ha hkey
    · rintro ⟨h, -, hlast⟩ key
      rw [valuesOf_ofList_append, valuesAt_append]
      -- The key of the last entry had no values before, so nothing is lost.
      by_cases hkey : key = e.1
      · have hempty : ((pairsOf entries).filter (·.1 = key)).map (·.2) = [] := by
          rw [valuesAt_eq_nil_iff]
          intro a ha ha'
          exact hlast a ha e (List.mem_singleton.mpr rfl) (ha'.trans hkey)
        rw [if_pos hkey, if_pos hkey, hempty, List.nil_append]
      · rw [if_neg hkey, if_neg hkey, List.append_nil]
        exact h key

/-- An entry and its template are empty together. -/
theorem pairwise_zip_iff {templates entries : List (Text × FieldValue)}
    (h : List.Forall₂ (fun e e' => e'.2.toList.length = e.2.toList.length) templates entries) :
    (entries.Pairwise fun a b => a.1 = b.1 → a.2.toList = []) ↔
      (templates.zip entries).Pairwise fun a b => a.2.1 = b.2.1 → a.1.2.toList = [] := by
  induction h with
  | nil => exact ⟨fun _ => List.Pairwise.nil, fun _ => List.Pairwise.nil⟩
  | @cons e e' templates entries hlen htail ih =>
    have hnil : e'.2.toList = [] ↔ e.2.toList = [] := by
      rw [← List.length_eq_zero_iff, hlen, List.length_eq_zero_iff]
    have hmap : (templates.zip entries).map (·.2) = entries :=
      List.map_snd_zip htail.length_eq.ge
    rw [List.zip_cons_cons, List.pairwise_cons, List.pairwise_cons, ih]
    refine and_congr_left fun _ => ?_
    constructor
    · intro hall p hp hkey
      have hmem : p.2 ∈ entries := by
        rw [← hmap]
        exact List.mem_map.mpr ⟨p, hp, rfl⟩
      exact hnil.mp (hall p.2 hmem hkey)
    · intro hall b hb hkey
      rw [← hmap] at hb
      obtain ⟨p, hp, rfl⟩ := List.mem_map.mp hb
      exact hnil.mpr (hall p hp hkey)

/-! ### The map of a resolver -/

namespace Resolver

/-- The entries of a map, each with its key and its values resolved. -/
def resolvedEntries (world : World) (map : FieldMap) : ResolverM (List (Text × FieldValue)) :=
  map.fields.entries.mapM fun e => do
    let key ← resolve world e.1
    let value ← resolveValue world e.2
    pure (key, value)

variable {world : World}

/-- A resolved map is the map of the resolved entries. -/
theorem resolveMap_eq_ok {map map' : FieldMap} {r r' : Resolver} :
    exec (resolveMap world map) r = (.ok map', r') ↔
      ∃ entries, exec (resolvedEntries world map) r = (.ok entries, r') ∧
        (⟨SortedMap.ofList entries⟩ : FieldMap) = map' :=
  exec_bind_pure_eq_ok

/-- A resolved entry has as many values as its template. -/
theorem length_resolvedEntries {map : FieldMap} {entries : List (Text × FieldValue)}
    {r r' : Resolver} (h : exec (resolvedEntries world map) r = (.ok entries, r')) :
    List.Forall₂ (fun e e' => e'.2.toList.length = e.2.toList.length) map.fields.entries
      entries := by
  refine (exec_mapM_eq_ok sameSetup_refl sameSetup_trans kept_sameSetup.resolveEntry h).imp ?_
  rintro e e' ⟨s, s', -, hrun⟩
  obtain ⟨key, t, -, hrest⟩ := exec_bind_eq_ok.mp hrun
  obtain ⟨value, hvalue, rfl⟩ := exec_bind_pure_eq_ok.mp hrest
  exact (resolveValue_ok hvalue).length_eq.symm

/-- **A resolved map has the resolved pairs exactly when no key with values resolves to the same
text as a later key.** The order of the values of each key is then kept as well. -/
theorem losesNothing_iff {map : FieldMap} {entries : List (Text × FieldValue)} {r r' : Resolver}
    (h : exec (resolvedEntries world map) r = (.ok entries, r')) :
    (∃ map', exec (resolveMap world map) r = (.ok map', r') ∧ LosesNothing entries map') ↔
      (map.fields.entries.zip entries).Pairwise fun a b =>
        a.2.1 = b.2.1 → a.1.2.toList = [] := by
  -- The map that is returned is the one that the entries are put into.
  have hmap : (∃ map', exec (resolveMap world map) r = (.ok map', r') ∧ LosesNothing entries map') ↔
      LosesNothing entries ⟨SortedMap.ofList entries⟩ := by
    constructor
    · rintro ⟨map', hrun, hloses⟩
      obtain ⟨entries', hentries, rfl⟩ := resolveMap_eq_ok.mp hrun
      rw [h, Prod.mk.injEq, Except.ok.injEq] at hentries
      rw [← hentries.1] at hloses
      exact hloses
    · intro hloses
      exact ⟨_, resolveMap_eq_ok.mpr ⟨entries, h, rfl⟩, hloses⟩
  -- The pairs as a whole are a permutation when the values of every key agree.
  have hvalues : LosesNothing entries ⟨SortedMap.ofList entries⟩ ↔
      ∀ key, FieldMap.valuesOf ⟨SortedMap.ofList entries⟩ key
        = ((pairsOf entries).filter (·.1 = key)).map (·.2) := by
    constructor
    · exact fun hloses => hloses.2
    · intro hsame
      refine ⟨FieldMap.perm_of_values fun key => ?_, hsame⟩
      rw [FieldMap.filter_iterPairs]
      exact hsame key
  rw [hmap, hvalues, values_ofList_iff]
  exact pairwise_zip_iff (length_resolvedEntries h)

/-- Two variables of different values, as keys. -/
theorem losesNothing_iff_apart :
    let world : World := ⟨fun _ => none, fun _ => 0, fun _ => 0, fun _ => 0⟩
    let map := FieldMap.fromIter [("{{a}}".toList, ['1']),
      ("{{b}}".toList, ['2'])]
    let r := Resolver.new.withVars [(['a'], ['x']), (['b'], ['y'])]
    ∃ map' r', exec (resolveMap world map) r = (.ok map', r') ∧
      LosesNothing [(['x'], .one ['1']), (['y'], .one ['2'])] map' := by
  intro world map r
  have hrun : okWith (fun entries _ =>
      decide (entries = [(['x'], .one ['1']), (['y'], .one ['2'])]))
      (exec (resolvedEntries world map) r) = true := by decide +kernel
  obtain ⟨entries, r', hentries, htest⟩ := exists_of_okWith hrun
  obtain rfl := of_decide_eq_true htest
  obtain ⟨map', hmap, hloses⟩ := (losesNothing_iff hentries).mpr (by decide +kernel)
  exact ⟨map', r', hmap, hloses⟩

/-- Two variables of the same value, as keys: the pair of the first one is lost. -/
theorem not_losesNothing_sameKey :
    ¬ ∀ (world : World) (map : FieldMap) (r r' : Resolver) (entries : List (Text × FieldValue)),
      exec (resolvedEntries world map) r = (.ok entries, r') →
        ∃ map', exec (resolveMap world map) r = (.ok map', r') ∧ LosesNothing entries map' := by
  intro hclaim
  let world : World := ⟨fun _ => none, fun _ => 0, fun _ => 0, fun _ => 0⟩
  let map := FieldMap.fromIter [("{{a}}".toList, ['1']),
    ("{{b}}".toList, ['2'])]
  let r := Resolver.new.withVars [(['a'], ['x']), (['b'], ['x'])]
  have hrun : okWith (fun entries _ =>
      decide (entries = [(['x'], .one ['1']), (['x'], .one ['2'])]))
      (exec (resolvedEntries world map) r) = true := by decide +kernel
  obtain ⟨entries, r', hentries, htest⟩ := exists_of_okWith hrun
  obtain rfl := of_decide_eq_true htest
  obtain ⟨map', hmap, hloses⟩ := hclaim world map r r' _ hentries
  obtain ⟨entries', hentries', rfl⟩ := resolveMap_eq_ok.mp hmap
  rw [hentries, Prod.mk.injEq, Except.ok.injEq] at hentries'
  rw [← hentries'.1] at hloses
  exact absurd (hloses.2 ['x']) (by decide +kernel)

end Resolver

end Gabriel.Core
