import Mathlib

/-!
# `Gabriel.Lib.SortedMap`: a map as its strictly sorted entry list

`SortedMap κ ν` is an entry list in strictly increasing key order, with that order as a field.
It is the model of an ordered map: a lookup finds the one entry of a key, and the iteration
order is the entry list itself.

The operations are put together from `insertEntry`, which keeps the order, and each has the lookup
after it. Collecting a list is inserting its pairs one after the other, so a later pair replaces an
earlier one. The theorems:

* `mem_entries_iff`: an entry is in the list exactly when the lookup returns it.
* `get?_insert`, `get?_erase`, `get?_filter`, `get?_mapValues`: the lookup after each operation.
* `ext_get?`: two maps with the same lookups are the same map.
* `entries_ofList_of_sorted`: collecting a list that is already strictly sorted gives it back.
* `get?_insertAll`: the lookup after collecting.
* `entries_ofList_perm`: collecting that loses no weight loses no entry.
-/

set_option autoImplicit false

/-- A finite map, stored as its entries in strictly increasing key order. -/
structure SortedMap (κ ν : Type) [LinearOrder κ] where
  entries : List (κ × ν)
  sorted : entries.Pairwise (fun a b => a.1 < b.1)

namespace SortedMap

variable {κ ν μ : Type} [LinearOrder κ]

instance [DecidableEq ν] : DecidableEq (SortedMap κ ν) := fun m n =>
  decidable_of_iff (m.entries = n.entries) <| by cases m; cases n; simp

/-- The map with no entry. -/
def empty : SortedMap κ ν := ⟨[], List.Pairwise.nil⟩

instance : Inhabited (SortedMap κ ν) := ⟨empty⟩

/-- The value of the key `k` in a list of entries: that of its first entry. -/
def lookupEntry (k : κ) : List (κ × ν) → Option ν
  | [] => none
  | e :: es => if k = e.1 then some e.2 else lookupEntry k es

/-- Put `v` under `k`, before the first larger key and in place of an equal one. -/
def insertEntry (k : κ) (v : ν) : List (κ × ν) → List (κ × ν)
  | [] => [(k, v)]
  | e :: es =>
    if k < e.1 then (k, v) :: e :: es
    else if k = e.1 then (k, v) :: es
    else e :: insertEntry k v es

/-- The value bound to `k`. -/
def get? (m : SortedMap κ ν) (k : κ) : Option ν := lookupEntry k m.entries

/-- Whether `k` is bound. -/
def containsKey (m : SortedMap κ ν) (k : κ) : Bool := (m.get? k).isSome

/-- The keys, in increasing order. -/
def keys (m : SortedMap κ ν) : List κ := m.entries.map (·.1)

/-- The keys of an insertion are the new key and the old keys. -/
theorem mem_insertEntry {k : κ} {v : ν} {es : List (κ × ν)} {e : κ × ν}
    (h : e ∈ insertEntry k v es) : e = (k, v) ∨ e ∈ es := by
  induction es with
  | nil => simpa [insertEntry] using h
  | cons d es ih =>
    simp only [insertEntry] at h
    split at h
    · simpa using h
    · split at h
      · simp only [List.mem_cons] at h ⊢
        exact h.imp id Or.inr
      · simp only [List.mem_cons] at h ⊢
        rcases h with rfl | h
        · exact Or.inr (Or.inl rfl)
        · exact (ih h).imp id Or.inr

/-- Insertion keeps the strict order. -/
theorem insertEntry_sorted {k : κ} {v : ν} {es : List (κ × ν)}
    (h : es.Pairwise (fun a b => a.1 < b.1)) :
    (insertEntry k v es).Pairwise (fun a b => a.1 < b.1) := by
  induction es with
  | nil => simp [insertEntry]
  | cons e es ih =>
    obtain ⟨hhead, htail⟩ := List.pairwise_cons.mp h
    simp only [insertEntry]
    split
    · rename_i hlt
      refine List.pairwise_cons.mpr ⟨fun d hd => ?_, h⟩
      rcases List.mem_cons.mp hd with rfl | hd
      · exact hlt
      · exact lt_trans hlt (hhead d hd)
    · split
      · rename_i heq
        exact List.pairwise_cons.mpr ⟨fun d hd => heq ▸ hhead d hd, htail⟩
      · rename_i hlt hne
        refine List.pairwise_cons.mpr ⟨fun d hd => ?_, ih htail⟩
        rcases mem_insertEntry hd with rfl | hd
        · exact lt_of_le_of_ne (not_lt.mp hlt) (Ne.symm hne)
        · exact hhead d hd

/-- Bind `k` to `v`, in place of an earlier value. -/
def insert (m : SortedMap κ ν) (k : κ) (v : ν) : SortedMap κ ν :=
  ⟨insertEntry k v m.entries, insertEntry_sorted m.sorted⟩

/-- Remove the entries whose key and value fail the test. -/
def filter (p : κ → ν → Bool) (m : SortedMap κ ν) : SortedMap κ ν :=
  ⟨m.entries.filter fun e => p e.1 e.2, m.sorted.filter _⟩

/-- Remove the entry of `k`. -/
def erase (m : SortedMap κ ν) (k : κ) : SortedMap κ ν := m.filter fun k' _ => k' ≠ k

/-- Change every value, keeping the keys. -/
def mapValues (f : ν → μ) (m : SortedMap κ ν) : SortedMap κ μ :=
  ⟨m.entries.map fun e => (e.1, f e.2), by
    rw [List.pairwise_map]
    exact m.sorted⟩

/-- Insert the pairs of a list one after the other; a later pair replaces an earlier one. -/
def insertAll (m : SortedMap κ ν) (es : List (κ × ν)) : SortedMap κ ν :=
  es.foldl (fun acc e => acc.insert e.1 e.2) m

/-- Collect a list of pairs into a map. -/
def ofList (es : List (κ × ν)) : SortedMap κ ν := insertAll empty es

/-! ### Lookups -/

/-- The empty map has no entries. -/
@[simp] theorem entries_empty : (empty : SortedMap κ ν).entries = [] := rfl

/-- The entries after an insertion. -/
@[simp] theorem entries_insert (m : SortedMap κ ν) (k : κ) (v : ν) :
    (m.insert k v).entries = insertEntry k v m.entries := rfl

/-- The entries with other values. -/
@[simp] theorem entries_mapValues (f : ν → μ) (m : SortedMap κ ν) :
    (m.mapValues f).entries = m.entries.map fun e => (e.1, f e.2) := rfl

/-- The empty map has no value for a key. -/
@[simp] theorem get?_empty (k : κ) : (empty : SortedMap κ ν).get? k = none := rfl

/-- A lookup that succeeds names an entry. -/
theorem mem_of_lookupEntry {k : κ} {v : ν} {es : List (κ × ν)}
    (h : lookupEntry k es = some v) : (k, v) ∈ es := by
  induction es with
  | nil => simp [lookupEntry] at h
  | cons e es ih =>
    simp only [lookupEntry] at h
    split at h
    · rename_i hk
      cases h
      simp [hk]
    · exact List.mem_cons_of_mem _ (ih h)

/-- In a strictly sorted list every entry is the one the lookup finds. -/
theorem lookupEntry_of_mem {k : κ} {v : ν} {es : List (κ × ν)}
    (hs : es.Pairwise (fun a b => a.1 < b.1)) (h : (k, v) ∈ es) :
    lookupEntry k es = some v := by
  induction es with
  | nil => simp at h
  | cons e es ih =>
    obtain ⟨hhead, htail⟩ := List.pairwise_cons.mp hs
    simp only [lookupEntry]
    rcases List.mem_cons.mp h with rfl | h
    · simp
    · rw [if_neg (ne_of_gt (hhead _ h)), ih htail h]

/-- An entry is in the list exactly when the lookup returns it. -/
theorem mem_entries_iff {m : SortedMap κ ν} {k : κ} {v : ν} :
    (k, v) ∈ m.entries ↔ m.get? k = some v :=
  ⟨lookupEntry_of_mem m.sorted, mem_of_lookupEntry⟩

/-- The lookup after an insertion. -/
theorem get?_insert (m : SortedMap κ ν) (k k' : κ) (v : ν) :
    (m.insert k v).get? k' = if k' = k then some v else m.get? k' := by
  obtain ⟨es, hs⟩ := m
  show lookupEntry k' (insertEntry k v es) = if k' = k then some v else lookupEntry k' es
  induction es with
  | nil => rfl
  | cons e es ih =>
    simp only [insertEntry]
    split
    · simp [lookupEntry]
    · split
      · rename_i hk
        by_cases h : k' = k <;> simp [lookupEntry, h, hk.symm]
      · rename_i hne
        simp only [lookupEntry, ih (List.pairwise_cons.mp hs).2]
        by_cases h : k' = e.1
        · simp [h, Ne.symm hne]
        · simp [h]

/-- The value that was inserted. -/
@[simp] theorem get?_insert_self (m : SortedMap κ ν) (k : κ) (v : ν) :
    (m.insert k v).get? k = some v := by
  rw [get?_insert, if_pos rfl]

/-- The other keys keep their values. -/
theorem get?_insert_of_ne (m : SortedMap κ ν) {k k' : κ} (v : ν) (h : k' ≠ k) :
    (m.insert k v).get? k' = m.get? k' := by
  rw [get?_insert, if_neg h]

/-- A key is one of the keys when it is bound. -/
theorem mem_keys_iff {m : SortedMap κ ν} {k : κ} : k ∈ m.keys ↔ (m.get? k).isSome := by
  rw [keys, List.mem_map, Option.isSome_iff_exists]
  constructor
  · rintro ⟨e, he, rfl⟩
    exact ⟨e.2, mem_entries_iff.mp he⟩
  · rintro ⟨v, hv⟩
    exact ⟨(k, v), mem_entries_iff.mpr hv, rfl⟩

/-- The keys after an insertion. -/
theorem mem_keys_insert {m : SortedMap κ ν} {k k' : κ} {v : ν} :
    k' ∈ (m.insert k v).keys ↔ k' = k ∨ k' ∈ m.keys := by
  rw [mem_keys_iff, mem_keys_iff, get?_insert]
  by_cases h : k' = k
  · rw [if_pos h]
    simp [h]
  · rw [if_neg h]
    simp [h]

/-- The lookup after a filter: the value, when it passes the test. -/
theorem get?_filter (p : κ → ν → Bool) (m : SortedMap κ ν) (k : κ) :
    (m.filter p).get? k = (m.get? k).filter (p k) := by
  ext v
  rw [← mem_entries_iff, Option.filter_eq_some_iff, ← mem_entries_iff]
  simp [filter]

/-- The lookup after the removal of a key. -/
theorem get?_erase (m : SortedMap κ ν) (k k' : κ) :
    (m.erase k).get? k' = if k' = k then none else m.get? k' := by
  unfold erase
  rw [get?_filter]
  by_cases h : k' = k <;> cases m.get? k' <;> simp [h]

/-- The lookup after a change of every value. -/
@[simp] theorem get?_mapValues (f : ν → μ) (m : SortedMap κ ν) (k : κ) :
    (m.mapValues f).get? k = (m.get? k).map f := by
  obtain ⟨es, hs⟩ := m
  show lookupEntry k (es.map fun e => (e.1, f e.2)) = (lookupEntry k es).map f
  clear hs
  induction es with
  | nil => rfl
  | cons e es ih =>
    simp only [List.map_cons, lookupEntry]
    split <;> simp [*]

/-- Two maps with the same lookups are the same map. -/
theorem ext_get? {m n : SortedMap κ ν} (h : ∀ k, m.get? k = n.get? k) : m = n := by
  have hmem : ∀ e, e ∈ m.entries ↔ e ∈ n.entries := fun e => by
    rw [mem_entries_iff, mem_entries_iff, h]
  obtain ⟨es, hs⟩ := m
  obtain ⟨fs, ht⟩ := n
  congr 1
  refine List.Perm.eq_of_pairwise (fun a b _ _ hab hba => ?_) hs ht ?_
  · exact absurd (lt_trans hab hba) (lt_irrefl _)
  · have hnodup : ∀ l : List (κ × ν), l.Pairwise (fun a b => a.1 < b.1) → l.Nodup :=
      fun l hl => hl.imp fun h => by rintro rfl; exact lt_irrefl _ h
    exact (List.perm_ext_iff_of_nodup (hnodup _ hs) (hnodup _ ht)).mpr hmem

/-- Removing a key that is not there changes nothing. -/
theorem erase_of_not_containsKey {m : SortedMap κ ν} {k : κ} (h : m.containsKey k = false) :
    m.erase k = m := by
  refine ext_get? fun k' => ?_
  rw [get?_erase]
  by_cases hk : k' = k
  · rw [if_pos hk, hk]
    exact (Option.not_isSome_iff_eq_none.mp (Bool.eq_false_iff.mp h)).symm
  · rw [if_neg hk]

/-! ### Collecting a list -/

/-- A key larger than all others goes to the end. -/
theorem insertEntry_of_forall_lt {k : κ} {v : ν} {es : List (κ × ν)}
    (h : ∀ e ∈ es, e.1 < k) : insertEntry k v es = es ++ [(k, v)] := by
  induction es with
  | nil => rfl
  | cons e es ih =>
    have he : e.1 < k := h e List.mem_cons_self
    rw [insertEntry, if_neg (not_lt.mpr he.le), if_neg (ne_of_gt he),
      ih fun d hd => h d (List.mem_cons_of_mem _ hd)]
    rfl

/-- Collecting onto a map whose keys all come first appends. -/
theorem entries_insertAll_of_sorted (m : SortedMap κ ν) (es : List (κ × ν))
    (h : (m.entries ++ es).Pairwise (fun a b => a.1 < b.1)) :
    (m.insertAll es).entries = m.entries ++ es := by
  induction es generalizing m with
  | nil => simp [insertAll]
  | cons e es ih =>
    have hlast : ∀ d ∈ m.entries, d.1 < e.1 := fun d hd =>
      (List.pairwise_append.mp h).2.2 d hd e List.mem_cons_self
    have hins : (m.insert e.1 e.2).entries = m.entries ++ [e] :=
      insertEntry_of_forall_lt hlast
    show ((m.insert e.1 e.2).insertAll es).entries = _
    rw [ih _ (by rw [hins]; simpa using h), hins]
    simp

/-- Collecting a strictly sorted list gives the list back. -/
theorem entries_ofList_of_sorted {es : List (κ × ν)}
    (h : es.Pairwise (fun a b => a.1 < b.1)) : (ofList es).entries = es :=
  entries_insertAll_of_sorted empty es h

/-- The lookup after collecting onto a map: what was collected last, or the map. -/
theorem get?_insertAll (m : SortedMap κ ν) (es : List (κ × ν)) (k : κ) :
    (m.insertAll es).get? k = ((ofList es).get? k).or (m.get? k) := by
  induction es generalizing m with
  | nil => rfl
  | cons e es ih =>
    show ((m.insert e.1 e.2).insertAll es).get? k
      = (((empty.insert e.1 e.2).insertAll es).get? k).or (m.get? k)
    rw [ih, ih (empty.insert e.1 e.2), get?_insert, get?_insert, Option.or_assoc]
    by_cases hk : k = e.1
    · rw [if_pos hk, if_pos hk]
      rfl
    · rw [if_neg hk, if_neg hk]
      rfl

/-- A key that was not collected is not bound. -/
theorem get?_ofList_eq_none_iff {es : List (κ × ν)} {k : κ} :
    (ofList es).get? k = none ↔ k ∉ es.map (·.1) := by
  induction es with
  | nil => simp [ofList, insertAll]
  | cons e es ih =>
    have hcons : ofList (e :: es) = (empty.insert e.1 e.2).insertAll es := rfl
    rw [hcons, get?_insertAll, get?_insert, Option.or_eq_none_iff, ih]
    by_cases hk : k = e.1 <;> simp [hk]

/-- What is bound after collecting was collected. -/
theorem mem_of_get?_ofList {es : List (κ × ν)} {k : κ} {v : ν} (h : (ofList es).get? k = some v) :
    (k, v) ∈ es := by
  induction es with
  | nil => simp [ofList, insertAll] at h
  | cons e es ih =>
    have hcons : ofList (e :: es) = (empty.insert e.1 e.2).insertAll es := rfl
    rw [hcons, get?_insertAll, get?_insert, Option.or_eq_some_iff] at h
    rcases h with h | ⟨-, h⟩
    · exact List.mem_cons_of_mem _ (ih h)
    · by_cases hk : k = e.1
      · rw [if_pos hk] at h
        rw [hk, ← Option.some.inj h]
        exact List.mem_cons_self
      · rw [if_neg hk] at h
        exact absurd h (by simp)

/-- An insertion adds at most the weight of the new entry. -/
theorem sum_insertEntry_le (weight : κ × ν → Nat) (k : κ) (v : ν) (es : List (κ × ν)) :
    ((insertEntry k v es).map weight).sum ≤ (es.map weight).sum + weight (k, v) := by
  induction es with
  | nil => simp [insertEntry]
  | cons e es ih =>
    simp only [insertEntry]
    split
    · simp only [List.map_cons, List.sum_cons]
      omega
    · split
      · simp only [List.map_cons, List.sum_cons]
        omega
      · simp only [List.map_cons, List.sum_cons]
        omega

/-- Collecting onto a map keeps at most the weight of both. -/
theorem sum_insertAll_le (weight : κ × ν → Nat) (m : SortedMap κ ν) (es : List (κ × ν)) :
    ((m.insertAll es).entries.map weight).sum
      ≤ (m.entries.map weight).sum + (es.map weight).sum := by
  induction es generalizing m with
  | nil => simp [insertAll]
  | cons e es ih =>
    obtain ⟨k, v⟩ := e
    have hrec := ih (m.insert k v)
    have hstep := sum_insertEntry_le weight k v m.entries
    rw [entries_insert] at hrec
    simp only [insertAll, List.foldl_cons, List.map_cons, List.sum_cons] at hrec ⊢
    omega

/-- Collecting keeps at most the weight of the list. -/
theorem sum_ofList_le (weight : κ × ν → Nat) (es : List (κ × ν)) :
    ((ofList es).entries.map weight).sum ≤ (es.map weight).sum := by
  simpa [ofList, empty] using sum_insertAll_le weight empty es

/-- A new key goes somewhere between the others. -/
theorem insertEntry_split {k : κ} {es : List (κ × ν)} (h : ∀ e ∈ es, e.1 ≠ k) (v : ν) :
    ∃ front back, es = front ++ back ∧ insertEntry k v es = front ++ (k, v) :: back := by
  induction es with
  | nil => exact ⟨[], [], rfl, rfl⟩
  | cons e es ih =>
    simp only [insertEntry]
    split
    · exact ⟨[], e :: es, rfl, rfl⟩
    · rw [if_neg (h e List.mem_cons_self).symm]
      obtain ⟨front, back, hsplit, hinsert⟩ := ih fun d hd => h d (List.mem_cons_of_mem _ hd)
      exact ⟨e :: front, back, by rw [hsplit, List.cons_append], by rw [hinsert, List.cons_append]⟩

/-- A new key only adds its entry. -/
theorem insertEntry_perm {k : κ} {v : ν} {es : List (κ × ν)} (h : ∀ e ∈ es, e.1 ≠ k) :
    (insertEntry k v es).Perm ((k, v) :: es) := by
  obtain ⟨front, back, hsplit, hinsert⟩ := insertEntry_split h v
  rw [hinsert, hsplit]
  exact List.perm_middle

/-- An insertion under a key that is bound drops the weight of the old entry. -/
theorem sum_insertEntry_lt (weight : κ × ν → Nat) {k : κ} {v : ν} {es : List (κ × ν)}
    (hs : es.Pairwise (fun a b => a.1 < b.1)) (hpos : ∀ e ∈ es, 0 < weight e)
    (h : ∃ e ∈ es, e.1 = k) :
    ((insertEntry k v es).map weight).sum < (es.map weight).sum + weight (k, v) := by
  induction es with
  | nil => simp at h
  | cons e es ih =>
    obtain ⟨hhead, htail⟩ := List.pairwise_cons.mp hs
    have he := hpos e List.mem_cons_self
    simp only [insertEntry]
    split
    · rename_i hlt
      obtain ⟨d, hd, rfl⟩ := h
      -- A key in front of the first entry is in no entry at all.
      rcases List.mem_cons.mp hd with rfl | hd
      · exact absurd hlt (lt_irrefl _)
      · exact absurd (lt_trans hlt (hhead d hd)) (lt_irrefl _)
    · split
      · simp only [List.map_cons, List.sum_cons]
        omega
      · rename_i hne
        have hrec := ih htail (fun d hd => hpos d (List.mem_cons_of_mem _ hd)) (by
          obtain ⟨d, hd, hdk⟩ := h
          rcases List.mem_cons.mp hd with rfl | hd
          · exact absurd hdk.symm hne
          · exact ⟨d, hd, hdk⟩)
        simp only [List.map_cons, List.sum_cons]
        omega

/-- Collecting that loses no weight loses no entry. -/
theorem entries_ofList_perm (weight : κ × ν → Nat) {es : List (κ × ν)}
    (hpos : ∀ e ∈ es, 0 < weight e)
    (h : (es.map weight).sum ≤ ((ofList es).entries.map weight).sum) :
    (ofList es).entries.Perm es := by
  -- For any map that the entries are put into, so that the induction goes through.
  suffices hgen : ∀ m : SortedMap κ ν, (∀ e ∈ m.entries, 0 < weight e) →
      (m.entries.map weight).sum + (es.map weight).sum
        ≤ ((m.insertAll es).entries.map weight).sum →
      (m.insertAll es).entries.Perm (m.entries ++ es) by
    exact hgen empty (by simp [empty]) (by simpa [empty, ofList] using h)
  clear h
  induction es with
  | nil =>
    intro m _ _
    simp [insertAll]
  | cons e es ih =>
    intro m hm hsum
    obtain ⟨k, v⟩ := e
    have hrest := sum_insertAll_le weight (m.insert k v) es
    have hcons : m.insertAll ((k, v) :: es) = (m.insert k v).insertAll es := rfl
    rw [hcons] at hsum ⊢
    rw [entries_insert] at hrest
    simp only [List.map_cons, List.sum_cons] at hsum
    -- An entry that replaced another one would lose the weight of that one.
    have hnew : ∀ d ∈ m.entries, d.1 ≠ k := by
      intro d hd hk
      have hlt := sum_insertEntry_lt weight (v := v) m.sorted hm ⟨d, hd, hk⟩
      omega
    have hperm := insertEntry_perm (v := v) hnew
    have hweight : ((insertEntry k v m.entries).map weight).sum
        = weight (k, v) + (m.entries.map weight).sum := by
      rw [(hperm.map weight).sum_nat, List.map_cons, List.sum_cons]
    -- The map stays positive with the new entry in it.
    have hpos' : ∀ d ∈ (m.insert k v).entries, 0 < weight d := by
      intro d hd
      rw [entries_insert] at hd
      rcases List.mem_cons.mp (hperm.mem_iff.mp hd) with rfl | hd
      · exact hpos _ List.mem_cons_self
      · exact hm d hd
    have hrec := ih (fun d hd => hpos d (List.mem_cons_of_mem _ hd)) (m.insert k v) hpos' (by
      rw [entries_insert]
      omega)
    rw [entries_insert] at hrec
    exact hrec.trans ((hperm.append_right es).trans List.perm_middle.symm)

end SortedMap
