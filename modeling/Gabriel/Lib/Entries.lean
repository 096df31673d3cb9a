import Mathlib

/-!
# `Gabriel.Lib.Entries`: two lists of entries, key by key

Entry lists with distinct keys, as they come out of a sorted map. `valueOf` looks a key up.

Comparing two such lists goes through three parts: the keys that both have, `common`, and those of
one side only, `only`. A comparison that passes over one list and looks at the other one can be cut
into these parts, in which both sides play the same role. The theorems:

* `valueOf_eq_some_iff`, `valueOf_eq_none_iff`: the value of a key, and the keys without one.
* `mem_common_iff`, `mem_only_iff`: what is in the three parts.
* `common_swap`: the common part is the same from both sides, in some order.
* `flatMap_split`: a pass over one list, apart for the keys of both and of one.
* `common_rename`, `only_rename`: the parts of lists whose keys are renamed apart.
* `forall₂_iff_keys`: lists in key order agree entry by entry exactly when they agree key by key.
-/

set_option autoImplicit false

namespace Entries

variable {κ α β γ : Type}

/-- The keys are distinct. -/
def DistinctKeys (entries : List (κ × α)) : Prop := (entries.map (·.1)).Nodup

/-- The first key stands nowhere else, and the others are distinct. -/
theorem DistinctKeys.of_cons {e : κ × α} {rest : List (κ × α)} (h : DistinctKeys (e :: rest)) :
    (∀ v, (e.1, v) ∉ rest) ∧ DistinctKeys rest := by
  unfold DistinctKeys at h
  rw [List.map_cons, List.nodup_cons] at h
  exact ⟨fun v hmem => h.1 (List.mem_map_of_mem (f := (·.1)) hmem), h.2⟩

/-- Keys in increasing order are distinct. -/
theorem distinctKeys_of_sorted [Preorder κ] {entries : List (κ × α)}
    (h : entries.Pairwise (·.1 < ·.1)) : DistinctKeys entries := by
  unfold DistinctKeys
  rw [List.Nodup, List.pairwise_map]
  exact h.imp fun hlt => ne_of_lt hlt

/-- The entries with renamed keys. -/
def rename {ι : Type} (name : κ → ι) (entries : List (κ × α)) : List (ι × α) :=
  entries.map fun e => (name e.1, e.2)

/-- Keys that are renamed apart stay distinct. -/
theorem distinctKeys_rename {ι : Type} {name : κ → ι} (h : Function.Injective name)
    {entries : List (κ × α)} (hdistinct : DistinctKeys entries) :
    DistinctKeys (rename name entries) := by
  unfold DistinctKeys rename at *
  rw [List.map_map]
  have hkeys : (entries.map fun e => name e.1) = (entries.map (·.1)).map name := by
    rw [List.map_map]
    rfl
  exact hkeys ▸ hdistinct.map h

section Lookup

variable [DecidableEq κ]

/-- The value of a key. -/
def valueOf (entries : List (κ × α)) (key : κ) : Option α :=
  (entries.find? (·.1 = key)).map (·.2)

/-- The value of a key is that of the first entry with it. -/
theorem valueOf_cons (e : κ × α) (rest : List (κ × α)) (key : κ) :
    valueOf (e :: rest) key = if e.1 = key then some e.2 else valueOf rest key := by
  unfold valueOf
  rw [List.find?_cons]
  by_cases h : e.1 = key
  · rw [if_pos h, decide_eq_true h]
    rfl
  · rw [if_neg h, decide_eq_false h]

/-- A key has the value of its one entry. -/
theorem valueOf_eq_some_iff {entries : List (κ × α)} (h : DistinctKeys entries) {key : κ}
    {v : α} : valueOf entries key = some v ↔ (key, v) ∈ entries := by
  induction entries with
  | nil => exact iff_of_false (fun h => absurd h.symm (Option.some_ne_none v)) List.not_mem_nil
  | cons e rest ih =>
    obtain ⟨hnew, hrest⟩ := h.of_cons
    rw [valueOf_cons, List.mem_cons]
    by_cases hkey : e.1 = key
    · rw [if_pos hkey, Option.some.injEq, Prod.ext_iff]
      have hnone : (key, v) ∉ rest := hkey ▸ hnew v
      rw [or_iff_left hnone]
      exact ⟨fun hv => ⟨hkey.symm, hv.symm⟩, fun hv => hv.2.symm⟩
    · rw [if_neg hkey, ih hrest, Prod.ext_iff, or_iff_right fun hv => hkey hv.1.symm]

/-- A key without a value has no entry. -/
theorem valueOf_eq_none_iff {entries : List (κ × α)} {key : κ} :
    valueOf entries key = none ↔ ∀ e ∈ entries, e.1 ≠ key := by
  unfold valueOf
  rw [Option.map_eq_none_iff, List.find?_eq_none]
  simp only [decide_eq_true_eq, ne_eq]

/-! ### The keys of both lists -/

/-- The keys that both lists have, with both values. -/
def common (a : List (κ × α)) (b : List (κ × β)) : List (κ × α × β) :=
  a.filterMap fun e => (valueOf b e.1).map fun w => (e.1, e.2, w)

/-- The entries of the first list whose key the second one has not. -/
def only (a : List (κ × α)) (b : List (κ × β)) : List (κ × α) :=
  a.filter fun e => (valueOf b e.1).isNone

/-- What two lists have in common: the keys of both, each with its two values. -/
theorem mem_common_iff {a : List (κ × α)} {b : List (κ × β)} (hb : DistinctKeys b) {key : κ}
    {v : α} {w : β} : (key, v, w) ∈ common a b ↔ (key, v) ∈ a ∧ (key, w) ∈ b := by
  unfold common
  rw [List.mem_filterMap]
  constructor
  · rintro ⟨e, he, hw⟩
    obtain ⟨w', hw', heq⟩ := Option.map_eq_some_iff.mp hw
    obtain ⟨rfl, rfl, rfl⟩ := heq
    exact ⟨he, (valueOf_eq_some_iff hb).mp hw'⟩
  · rintro ⟨hv, hw⟩
    refine ⟨(key, v), hv, ?_⟩
    rw [(valueOf_eq_some_iff hb).mpr hw]
    rfl

/-- Every key of the first list is one of the second. -/
theorem only_eq_nil_iff {a : List (κ × α)} {b : List (κ × β)} (hb : DistinctKeys b) :
    only a b = [] ↔ ∀ e ∈ a, ∃ w, (e.1, w) ∈ b := by
  unfold only
  rw [List.filter_eq_nil_iff]
  refine forall₂_congr fun e _ => ?_
  rw [Option.isNone_iff_eq_none, ← ne_eq, Option.ne_none_iff_exists']
  exact exists_congr fun w => valueOf_eq_some_iff hb

/-- Nothing is in common twice. -/
theorem nodup_common {a : List (κ × α)} {b : List (κ × β)} (ha : DistinctKeys a) :
    (common a b).Nodup := by
  refine List.Nodup.filterMap ?_ (List.Nodup.of_map _ ha)
  intro e e' t ht ht'
  obtain ⟨w, -, rfl⟩ := Option.map_eq_some_iff.mp ht
  obtain ⟨w', -, heq⟩ := Option.map_eq_some_iff.mp ht'
  obtain ⟨hkey, hvalue⟩ := Prod.mk.inj heq
  exact Prod.ext hkey.symm (Prod.mk.inj hvalue).1.symm

/-- The keys in common are distinct. -/
theorem distinctKeys_common {a : List (κ × α)} {b : List (κ × β)} (ha : DistinctKeys a) :
    DistinctKeys (common a b) := by
  have hsub : ((common a b).map (·.1)).Sublist (a.map (·.1)) := by
    unfold common
    induction a with
    | nil => exact List.Sublist.refl _
    | cons e rest ih =>
      rw [List.filterMap_cons, List.map_cons]
      cases valueOf b e.1 with
      | some w => exact (ih ha.of_cons.2).cons_cons e.1
      | none => exact (ih ha.of_cons.2).cons e.1
  exact hsub.nodup ha

/-- What only one list has: the entries whose keys the other one does not have. -/
theorem mem_only_iff {a : List (κ × α)} {b : List (κ × β)} {e : κ × α} :
    e ∈ only a b ↔ e ∈ a ∧ valueOf b e.1 = none := by
  unfold only
  rw [List.mem_filter, Option.isNone_iff_eq_none]

/-- Both sides have the same keys in common. -/
theorem common_swap {a : List (κ × α)} {b : List (κ × β)} (ha : DistinctKeys a)
    (hb : DistinctKeys b) :
    (common b a).Perm ((common a b).map fun t => (t.1, t.2.2, t.2.1)) := by
  have hswap : Function.Injective fun t : κ × α × β => (t.1, t.2.2, t.2.1) := by
    intro t t' heq
    obtain ⟨hkey, hvalues⟩ := Prod.mk.inj heq
    obtain ⟨hw, hv⟩ := Prod.mk.inj hvalues
    exact Prod.ext hkey (Prod.ext hv hw)
  rw [List.perm_ext_iff_of_nodup (nodup_common hb) ((nodup_common ha).map hswap)]
  rintro ⟨key, w, v⟩
  rw [mem_common_iff ha, List.mem_map]
  constructor
  · rintro ⟨hw, hv⟩
    exact ⟨(key, v, w), (mem_common_iff hb).mpr ⟨hv, hw⟩, rfl⟩
  · rintro ⟨⟨key', v', w'⟩, hmem, heq⟩
    obtain ⟨rfl, rfl, rfl⟩ := heq
    exact ((mem_common_iff hb).mp hmem).symm

/-- A pass over one list that looks at the other one, apart for the keys of both and of one. -/
theorem flatMap_split (a : List (κ × α)) (b : List (κ × β)) (both : κ → α → β → List γ)
    (alone : κ → α → List γ) :
    (a.flatMap fun e => (valueOf b e.1).elim (alone e.1 e.2) (both e.1 e.2)).Perm
      ((common a b).flatMap (fun t => both t.1 t.2.1 t.2.2)
        ++ (only a b).flatMap fun e => alone e.1 e.2) := by
  induction a with
  | nil => exact List.Perm.nil
  | cons e rest ih =>
    rw [List.flatMap_cons]
    unfold common only at ih ⊢
    rw [List.filterMap_cons, List.filter_cons]
    cases hw : valueOf b e.1 with
    | some w =>
      simp only [Option.map_some, Option.isNone_some, Bool.false_eq_true, if_false,
        Option.elim_some]
      rw [List.flatMap_cons, List.append_assoc]
      exact ih.append_left _
    | none =>
      simp only [Option.map_none, Option.isNone_none, if_true, Option.elim_none]
      rw [List.flatMap_cons]
      refine (ih.append_left _).trans ?_
      rw [← List.append_assoc, ← List.append_assoc]
      exact List.perm_append_comm.append_right _

/-! ### Lists that start alike -/

/-- Nothing is in common with no entries. -/
theorem common_nil (a : List (κ × α)) : common a ([] : List (κ × β)) = [] :=
  List.filterMap_eq_nil_iff.mpr fun _ _ => rfl

/-- A list alone has all its entries for itself. -/
theorem only_nil (a : List (κ × α)) : only a ([] : List (κ × β)) = a :=
  List.filter_eq_self.mpr fun _ _ => rfl

/-- A key that the first list has not makes no difference to it. -/
theorem common_cons_right {a : List (κ × α)} {key : κ} (h : ∀ e ∈ a, key ≠ e.1) (w : β)
    (b : List (κ × β)) : common a ((key, w) :: b) = common a b := by
  unfold common
  refine List.filterMap_congr fun e he => ?_
  rw [valueOf_cons, if_neg (h e he)]

/-- An entry whose key the list does not have takes nothing from it. -/
theorem only_cons_right {a : List (κ × α)} {key : κ} (h : ∀ e ∈ a, key ≠ e.1) (w : β)
    (b : List (κ × β)) : only a ((key, w) :: b) = only a b := by
  unfold only
  refine List.filter_congr fun e he => ?_
  rw [valueOf_cons, if_neg (h e he)]

/-- The first key of both lists is one of the common ones. -/
theorem common_cons_cons {a : List (κ × α)} {key : κ} (h : ∀ e ∈ a, key ≠ e.1) (v : α) (w : β)
    (b : List (κ × β)) : common ((key, v) :: a) ((key, w) :: b) = (key, v, w) :: common a b := by
  rw [← common_cons_right h w b]
  unfold common
  rw [List.filterMap_cons, valueOf_cons, if_pos rfl]
  rfl

/-- An entry with a new key on both sides is on neither alone. -/
theorem only_cons_cons {a : List (κ × α)} {key : κ} (h : ∀ e ∈ a, key ≠ e.1) (v : α) (w : β)
    (b : List (κ × β)) : only ((key, v) :: a) ((key, w) :: b) = only a b := by
  rw [← only_cons_right h w b]
  unfold only
  rw [List.filter_cons, valueOf_cons, if_pos rfl]
  exact if_neg Bool.false_ne_true

end Lookup

/-! ### Keys of another kind -/

section Rename

variable {ι : Type} [DecidableEq κ] [DecidableEq ι]

variable {name : κ → ι} (h : Function.Injective name)

include h

/-- Renaming apart keeps the value of a key. -/
theorem valueOf_rename (entries : List (κ × α)) (key : κ) :
    valueOf (rename name entries) (name key) = valueOf entries key := by
  induction entries with
  | nil => rfl
  | cons e rest ih =>
    show valueOf ((name e.1, e.2) :: rename name rest) (name key) = _
    rw [valueOf_cons, valueOf_cons, ih]
    simp only [h.eq_iff]

/-- What is in common is renamed. -/
theorem common_rename (a : List (κ × α)) (b : List (κ × β)) :
    common (rename name a) (rename name b) = rename name (common a b) := by
  unfold common
  induction a with
  | nil => rfl
  | cons e rest ih =>
    show List.filterMap _ ((name e.1, e.2) :: rename name rest) = _
    rw [List.filterMap_cons, List.filterMap_cons, valueOf_rename h, ih]
    cases valueOf b e.1 <;> rfl

/-- What only one list has is renamed. -/
theorem only_rename (a : List (κ × α)) (b : List (κ × β)) :
    only (rename name a) (rename name b) = rename name (only a b) := by
  unfold only
  induction a with
  | nil => rfl
  | cons e rest ih =>
    show List.filter _ ((name e.1, e.2) :: rename name rest) = _
    rw [List.filter_cons, List.filter_cons, valueOf_rename h, ih]
    cases valueOf b e.1 <;> rfl

end Rename

/-! ### Lists in key order -/

/-- Lists that agree entry by entry agree key by key. -/
theorem keys_of_forall₂ {R : α → β → Prop} {a : List (κ × α)} {b : List (κ × β)}
    (h : List.Forall₂ (fun e e' => e.1 = e'.1 ∧ R e.2 e'.2) a b) :
    (∀ e ∈ a, ∃ w, (e.1, w) ∈ b ∧ R e.2 w) ∧ ∀ e' ∈ b, ∃ v, (e'.1, v) ∈ a := by
  induction h with
  | nil => exact ⟨fun e he => absurd he List.not_mem_nil, fun e he => absurd he List.not_mem_nil⟩
  | @cons e e' a b hhead _ ih =>
    constructor
    · intro x hx
      rcases List.mem_cons.mp hx with rfl | hx
      · exact ⟨e'.2, by rw [hhead.1]; exact List.mem_cons_self, hhead.2⟩
      · obtain ⟨w, hw, hR⟩ := ih.1 x hx
        exact ⟨w, List.mem_cons_of_mem _ hw, hR⟩
    · intro x hx
      rcases List.mem_cons.mp hx with rfl | hx
      · exact ⟨e.2, by rw [← hhead.1]; exact List.mem_cons_self⟩
      · obtain ⟨v, hv⟩ := ih.2 x hx
        exact ⟨v, List.mem_cons_of_mem _ hv⟩

/-- Two lists in key order agree entry by entry exactly when they agree key by key. -/
theorem forall₂_iff_keys [LinearOrder κ] {R : α → β → Prop} {a : List (κ × α)} {b : List (κ × β)}
    (ha : a.Pairwise (·.1 < ·.1)) (hb : b.Pairwise (·.1 < ·.1)) :
    List.Forall₂ (fun e e' => e.1 = e'.1 ∧ R e.2 e'.2) a b ↔
      (∀ e ∈ a, ∃ w, (e.1, w) ∈ b ∧ R e.2 w) ∧ ∀ e' ∈ b, ∃ v, (e'.1, v) ∈ a := by
  refine ⟨keys_of_forall₂, ?_⟩
  induction a generalizing b with
  | nil =>
    rintro ⟨-, hback⟩
    rw [List.forall₂_nil_left_iff, List.eq_nil_iff_forall_not_mem]
    intro e' he'
    obtain ⟨v, hv⟩ := hback e' he'
    exact absurd hv List.not_mem_nil
  | cons e rest ih =>
    rintro ⟨hforth, hback⟩
    obtain ⟨hfirst, hrest⟩ := List.pairwise_cons.mp ha
    cases b with
    | nil =>
      obtain ⟨w, hw, -⟩ := hforth e List.mem_cons_self
      exact absurd hw List.not_mem_nil
    | cons e' rest' =>
      obtain ⟨hfirst', hrest'⟩ := List.pairwise_cons.mp hb
      obtain ⟨w, hw, hR⟩ := hforth e List.mem_cons_self
      obtain ⟨v, hv⟩ := hback e' List.mem_cons_self
      -- Each first key is the least one of its list, and in the other list too.
      have hle : e'.1 ≤ e.1 := (List.mem_cons.mp hw).elim (fun h => (congrArg Prod.fst h).ge)
        fun h => (hfirst' _ h).le
      have hge : e.1 ≤ e'.1 := (List.mem_cons.mp hv).elim (fun h => (congrArg Prod.fst h).ge)
        fun h => (hfirst _ h).le
      have hkey : e.1 = e'.1 := le_antisymm hge hle
      have hvalue : (e.1, w) = e' := (List.mem_cons.mp hw).resolve_right fun h =>
        absurd (hfirst' _ h) (not_lt_of_ge hge)
      refine List.Forall₂.cons ⟨hkey, ?_⟩ (ih hrest hrest' ⟨fun x hx => ?_, fun x hx => ?_⟩)
      · rw [← hvalue]
        exact hR
      · obtain ⟨u, hu, hRu⟩ := hforth x (List.mem_cons_of_mem _ hx)
        refine ⟨u, (List.mem_cons.mp hu).resolve_left fun h => ?_, hRu⟩
        exact absurd (hfirst x hx) (not_lt_of_ge ((congrArg Prod.fst h).le.trans hkey.ge))
      · obtain ⟨u, hu⟩ := hback x (List.mem_cons_of_mem _ hx)
        refine ⟨u, (List.mem_cons.mp hu).resolve_left fun h => ?_⟩
        exact absurd (hfirst' x hx) (not_lt_of_ge ((congrArg Prod.fst h).le.trans hkey.le))

end Entries
