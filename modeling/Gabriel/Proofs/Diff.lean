import Gabriel.Core.Diff
import Gabriel.Lib.Entries

/-!
# `Gabriel.Proofs.Diff`: the differences of two documents

`diffJson` walks two documents at once. An object makes a pass over each side, and an array one over
the first side and one over what the second has more. So its induction is over two documents: two
objects, two arrays, or two values of which at most one is of each kind (`walk_induct`).

The passes of an object find the common keys twice, in the order of each side. The proofs put them
into one order: common keys, removed, added. With that the other direction makes the same passes
with the sides exchanged (`Change.flip`). The theorems:

* `walk_object_perm`: the changes of two objects, in one order.
* `pass_cons`, `pass_nil_left`, `pass_nil_right`: the changes of two arrays, item by item.
* `walk_eq_nil_iff`: nothing is reported exactly for equal documents.
* `walk_flip_perm`: the two directions report the same changes, turned round.
* `diffJson_sound`: the diff of any two documents is sound, complete and antisymmetric.
-/

set_option autoImplicit false

namespace Gabriel.Core.Diff

open Text Entries

variable {renderJson : Json → Text}

/-! ### Two values -/

/-- Both values are objects, or both are arrays. -/
def sameKind : Json → Json → Bool
  | .object _, .object _ => true
  | .array _, .array _ => true
  | _, _ => false

/-- To be of one kind is symmetric. -/
theorem sameKind_comm (a b : Json) : sameKind a b = sameKind b a := by
  cases a <;> cases b <;> rfl

/-- Induction over two documents at once. -/
theorem walk_induct {P : Json → Json → Prop}
    (apart : ∀ {a b : Json}, a.Ordered → b.Ordered → sameKind a b = false → P a b)
    (array : ∀ {x y : List Json}, (∀ v ∈ x, ∀ w ∈ y, P v w) → P (.array x) (.array y))
    (object : ∀ {x y : List (Text × Json)}, x.Pairwise (·.1 < ·.1) → y.Pairwise (·.1 < ·.1) →
      (∀ e ∈ x, ∀ e' ∈ y, P e.2 e'.2) → P (.object x) (.object y))
    {a b : Json} (ha : a.Ordered) (hb : b.Ordered) : P a b := by
  induction ha generalizing b with
  | null => exact apart .null hb rfl
  | bool value => exact apart (.bool value) hb rfl
  | number value => exact apart (.number value) hb rfl
  | string value => exact apart (.string value) hb rfl
  | @array items hitems ih =>
    cases b with
    | array others =>
      cases hb with
      | array hothers => exact array fun v hv w hw => ih v hv (hothers w hw)
    | _ => exact apart (.array hitems) hb rfl
  | @object fields hkeys hfields ih =>
    cases b with
    | object others =>
      cases hb with
      | object hkeys' hothers =>
        exact object hkeys hkeys' fun e he e' he' => ih e he (hothers e' he')
    | _ => exact apart (.object hkeys hfields) hb rfl

/-- Two values of which at most one is an object or an array are compared as they are. -/
theorem walk_apart {a b : Json} (h : sameKind a b = false) (path : Text) :
    walk renderJson path a b = if a.same b then []
      else [Change.changed renderJson (if path = [] then ['$'] else path) a b] := by
  refine walk.eq_3 renderJson path a b ?_ ?_
  · rintro x y rfl rfl
    exact absurd h.symm Bool.false_ne_true
  · rintro x y rfl rfl
    exact absurd h.symm Bool.false_ne_true

/-! ### Objects -/

/-- The fields of one side, each against the one with its key. -/
theorem walkFields_eq (path : Text) (b a : List (Text × Json)) :
    walkFields renderJson path b a
      = a.flatMap fun e => (valueOf b e.1).elim [Change.removed renderJson (join path e.1) e.2]
        (walk renderJson (join path e.1) e.2) := by
  induction a with
  | nil => rfl
  | cons e rest ih =>
    have hget : (Json.object b).get? e.1 = valueOf b e.1 := rfl
    rw [walkFields, ih, List.flatMap_cons, hget]
    cases valueOf b e.1 <;> rfl

/-- The fields that are new. -/
theorem filter_new (a b : List (Text × Json)) :
    (b.filter fun e => !a.any (·.1 = e.1)) = only b a := by
  refine List.filter_congr fun e _ => ?_
  rw [Bool.eq_iff_iff, Bool.not_eq_true', List.any_eq_false, Option.isNone_iff_eq_none,
    valueOf_eq_none_iff]
  simp only [decide_eq_true_eq, ne_eq]

/-- The changes of two objects: those below the common keys, then what is gone and what is new. -/
theorem walk_object_perm (path : Text) (a b : List (Text × Json)) :
    (walk renderJson path (.object a) (.object b)).Perm
      ((common a b).flatMap (fun t => walk renderJson (join path t.1) t.2.1 t.2.2)
        ++ ((only a b).map (fun e => Change.removed renderJson (join path e.1) e.2)
          ++ (only b a).map fun e => Change.added renderJson (join path e.1) e.2)) := by
  rw [walk, filter_new, walkFields_eq, ← List.append_assoc]
  refine List.Perm.append_right _ ?_
  refine (flatMap_split a b (fun key v w => walk renderJson (join path key) v w)
    fun key v => [Change.removed renderJson (join path key) v]).trans ?_
  rw [List.map_eq_flatMap]

/-! ### Arrays -/

section Arrays

variable (renderJson) in
/-- The changes of two arrays from an index on. -/
def pass (path : Text) (index : Nat) (a b : List Json) : List Change :=
  walkItems renderJson path index a b
    ++ ((b.zipIdx index).drop a.length).map fun e =>
      Change.added renderJson (itemPath path e.2) e.1

/-- Two lists are walked pass by pass. -/
theorem walk_array (path : Text) (a b : List Json) :
    walk renderJson path (.array a) (.array b) = pass renderJson path 0 a b := walk.eq_2 ..

/-- Two first items are walked, and then the others. -/
theorem pass_cons (path : Text) (index : Nat) (x y : Json) (a b : List Json) :
    pass renderJson path index (x :: a) (y :: b)
      = walk renderJson (itemPath path index) x y ++ pass renderJson path (index + 1) a b := by
  unfold pass
  rw [walkItems, List.append_assoc]
  rfl

/-- What only the second list has was added. -/
theorem pass_nil_left (path : Text) (index : Nat) (b : List Json) :
    pass renderJson path index [] b
      = (b.zipIdx index).map fun e => Change.added renderJson (itemPath path e.2) e.1 := by
  unfold pass
  rw [walkItems]
  rfl

/-- What only the first list has was removed. -/
theorem pass_nil_right (path : Text) (index : Nat) (a : List Json) :
    pass renderJson path index a []
      = (a.zipIdx index).map fun e => Change.removed renderJson (itemPath path e.2) e.1 := by
  induction a generalizing index with
  | nil => rw [pass_nil_left]; rfl
  | cons x a ih =>
    have hrest := ih (index + 1)
    unfold pass at hrest ⊢
    rw [List.zipIdx_nil, List.drop_nil, List.map_nil, List.append_nil] at hrest ⊢
    rw [walkItems, hrest, List.zipIdx_cons, List.map_cons]

end Arrays

/-! ### Equal documents -/

/-- A pass reports nothing exactly when the items are the same. -/
theorem pass_eq_nil_iff {a b : List Json}
    (ih : ∀ v ∈ a, ∀ w ∈ b, ∀ path, walk renderJson path v w = [] ↔ v.same w = true)
    (path : Text) (index : Nat) :
    pass renderJson path index a b = [] ↔ Json.sameItems a b = true := by
  induction a generalizing b index with
  | nil =>
    rw [pass_nil_left, List.map_eq_nil_iff, List.zipIdx_eq_nil_iff]
    cases b with
    | nil => exact iff_of_true rfl rfl
    | cons y b => exact iff_of_false (List.cons_ne_nil _ _) Bool.false_ne_true
  | cons x a iha =>
    cases b with
    | nil =>
      rw [pass_nil_right, List.map_eq_nil_iff, List.zipIdx_eq_nil_iff]
      exact iff_of_false (List.cons_ne_nil _ _) Bool.false_ne_true
    | cons y b =>
      rw [pass_cons, List.append_eq_nil_iff, Json.sameItems, Bool.and_eq_true_iff,
        ih x List.mem_cons_self y List.mem_cons_self,
        iha fun v hv w hw => ih v (List.mem_cons_of_mem _ hv) w (List.mem_cons_of_mem _ hw)]

/-- **Nothing is reported exactly for equal documents.** -/
theorem walk_eq_nil_iff {a b : Json} (ha : a.Ordered) (hb : b.Ordered) (path : Text) :
    walk renderJson path a b = [] ↔ a.same b = true := by
  revert path
  -- The three cases of the walk: values that are compared whole, arrays and objects.
  refine walk_induct (P := fun a b => ∀ path, walk renderJson path a b = [] ↔ a.same b = true)
    ?_ ?_ ?_ ha hb
  · intro a b _ _ hkind path
    rw [walk_apart hkind]
    by_cases hsame : a.same b = true
    · rw [if_pos hsame]
      exact iff_of_true rfl hsame
    · rw [if_neg hsame]
      exact iff_of_false (List.cons_ne_nil _ _) hsame
  · intro x y ih path
    rw [walk_array, pass_eq_nil_iff ih]
    rfl
  · intro x y hx hy ih path
    have hx' := distinctKeys_of_sorted hx
    have hy' := distinctKeys_of_sorted hy
    have hperm := @walk_object_perm renderJson path x y
    -- The order of the changes does not matter for there being none.
    have hnil : walk renderJson path (.object x) (.object y) = [] ↔ _ :=
      ⟨fun h => (h ▸ hperm).nil_eq.symm, fun h => (h ▸ hperm).eq_nil⟩
    rw [hnil, List.append_eq_nil_iff, List.append_eq_nil_iff, List.flatMap_eq_nil_iff,
      List.map_eq_nil_iff, List.map_eq_nil_iff, only_eq_nil_iff hy', only_eq_nil_iff hx', Json.same,
      Json.sameFields_iff, forall₂_iff_keys (R := fun v w => v.same w = true) hx hy]
    -- The common fields agree exactly when no change is reported for them.
    constructor
    · rintro ⟨hcommon, honly, hnew⟩
      refine ⟨fun e he => ?_, hnew⟩
      obtain ⟨w, hw⟩ := honly e he
      have hwalk := hcommon (e.1, e.2, w) ((mem_common_iff hy').mpr ⟨he, hw⟩)
      exact ⟨w, hw, (ih e he _ hw _).mp hwalk⟩
    · rintro ⟨hforth, hnew⟩
      refine ⟨?_, fun e he => (hforth e he).imp fun w hw => hw.1, hnew⟩
      -- A field with the same key is unique, so its value is the one that was compared.
      rintro ⟨key, v, w⟩ hmem
      obtain ⟨hv, hw⟩ := (mem_common_iff hy').mp hmem
      obtain ⟨w', hw', hsame⟩ := hforth _ hv
      obtain rfl : w' = w := Option.some.inj
        (((valueOf_eq_some_iff hy').mpr hw').symm.trans ((valueOf_eq_some_iff hy').mpr hw))
      exact (ih _ hv _ hw _).mpr hsame

/-! ### The other direction -/

/-- The same change from the other side. -/
def ChangeKind.flip : ChangeKind → ChangeKind
  | .added after => .removed after
  | .removed before => .added before
  | .changed before after => .changed after before

/-- The same change from the other side, at the same path. -/
def Change.flip (change : Change) : Change := ⟨change.path, change.kind.flip⟩

/-- What was added one way was removed the other way. -/
theorem flip_comp_added {α : Type} (path : α → Text) (value : α → Json) :
    Change.flip ∘ (fun e => Change.added renderJson (path e) (value e))
      = fun e => Change.removed renderJson (path e) (value e) := rfl

/-- And the other way round. -/
theorem flip_comp_removed {α : Type} (path : α → Text) (value : α → Json) :
    Change.flip ∘ (fun e => Change.removed renderJson (path e) (value e))
      = fun e => Change.added renderJson (path e) (value e) := rfl

/-- A pass the other way reports the same changes, turned round. -/
theorem pass_flip_perm {a b : List Json}
    (ih : ∀ v ∈ a, ∀ w ∈ b, ∀ path,
      (walk renderJson path w v).Perm ((walk renderJson path v w).map Change.flip))
    (path : Text) (index : Nat) :
    (pass renderJson path index b a).Perm ((pass renderJson path index a b).map Change.flip) := by
  induction a generalizing b index with
  | nil =>
    rw [pass_nil_left, pass_nil_right, List.map_map, flip_comp_added]
  | cons x a iha =>
    cases b with
    | nil => rw [pass_nil_left, pass_nil_right, List.map_map, flip_comp_removed]
    | cons y b =>
      rw [pass_cons, pass_cons, List.map_append]
      exact (ih x List.mem_cons_self y List.mem_cons_self _).append
        (iha (fun v hv w hw => ih v (List.mem_cons_of_mem _ hv) w (List.mem_cons_of_mem _ hw)) _)

/-- **The two directions report the same changes, turned round.** -/
theorem walk_flip_perm {a b : Json} (ha : a.Ordered) (hb : b.Ordered) (path : Text) :
    (walk renderJson path b a).Perm ((walk renderJson path a b).map Change.flip) := by
  revert path
  -- The three cases of the walk again.
  refine walk_induct (P := fun a b => ∀ path,
    (walk renderJson path b a).Perm ((walk renderJson path a b).map Change.flip)) ?_ ?_ ?_ ha hb
  · intro a b ha _ hkind path
    rw [walk_apart hkind, walk_apart (sameKind_comm a b ▸ hkind), ← Json.same_comm ha b]
    by_cases hsame : a.same b = true
    · rw [if_pos hsame, if_pos hsame]
      exact List.Perm.refl _
    · rw [if_neg hsame, if_neg hsame]
      exact List.Perm.refl _
  · intro x y ih path
    rw [walk_array, walk_array]
    exact pass_flip_perm ih path 0
  · intro x y hx hy ih path
    have hx' := distinctKeys_of_sorted hx
    have hy' := distinctKeys_of_sorted hy
    -- Both directions list the common fields and those of one side, in another order.
    refine (walk_object_perm path y x).trans
      (List.Perm.trans ?_ ((walk_object_perm path x y).map Change.flip).symm)
    rw [List.map_append, List.map_append, List.map_map, List.map_map, flip_comp_added,
      flip_comp_removed, List.map_flatMap]
    -- Added and removed change places, and the common fields are swapped.
    refine List.Perm.append ?_ List.perm_append_comm
    refine ((common_swap hx' hy').flatMap_right _).trans ?_
    rw [List.flatMap_map]
    refine List.Perm.flatMap_left _ ?_
    rintro ⟨key, v, w⟩ hmem
    obtain ⟨hv, hw⟩ := (mem_common_iff hy').mp hmem
    exact ih _ hv _ hw _

/-- **The diff is sound, complete and antisymmetric.** Nothing is reported exactly for equal
documents, and the two directions report the same changes with the sides exchanged. -/
theorem diffJson_sound (a b : Document) :
    (diffJson renderJson a.value b.value = [] ↔ a.value.same b.value = true)
      ∧ (diffJson renderJson b.value a.value).Perm
        ((diffJson renderJson a.value b.value).map Change.flip) :=
  ⟨walk_eq_nil_iff a.ordered b.ordered [], walk_flip_perm a.ordered b.ordered []⟩

end Gabriel.Core.Diff
