import Gabriel.Proofs.Diff
import Gabriel.Proofs.PathText

/-!
# `Gabriel.Proofs.DiffPaths`: can a reported path be used?

`DiffersAt` says at which places two documents differ, and how. An object and an array are read as
lists of what is below them (`children`), with the key or the index as the step, so that both are
compared alike, and the induction over two documents is one (`container_induct`).

A change is usable when its path selects, on the sides where the value exists, a value with the text
that is shown. A plain place is read back from its path (`Proofs/PathText`). For a place that is not
plain there are documents that differ at it alone: `nest` puts a value there and `null` beside it,
so the path of this place leads elsewhere or nowhere. The theorems:

* `walk_container_perm`: two containers are compared step by step: what is below the common steps,
  then what is gone and what is new.
* `walk_reports`: the diff reports one change for each place where the documents differ.
* `usable_of_plain`: the paths can be used where the places are plain.
* `eq_of_walk_nest`: what is nested at a place is found there only.
* `paths_usable_iff`: all paths of a diff can be used when its places are plain, and no other place
  can be used in all documents that differ there.
-/

set_option autoImplicit false

namespace Gabriel.Core.Diff

open Text Entries Jsonpath

variable {renderJson : Json → Text}

/-! ### What is below a value -/

/-- The items of an array from an index on. -/
def itemsFrom (index : Nat) (items : List Json) : List (Segment × Json) :=
  (items.zipIdx index).map fun e => (.index e.2, e.1)

/-- What is one step below a value. -/
def children : Json → List (Segment × Json)
  | .object fields => rename .key fields
  | .array items => itemsFrom 0 items
  | _ => []

/-- An item of a list has its index for a step. -/
theorem mem_itemsFrom {items : List Json} {index : Nat} {e : Segment × Json}
    (h : e ∈ itemsFrom index items) : ∃ n, index ≤ n ∧ e.1 = .index n ∧ e.2 ∈ items := by
  obtain ⟨⟨value, n⟩, hmem, rfl⟩ := List.mem_map.mp h
  obtain ⟨hle, -, hvalue⟩ := List.mem_zipIdx hmem
  exact ⟨n, hle, rfl, hvalue ▸ List.getElem_mem _⟩

/-- The first item is not among the others. -/
theorem index_ne_of_mem {items : List Json} {index : Nat} :
    ∀ e ∈ itemsFrom (index + 1) items, Segment.index index ≠ e.1 := by
  intro e he heq
  obtain ⟨n, hle, hn, -⟩ := mem_itemsFrom he
  have hindex := Segment.index.inj (heq.trans hn)
  omega

/-- No two items have the same step. -/
theorem distinctKeys_itemsFrom (items : List Json) (index : Nat) :
    DistinctKeys (itemsFrom index items) := by
  induction items generalizing index with
  | nil => exact List.nodup_nil
  | cons value rest ih =>
    show (Segment.index index :: (itemsFrom (index + 1) rest).map (·.1)).Nodup
    rw [List.nodup_cons]
    refine ⟨fun hmem => ?_, ih (index + 1)⟩
    obtain ⟨e, he, heq⟩ := List.mem_map.mp hmem
    exact index_ne_of_mem e he heq.symm

/-- Different keys are different steps. -/
theorem key_injective : Function.Injective Segment.key := fun _ _ h => Segment.key.inj h

/-- The item behind an index. -/
theorem valueOf_itemsFrom (items : List Json) (index n : Nat) :
    valueOf (itemsFrom index items) (.index (index + n)) = items[n]? := by
  induction items generalizing index n with
  | nil => rfl
  | cons value rest ih =>
    show valueOf ((Segment.index index, value) :: itemsFrom (index + 1) rest) _ = _
    rw [valueOf_cons]
    cases n with
    | zero => exact if_pos rfl
    | succ n =>
      rw [if_neg fun heq => absurd (Segment.index.inj heq) (by omega), List.getElem?_cons_succ,
        ← ih (index + 1) n, Nat.add_right_comm, Nat.add_assoc]

/-- A step leads to what is below. -/
theorem walk_cons (json : Json) (segment : Segment) (rest : List Segment) :
    Jsonpath.walk json (segment :: rest)
      = (valueOf (children json) segment).bind (Jsonpath.walk · rest) := by
  -- A key leads into an object and an index into an array; the other two pairs find nothing on both
  -- sides.
  cases segment with
  | key key =>
    rw [Jsonpath.walk]
    congr 1
    cases json with
    | object fields => exact (valueOf_rename key_injective fields key).symm
    | array items =>
      -- An entry of an array has an index, never a key.
      refine (valueOf_eq_none_iff.mpr fun e he heq => ?_).symm
      obtain ⟨n, -, hn, -⟩ := mem_itemsFrom he
      exact Segment.noConfusion (hn.symm.trans heq)
    | _ => rfl
  | index index =>
    rw [Jsonpath.walk]
    congr 1
    cases json with
    | object fields =>
      -- And an entry of an object has a key.
      refine (valueOf_eq_none_iff.mpr fun e he heq => ?_).symm
      obtain ⟨field, -, rfl⟩ := List.mem_map.mp he
      exact Segment.noConfusion heq
    | array items =>
      have hvalue := valueOf_itemsFrom items 0 index
      rw [Nat.zero_add] at hvalue
      exact hvalue.symm
    | _ => rfl

/-! ### Two containers -/

/-- A pass over two lists reports what is in both, what was removed and what was added, in some
order. -/
theorem pass_perm (path : Text) (index : Nat) (a b : List Json) :
    (pass renderJson path index a b).Perm
      ((common (itemsFrom index a) (itemsFrom index b)).flatMap
          (fun t => walk renderJson (extend path t.1) t.2.1 t.2.2)
        ++ ((only (itemsFrom index a) (itemsFrom index b)).map
            (fun e => Change.removed renderJson (extend path e.1) e.2)
          ++ (only (itemsFrom index b) (itemsFrom index a)).map fun e =>
            Change.added renderJson (extend path e.1) e.2)) := by
  -- Both lists are walked together, so the induction is on the first one with the second one free.
  induction a generalizing b index with
  | nil =>
    have hnil : itemsFrom index [] = [] := rfl
    -- What is left of the second list was added.
    have hcommon : common ([] : List (Segment × Json)) (itemsFrom index b) = [] := rfl
    have honly : only ([] : List (Segment × Json)) (itemsFrom index b) = [] := rfl
    rw [pass_nil_left, hnil, only_nil, hcommon, honly]
    show List.Perm _ (List.map _ ((b.zipIdx index).map _))
    rw [List.map_map]
    exact List.Perm.refl _
  | cons x a ih =>
    cases b with
    | nil =>
      -- What is left of the first list was removed.
      have hnil : itemsFrom index [] = [] := rfl
      have honly : only ([] : List (Segment × Json)) (itemsFrom index (x :: a)) = [] := rfl
      rw [pass_nil_right, hnil, only_nil, common_nil, honly, List.flatMap_nil, List.nil_append,
        List.map_nil, List.append_nil]
      show List.Perm _ (List.map _ (((x :: a).zipIdx index).map _))
      rw [List.map_map]
      exact List.Perm.refl _
    | cons y b =>
      have hcons : ∀ (z : Json) (rest : List Json), itemsFrom index (z :: rest)
          = (Segment.index index, z) :: itemsFrom (index + 1) rest := fun _ _ => rfl
      -- The heads have one index and no other entry has it, so that they are the first common ones.
      rw [pass_cons, hcons, hcons, common_cons_cons index_ne_of_mem, only_cons_cons index_ne_of_mem,
        only_cons_cons index_ne_of_mem, List.flatMap_cons, List.append_assoc]
      exact (ih (index + 1) b).append_left _

/-- **Two containers are compared step by step**: what is below the common steps, then what is gone
and what is new. -/
theorem walk_container_perm {a b : Json} (h : sameKind a b = true) (path : Text) :
    (walk renderJson path a b).Perm
      ((common (children a) (children b)).flatMap
          (fun t => walk renderJson (extend path t.1) t.2.1 t.2.2)
        ++ ((only (children a) (children b)).map
            (fun e => Change.removed renderJson (extend path e.1) e.2)
          ++ (only (children b) (children a)).map fun e =>
            Change.added renderJson (extend path e.1) e.2)) := by
  cases a with
  | object x =>
    cases b with
    | object y =>
      -- The pass over objects asks for keys; its entries are those of the children, renamed to
      -- steps.
      refine (walk_object_perm path x y).trans (List.Perm.of_eq ?_)
      show _ = (common (rename Segment.key x) (rename Segment.key y)).flatMap _
        ++ ((only (rename Segment.key x) (rename Segment.key y)).map _
          ++ (only (rename Segment.key y) (rename Segment.key x)).map _)
      rw [common_rename key_injective, only_rename key_injective, only_rename key_injective]
      unfold rename
      rw [List.flatMap_map, List.map_map, List.map_map]
      rfl
    | _ => exact absurd h Bool.false_ne_true
  | array x =>
    cases b with
    | array y =>
      rw [walk_array]
      exact pass_perm path 0 x y
    | _ => exact absurd h Bool.false_ne_true
  | _ => exact absurd h Bool.false_ne_true

/-- Induction over two documents at once, objects and arrays alike. -/
theorem container_induct {P : Json → Json → Prop}
    (apart : ∀ {a b : Json}, a.Ordered → b.Ordered → sameKind a b = false → P a b)
    (container : ∀ {a b : Json}, sameKind a b = true → DistinctKeys (children a) →
      DistinctKeys (children b) → (∀ e ∈ children a, ∀ e' ∈ children b, P e.2 e'.2) → P a b)
    {a b : Json} (ha : a.Ordered) (hb : b.Ordered) : P a b := by
  refine walk_induct apart (fun {x y} ih => ?_) (fun {x y} hx hy ih => ?_) ha hb
  · refine container rfl (distinctKeys_itemsFrom x 0) (distinctKeys_itemsFrom y 0) ?_
    intro e he e' he'
    obtain ⟨-, -, -, hmem⟩ := mem_itemsFrom he
    obtain ⟨-, -, -, hmem'⟩ := mem_itemsFrom he'
    exact ih _ hmem _ hmem'
  · refine container rfl (distinctKeys_rename key_injective (distinctKeys_of_sorted hx))
      (distinctKeys_rename key_injective (distinctKeys_of_sorted hy)) ?_
    intro e he e' he'
    obtain ⟨field, hmem, rfl⟩ := List.mem_map.mp he
    obtain ⟨field', hmem', rfl⟩ := List.mem_map.mp he'
    exact ih _ hmem _ hmem'

/-! ### Where two documents differ -/

/-- How a place differs, with its values. -/
inductive Edit where
  | added (after : Json)
  | removed (before : Json)
  | changed (before after : Json)

/-- The value before. -/
def Edit.before : Edit → Option Json
  | .added _ => none
  | .removed before => some before
  | .changed before _ => some before

/-- The value after. -/
def Edit.after : Edit → Option Json
  | .added after => some after
  | .removed _ => none
  | .changed _ after => some after

/-- Two documents differ at a place: it leads to two values that cannot be compared any further, or
its last step is there on one side only. -/
inductive DiffersAt : Json → Json → List Segment → Edit → Prop where
  | changed {a b : Json} (apart : sameKind a b = false) (differ : a.same b = false) :
      DiffersAt a b [] (.changed a b)
  | removed {a b v : Json} {segment : Segment} (kind : sameKind a b = true)
      (before : valueOf (children a) segment = some v)
      (after : valueOf (children b) segment = none) : DiffersAt a b [segment] (.removed v)
  | added {a b w : Json} {segment : Segment} (kind : sameKind a b = true)
      (before : valueOf (children a) segment = none)
      (after : valueOf (children b) segment = some w) : DiffersAt a b [segment] (.added w)
  | deeper {a b v w : Json} {segment : Segment} {route : List Segment} {edit : Edit}
      (kind : sameKind a b = true) (before : valueOf (children a) segment = some v)
      (after : valueOf (children b) segment = some w) (differ : DiffersAt v w route edit) :
      DiffersAt a b (segment :: route) edit

/-- The place leads to the values. -/
theorem DiffersAt.walk_eq {a b : Json} {route : List Segment} {edit : Edit}
    (h : DiffersAt a b route edit) :
    Jsonpath.walk a route = edit.before ∧ Jsonpath.walk b route = edit.after := by
  induction h with
  | changed apart differ => exact ⟨rfl, rfl⟩
  | removed kind before after =>
    rw [walk_cons, walk_cons, before, after]
    exact ⟨rfl, rfl⟩
  | added kind before after =>
    rw [walk_cons, walk_cons, before, after]
    exact ⟨rfl, rfl⟩
  | deeper kind before after differ ih =>
    rw [walk_cons, walk_cons, before, after]
    exact ih

/-- What is reported of a place. -/
def reported (renderJson : Json → Text) (route : List Segment) : Edit → Change
  | .added after => Change.added renderJson (pathText route) after
  | .removed before => Change.removed renderJson (pathText route) before
  | .changed before after =>
    Change.changed renderJson (if pathText route = [] then ['$'] else pathText route) before after

/-- The places where two documents differ, and how. -/
def Places (a b : Json) (entries : List (List Segment × Edit)) : Prop :=
  (entries.map (·.1)).Nodup ∧ ∀ route edit, (route, edit) ∈ entries ↔ DiffersAt a b route edit

section Containers

variable {a b : List (Segment × Json)}
  {entries : Segment × Json × Json → List (List Segment × Edit)}

/-- The places of two containers, from the places below each common step. -/
def containerPlaces (a b : List (Segment × Json))
    (entries : Segment × Json × Json → List (List Segment × Edit)) : List (List Segment × Edit) :=
  (common a b).flatMap (fun t => (entries t).map fun e => (t.1 :: e.1, e.2))
    ++ ((only a b).map (fun e => ([e.1], Edit.removed e.2))
      ++ (only b a).map fun e => ([e.1], Edit.added e.2))

/-- The places of two containers, by their first step. -/
theorem mem_containerPlaces {route : List Segment} {edit : Edit} :
    (route, edit) ∈ containerPlaces a b entries ↔
      (∃ t ∈ common a b, ∃ rest, (rest, edit) ∈ entries t ∧ route = t.1 :: rest)
      ∨ (∃ e ∈ only a b, route = [e.1] ∧ edit = .removed e.2)
      ∨ ∃ e ∈ only b a, route = [e.1] ∧ edit = .added e.2 := by
  unfold containerPlaces
  rw [List.mem_append, List.mem_append, List.mem_flatMap, List.mem_map, List.mem_map]
  refine or_congr (exists_congr fun t => and_congr_right fun _ => ?_) (or_congr ?_ ?_)
  · rw [List.mem_map]
    constructor
    · rintro ⟨⟨rest, edit'⟩, hmem, heq⟩
      obtain ⟨rfl, rfl⟩ := Prod.mk.inj heq
      exact ⟨rest, hmem, rfl⟩
    · rintro ⟨rest, hmem, rfl⟩
      exact ⟨(rest, edit), hmem, rfl⟩
  · refine exists_congr fun e => and_congr_right fun _ => ?_
    rw [Prod.mk.injEq, eq_comm, eq_comm (a := Edit.removed e.2)]
  · refine exists_congr fun e => and_congr_right fun _ => ?_
    rw [Prod.mk.injEq, eq_comm, eq_comm (a := Edit.added e.2)]

/-- No place of two containers is named twice. -/
theorem nodup_containerPlaces (ha : DistinctKeys a) (hb : DistinctKeys b)
    (h : ∀ t ∈ common a b, ((entries t).map (·.1)).Nodup) :
    ((containerPlaces a b entries).map (·.1)).Nodup := by
  have hsingle : Function.Injective fun segment : Segment => [segment] :=
    fun _ _ heq => List.singleton_inj.mp heq
  have honly : ∀ {x y : List (Segment × Json)}, DistinctKeys x →
      ((only x y).map fun e => [e.1]).Nodup := by
    intro x y hx
    have hkeys : ((only x y).map (·.1)).Nodup := (List.filter_sublist.map _).nodup hx
    have hmap : ((only x y).map fun e => [e.1]) = ((only x y).map (·.1)).map ([·]) := by
      rw [List.map_map]
      rfl
    exact hmap ▸ hkeys.map hsingle
  have hcommon : ∀ t ∈ common a b, valueOf a t.1 = some t.2.1 ∧ valueOf b t.1 = some t.2.2 := by
    intro t ht
    obtain ⟨hv, hw⟩ := (mem_common_iff hb).mp ht
    exact ⟨(valueOf_eq_some_iff ha).mpr hv, (valueOf_eq_some_iff hb).mpr hw⟩
  -- A place below a common step begins with that step.
  have hhead : ∀ (t : Segment × Json × Json) (route : List Segment),
      route ∈ ((entries t).map fun e => (t.1 :: e.1, e.2)).map (·.1) → route.head? = some t.1 := by
    intro t route hmem
    obtain ⟨place, hplace, rfl⟩ := List.mem_map.mp hmem
    obtain ⟨e, -, rfl⟩ := List.mem_map.mp hplace
    rfl
  unfold containerPlaces
  rw [List.map_append, List.map_append, List.map_map, List.map_map, List.map_flatMap]
  refine List.nodup_append.mpr ⟨List.nodup_flatMap.mpr ⟨fun t ht => ?_, ?_⟩,
    List.nodup_append.mpr ⟨honly ha, honly hb, ?_⟩, ?_⟩
  · have hmap : ((entries t).map fun e => (t.1 :: e.1, e.2)).map (·.1)
        = ((entries t).map (·.1)).map (t.1 :: ·) := by
      rw [List.map_map, List.map_map]
      rfl
    rw [hmap]
    exact (h t ht).map fun _ _ heq => (List.cons.inj heq).2
  · refine (List.pairwise_map.mp (distinctKeys_common ha)).imp fun {t t'} hne => ?_
    intro route hmem hmem'
    exact hne (Option.some.inj ((hhead t route hmem).symm.trans (hhead t' route hmem')))
  · intro route hmem route' hmem' heq
    obtain ⟨e, he, rfl⟩ := List.mem_map.mp hmem
    obtain ⟨e', he', rfl⟩ := List.mem_map.mp hmem'
    have hkey : e.1 = e'.1 := List.singleton_inj.mp heq
    have hsome := (valueOf_eq_some_iff hb).mpr (mem_only_iff.mp he').1
    rw [← hkey, (mem_only_iff.mp he).2] at hsome
    exact absurd hsome.symm (Option.some_ne_none _)
  · intro route hmem route' hmem' heq
    obtain ⟨t, ht, hbelow⟩ := List.mem_flatMap.mp hmem
    have hfirst := hhead t route hbelow
    rw [heq] at hfirst
    obtain ⟨hv, hw⟩ := hcommon t ht
    rcases List.mem_append.mp hmem' with hmem' | hmem'
    · obtain ⟨e, he, rfl⟩ := List.mem_map.mp hmem'
      rw [← Option.some.inj hfirst, (mem_only_iff.mp he).2] at hw
      exact absurd hw.symm (Option.some_ne_none _)
    · obtain ⟨e, he, rfl⟩ := List.mem_map.mp hmem'
      rw [← Option.some.inj hfirst, (mem_only_iff.mp he).2] at hv
      exact absurd hv.symm (Option.some_ne_none _)

end Containers

/-- The places of two containers of one kind: those of what both have, and what only one has. -/
theorem places_container {a b : Json} (hkind : sameKind a b = true)
    (ha : DistinctKeys (children a)) (hb : DistinctKeys (children b))
    {entries : Segment × Json × Json → List (List Segment × Edit)}
    (h : ∀ t ∈ common (children a) (children b), Places t.2.1 t.2.2 (entries t)) :
    Places a b (containerPlaces (children a) (children b) entries) := by
  refine ⟨nodup_containerPlaces ha hb fun t ht => (h t ht).1, fun route edit => ?_⟩
  rw [mem_containerPlaces]
  -- Each of the three lists holds one kind of difference, and a difference between containers is of
  -- these three kinds.
  constructor
  · rintro (⟨t, ht, rest, hrest, rfl⟩ | ⟨e, he, rfl, rfl⟩ | ⟨e, he, rfl, rfl⟩)
    · obtain ⟨hv, hw⟩ := (mem_common_iff hb).mp ht
      exact .deeper hkind ((valueOf_eq_some_iff ha).mpr hv) ((valueOf_eq_some_iff hb).mpr hw)
        (((h t ht).2 rest edit).mp hrest)
    · obtain ⟨hmem, hnone⟩ := mem_only_iff.mp he
      exact .removed hkind ((valueOf_eq_some_iff ha).mpr hmem) hnone
    · obtain ⟨hmem, hnone⟩ := mem_only_iff.mp he
      exact .added hkind hnone ((valueOf_eq_some_iff hb).mpr hmem)
  · intro hdiffers
    cases hdiffers with
    | changed apart differ => exact absurd (apart.symm.trans hkind) Bool.false_ne_true
    | @removed _ _ v segment _ before after =>
      exact .inr (.inl ⟨(segment, v), mem_only_iff.mpr
        ⟨(valueOf_eq_some_iff ha).mp before, after⟩, rfl, rfl⟩)
    | @added _ _ w segment _ before after =>
      exact .inr (.inr ⟨(segment, w), mem_only_iff.mpr
        ⟨(valueOf_eq_some_iff hb).mp after, before⟩, rfl, rfl⟩)
    | @deeper _ _ v w segment rest _ _ before after differ =>
      have ht : (segment, v, w) ∈ common (children a) (children b) := (mem_common_iff hb).mpr
        ⟨(valueOf_eq_some_iff ha).mp before, (valueOf_eq_some_iff hb).mp after⟩
      exact .inl ⟨_, ht, rest, ((h _ ht).2 rest edit).mpr differ, rfl⟩

/-- The two sides of a container are reported at the places of its steps. -/
theorem reported_concat (base : List Segment) (segment : Segment) (v : Json) :
    reported renderJson (base ++ [segment]) (.removed v)
        = Change.removed renderJson (extend (pathText base) segment) v
      ∧ reported renderJson (base ++ [segment]) (.added v)
        = Change.added renderJson (extend (pathText base) segment) v := by
  unfold reported
  rw [pathText_concat]
  exact ⟨rfl, rfl⟩

/-- **The diff reports one change for each place where two documents differ.** -/
theorem walk_reports {a b : Json} (ha : a.Ordered) (hb : b.Ordered) :
    ∃ entries, Places a b entries ∧ ∀ base,
      (walk renderJson (pathText base) a b).Perm
        (entries.map fun e => reported renderJson (base ++ e.1) e.2) := by
  refine container_induct (P := fun a b => ∃ entries, Places a b entries ∧ ∀ base,
      (walk renderJson (pathText base) a b).Perm
        -- By induction on the two documents: two values that are not containers of one kind, and
        -- two containers.
        (entries.map fun e => reported renderJson (base ++ e.1) e.2)) ?_ ?_ ha hb
  · intro a b _ _ hkind
    by_cases hsame : a.same b = true
    · refine ⟨[], ⟨List.nodup_nil, fun route edit => iff_of_false List.not_mem_nil fun h => ?_⟩, ?_⟩
      · cases h with
        | changed _ differ => exact Bool.false_ne_true (differ.symm.trans hsame)
        | _ kind => exact Bool.false_ne_true (hkind.symm.trans kind)
      · intro base
        rw [walk_apart hkind, if_pos hsame]
        exact List.Perm.refl _
    · have hdiffer : a.same b = false := Bool.eq_false_iff.mpr hsame
      -- The one change is at the place of the values themselves.
      refine ⟨[([], .changed a b)], ⟨List.nodup_singleton _, fun route edit => ?_⟩, ?_⟩
      · rw [List.mem_singleton, Prod.mk.injEq]
        constructor
        · rintro ⟨rfl, rfl⟩
          exact .changed hkind hdiffer
        · intro h
          cases h with
          | changed _ _ => exact ⟨rfl, rfl⟩
          | _ kind => exact absurd (hkind.symm.trans kind) Bool.false_ne_true
      · intro base
        rw [walk_apart hkind, if_neg hsame, List.map_singleton, List.append_nil]
        exact List.Perm.refl _
  · intro a b hkind ha hb ih
    have hcommon : ∀ t ∈ common (children a) (children b), ∃ entries, Places t.2.1 t.2.2 entries
        ∧ ∀ base, (walk renderJson (pathText base) t.2.1 t.2.2).Perm
          (entries.map fun e => reported renderJson (base ++ e.1) e.2) := by
      intro t ht
      obtain ⟨hv, hw⟩ := (mem_common_iff hb).mp ht
      exact ih _ hv _ hw
    -- The places below the common steps come from the induction hypotheses, one list for each step.
    choose! entries hplaces hreports using hcommon
    refine ⟨_, places_container hkind ha hb hplaces, fun base => ?_⟩
    refine (walk_container_perm hkind (pathText base)).trans ?_
    unfold containerPlaces
    rw [List.map_append, List.map_append, List.map_map, List.map_map, List.map_flatMap]
    -- Below a step the reported path begins with the step; beside the common steps the changes are
    -- reported one by one.
    refine List.Perm.append (List.Perm.flatMap_left _ fun t ht => ?_) (List.Perm.of_eq ?_)
    · rw [← pathText_concat, List.map_map]
      refine (hreports t ht (base ++ [t.1])).trans (List.Perm.of_eq ?_)
      refine List.map_congr_left fun e _ => ?_
      rw [List.append_assoc]
      rfl
    · congr 1
      · exact List.map_congr_left fun e _ => (reported_concat base e.1 e.2).1.symm
      · exact List.map_congr_left fun e _ => (reported_concat base e.1 e.2).2.symm

/-! ### What a path selects -/

/-- The text of the value before. -/
def ChangeKind.before : ChangeKind → Option Text
  | .added _ => none
  | .removed before => some before
  | .changed before _ => some before

/-- The text of the value after. -/
def ChangeKind.after : ChangeKind → Option Text
  | .added after => some after
  | .removed _ => none
  | .changed _ after => some after

/-- A path finds a value with a text. -/
def Finds (renderJson : Json → Text) (root : Json) (path text : Text) : Prop :=
  ∃ v, select root path = .ok (some v) ∧ render renderJson v = text

/-- The reported paths can be used: each finds, on the sides where the value exists, a value with
the text that is reported, and no two are the same. -/
structure Usable (renderJson : Json → Text) (a b : Json) : Prop where
  before : ∀ change ∈ diffJson renderJson a b, ∀ text, change.kind.before = some text →
    Finds renderJson a change.path text
  after : ∀ change ∈ diffJson renderJson a b, ∀ text, change.kind.after = some text →
    Finds renderJson b change.path text
  distinct : ((diffJson renderJson a b).map (·.path)).Nodup

/-- What is reported of a place, in one text for each side. -/
theorem reported_kind (route : List Segment) (edit : Edit) :
    (reported renderJson route edit).kind.before = edit.before.map (render renderJson)
      ∧ (reported renderJson route edit).kind.after = edit.after.map (render renderJson) := by
  cases edit <;> exact ⟨rfl, rfl⟩

/-- The path of a report is the text of its route. -/
theorem reported_path {route : List Segment} (h : Plain route) (edit : Edit) :
    (reported renderJson route edit).path = pathText route := by
  have hne : pathText route ≠ [] := fun hnil => h.below ((pathText_eq_nil_iff h.written).mp hnil)
  cases edit with
  | added after => rfl
  | removed before => rfl
  | changed before after => exact if_neg hne

/-- The path of a plain place leads there. -/
theorem select_pathText {route : List Segment} (h : Plain route) (root : Json) :
    select root (pathText route) = .ok (Jsonpath.walk root route) := by
  unfold select
  rw [parse_pathText h]
  rfl

/-- The paths can be used where the places are plain. -/
theorem usable_of_plain {a b : Json} (ha : a.Ordered) (hb : b.Ordered)
    (h : ∀ route edit, DiffersAt a b route edit → Plain route) : Usable renderJson a b := by
  obtain ⟨entries, ⟨hnodup, hplaces⟩, hreports⟩ := @walk_reports renderJson _ _ ha hb
  -- The diff as a list of reported places: every fact about a change is one about its place.
  have hdiff : (diffJson renderJson a b).Perm (entries.map fun e => reported renderJson e.1 e.2) :=
    hreports []
  have hplain : ∀ e ∈ entries, Plain e.1 := fun e he => h e.1 e.2 ((hplaces e.1 e.2).mp he)
  have hchange : ∀ change ∈ diffJson renderJson a b, ∃ route edit, DiffersAt a b route edit
      ∧ Plain route ∧ change = reported renderJson route edit := by
    intro change hmem
    obtain ⟨e, he, rfl⟩ := List.mem_map.mp (hdiff.mem_iff.mp hmem)
    exact ⟨e.1, e.2, (hplaces e.1 e.2).mp he, hplain e he, rfl⟩
  refine ⟨fun change hmem text htext => ?_, fun change hmem text htext => ?_, ?_⟩
  -- A value from before the change stands at its place in the first document, and likewise for the
  -- second.
  · obtain ⟨route, edit, hdiffers, hroute, rfl⟩ := hchange change hmem
    rw [(reported_kind route edit).1] at htext
    obtain ⟨v, hv, rfl⟩ := Option.map_eq_some_iff.mp htext
    refine ⟨v, ?_, rfl⟩
    rw [reported_path hroute, select_pathText hroute, hdiffers.walk_eq.1, hv]
  · obtain ⟨route, edit, hdiffers, hroute, rfl⟩ := hchange change hmem
    rw [(reported_kind route edit).2] at htext
    obtain ⟨v, hv, rfl⟩ := Option.map_eq_some_iff.mp htext
    refine ⟨v, ?_, rfl⟩
    rw [reported_path hroute, select_pathText hroute, hdiffers.walk_eq.2, hv]
  · rw [(hdiff.map _).nodup_iff, List.map_map]
    have hpaths : entries.map (Change.path ∘ fun e => reported renderJson e.1 e.2)
        = (entries.map (·.1)).map pathText := by
      rw [List.map_map]
      exact List.map_congr_left fun e he => reported_path (hplain e he) e.2
    rw [hpaths]
    -- Two places of one path are read back from it, hence equal.
    refine hnodup.map_on fun route hroute route' hroute' heq => ?_
    obtain ⟨e, he, rfl⟩ := List.mem_map.mp hroute
    obtain ⟨e', he', rfl⟩ := List.mem_map.mp hroute'
    have hread := parse_pathText (hplain e he)
    rw [heq, parse_pathText (hplain e' he')] at hread
    exact (Except.ok.inj hread).symm

/-! ### A place and nothing else -/

/-- A document with a value at a place, and nothing else. -/
def nest : List Segment → Json → Json
  | [], leaf => leaf
  | .key key :: rest, leaf => .object [(key, nest rest leaf)]
  | .index index :: rest, leaf => .array (List.replicate index .null ++ [nest rest leaf])

/-- A nested value has sorted keys when its leaf has. -/
theorem nest_ordered {leaf : Json} (h : leaf.Ordered) (route : List Segment) :
    (nest route leaf).Ordered := by
  induction route with
  | nil => exact h
  | cons segment rest ih =>
    cases segment with
    | key key =>
      refine .object (List.pairwise_singleton _ _) fun field hfield => ?_
      obtain rfl := List.mem_singleton.mp hfield
      exact ih
    | index index =>
      refine .array fun item hitem => ?_
      rcases List.mem_append.mp hitem with hitem | hitem
      · rw [List.eq_of_mem_replicate hitem]
        exact .null
      · obtain rfl := List.mem_singleton.mp hitem
        exact ih

/-- What stands beside a step. -/
def beside : Segment → Segment → Option Json
  | .index index, .index other => if other < index then some .null else none
  | _, _ => none

/-- What is found in a nested value: the rest of the nest at its own step, and something plain
beside it. -/
theorem valueOf_nest (segment : Segment) (rest : List Segment) (leaf : Json) (step : Segment) :
    valueOf (children (nest (segment :: rest) leaf)) step
      = if step = segment then some (nest rest leaf) else beside segment step := by
  cases segment with
  | key key =>
    show valueOf [(Segment.key key, nest rest leaf)] step = _
    rw [valueOf_cons]
    simp only [eq_comm (a := Segment.key key)]
    rfl
  | index index =>
    show valueOf (itemsFrom 0 (List.replicate index .null ++ [nest rest leaf])) step = _
    cases step with
    | key key =>
      rw [if_neg fun heq => Segment.noConfusion heq]
      refine valueOf_eq_none_iff.mpr fun e he heq => ?_
      obtain ⟨n, -, hn, -⟩ := mem_itemsFrom he
      exact Segment.noConfusion (hn.symm.trans heq)
    | index other =>
      have hvalue := valueOf_itemsFrom (List.replicate index .null ++ [nest rest leaf]) 0 other
      rw [Nat.zero_add] at hvalue
      -- Below an array: before the step there is `null`, at it the rest of the nest, behind it
      -- nothing.
      rw [hvalue, beside]
      rcases Nat.lt_trichotomy other index with hlt | rfl | hgt
      · rw [if_neg fun heq => Nat.ne_of_lt hlt (Segment.index.inj heq), if_pos hlt,
          List.getElem?_append_left (by rwa [List.length_replicate]),
          List.getElem?_replicate_of_lt hlt]
      · rw [if_pos rfl, List.getElem?_append_right (by rw [List.length_replicate])]
        simp
      · rw [if_neg fun heq => Nat.ne_of_gt hgt (Segment.index.inj heq), if_neg (by omega),
          List.getElem?_eq_none]
        rw [List.length_append, List.length_replicate, List.length_singleton]
        omega

/-- What stands beside a step is `null`. -/
theorem beside_eq {segment step : Segment} {v : Json} (h : beside segment step = some v) :
    v = .null := by
  unfold beside at h
  split at h
  · split_ifs at h
    exact (Option.some.inj h).symm
  · exact absurd h.symm (Option.some_ne_none v)

/-- Two nests along one route are of one kind. -/
theorem sameKind_nest (segment : Segment) (rest : List Segment) (x y : Json) :
    sameKind (nest (segment :: rest) x) (nest (segment :: rest) y) = true := by
  cases segment <;> rfl

/-- The documents with two values at a place differ there. -/
theorem differsAt_nest {x y : Json} (hkind : sameKind x y = false) (hsame : x.same y = false)
    (route : List Segment) : DiffersAt (nest route x) (nest route y) route (.changed x y) := by
  induction route with
  | nil => exact .changed hkind hsame
  | cons segment rest ih =>
    have hstep : ∀ leaf, valueOf (children (nest (segment :: rest) leaf)) segment
        = some (nest rest leaf) :=
      fun leaf => (valueOf_nest segment rest leaf segment).trans (if_pos rfl)
    exact .deeper (sameKind_nest segment rest x y) (hstep x) (hstep y) ih

/-- They differ nowhere else. -/
theorem eq_of_differsAt_nest {x y : Json} (hkind : sameKind x y = false)
    {route place : List Segment} {edit : Edit}
    (h : DiffersAt (nest route x) (nest route y) place edit) : place = route := by
  induction route generalizing place with
  | nil =>
    cases h with
    | changed _ _ => rfl
    | _ kind => exact absurd (hkind.symm.trans kind) Bool.false_ne_true
  | cons segment rest ih =>
    -- Along the nest the two values differ only deeper; at the end of it they differ in kind.
    cases h with
    | changed apart _ => exact absurd (apart.symm.trans (sameKind_nest _ _ _ _)) Bool.false_ne_true
    | removed _ before after =>
      rw [valueOf_nest] at before after
      split_ifs at before after
      exact absurd (before.symm.trans after) (Option.some_ne_none _)
    | added _ before after =>
      rw [valueOf_nest] at before after
      split_ifs at before after
      exact absurd (after.symm.trans before) (Option.some_ne_none _)
    | @deeper _ _ v w step deep _ _ before after differ =>
      rw [valueOf_nest] at before after
      by_cases hstep : step = segment
      · rw [if_pos hstep] at before after
        obtain rfl := Option.some.inj before
        obtain rfl := Option.some.inj after
        rw [hstep, ih differ]
      -- Beside the nest both have the same plain value, which differs nowhere.
      · rw [if_neg hstep] at before after
        obtain rfl := beside_eq before
        obtain rfl := beside_eq after
        cases differ with
        | changed _ different => exact absurd different.symm Bool.false_ne_true
        | _ kind => exact absurd kind Bool.false_ne_true

/-- The text at a place is found there only. -/
theorem eq_of_walk_nest {text : Text} {route other : List Segment}
    (h : Jsonpath.walk (nest route (.string text)) other = some (.string text)) :
    other = route := by
  induction route generalizing other with
  | nil =>
    cases other with
    | nil => rfl
    | cons step deep =>
      rw [walk_cons] at h
      exact absurd h.symm (Option.some_ne_none _)
  | cons segment rest ih =>
    cases other with
    | nil =>
      cases segment with
      | key key => exact Json.noConfusion (Option.some.inj h)
      | index index => exact Json.noConfusion (Option.some.inj h)
    | cons step deep =>
      -- On the way of the nest the rest is walked; beside it there is no text.
      rw [walk_cons, valueOf_nest] at h
      by_cases hstep : step = segment
      · rw [if_pos hstep] at h
        rw [hstep, ih h]
      · rw [if_neg hstep] at h
        obtain ⟨v, hv, hwalk⟩ := Option.bind_eq_some_iff.mp h
        obtain rfl := beside_eq hv
        cases deep with
        | nil => exact Json.noConfusion (Option.some.inj hwalk)
        | cons step deep =>
          rw [walk_cons] at hwalk
          exact absurd hwalk.symm (Option.some_ne_none _)

/-- **When a reported path can be used.** It can in all documents that differ at plain places only;
and for a place that is not plain there are two documents that differ there only, and whose reported
path does not lead there. -/
theorem paths_usable_iff (hrender : ∀ v, renderJson v ≠ []) :
    (∀ a b : Document,
      (∀ route edit, DiffersAt a.value b.value route edit → Plain route) →
      Usable renderJson a.value b.value)
    ∧ ∀ route,
      (∀ a b : Document, (∀ place edit, DiffersAt a.value b.value place edit → place = route) →
        Usable renderJson a.value b.value)
      ↔ Plain route := by
  have hplain : ∀ a b : Document,
      (∀ route edit, DiffersAt a.value b.value route edit → Plain route) →
      Usable renderJson a.value b.value := fun a b => usable_of_plain a.ordered b.ordered
  refine ⟨hplain, fun route => ⟨fun h => ?_, fun hroute a b honly => ?_⟩⟩
  · -- The empty text stands at the place, and no other value has that text.
    have hx : (nest route (.string [])).Ordered := nest_ordered (.string []) route
    have hy : (nest route .null).Ordered := nest_ordered .null route
    have husable : Usable renderJson (nest route (.string [])) (nest route .null) :=
      h ⟨_, hx⟩ ⟨_, hy⟩ fun place edit hdiffers => eq_of_differsAt_nest rfl hdiffers
    obtain ⟨entries, ⟨-, hplaces⟩, hreports⟩ := @walk_reports renderJson _ _ hx hy
    have hmem : reported renderJson route (.changed (.string []) .null)
        ∈ diffJson renderJson (nest route (.string [])) (nest route .null) :=
      (hreports []).mem_iff.mpr (List.mem_map_of_mem
        (f := fun e : List Segment × Edit => reported renderJson ([] ++ e.1) e.2)
        ((hplaces _ _).mpr (differsAt_nest rfl rfl route)))
    -- The change is reported with the text from before, so that the path must lead to the empty
    -- text.
    obtain ⟨v, hselect, hv⟩ := husable.before _ hmem [] rfl
    obtain rfl : v = .string [] := by
      cases v with
      | string text => exact congrArg Json.string hv
      | _ => exact absurd hv (hrender _)
    unfold select at hselect
    cases hparse : parse (reported renderJson route (.changed (.string []) .null)).path with
    | error error =>
      rw [hparse] at hselect
      cases hselect
    | ok other =>
      rw [hparse] at hselect
      obtain rfl := eq_of_walk_nest (Except.ok.inj hselect)
      -- The path of the root is `$` for a reported change, which the reader refuses.
      by_cases hnil : pathText other = []
      · have hroot : (reported renderJson other (.changed (.string []) .null)).path = ['$'] :=
          if_pos hnil
        rw [hroot] at hparse
        cases hparse
      · have hpath : (reported renderJson other (.changed (.string []) .null)).path
            = pathText other := if_neg hnil
        rw [hpath] at hparse
        exact (parse_pathText_iff other).mp hparse
  · exact hplain a b fun place edit hdiffers => honly place edit hdiffers ▸ hroute

/-! ### A field below a field, and a key with a dot -/

/-- The texts of the literals. -/
def literalText : Json → Text
  | .bool true => "true".toList
  | .bool false => "false".toList
  | _ => "null".toList

/-- A field below a field is found. -/
theorem paths_usable_nested :
    Usable literalText (nest [.key "a".toList, .key "b".toList] (.bool true))
      (nest [.key "a".toList, .key "b".toList] (.bool false)) := by
  have hrender : ∀ v, literalText v ≠ [] := by
    intro v
    unfold literalText
    split <;> exact List.cons_ne_nil _ _
  have hplain : Plain [.key "a".toList, .key "b".toList] :=
    (parse_pathText_iff _).mp (by decide)
  exact (paths_usable_iff hrender).1
    ⟨_, nest_ordered (.bool true) _⟩ ⟨_, nest_ordered (.bool false) _⟩
    fun route edit hdiffers => eq_of_differsAt_nest rfl hdiffers ▸ hplain

/-- A key with a dot is not: its path leads to a field of another one, which is not there. -/
theorem not_paths_usable_dotted :
    ¬ Usable literalText (nest [.key "x.y".toList] (.bool true))
      (nest [.key "x.y".toList] (.bool false)) := by
  intro h
  obtain ⟨v, hv, -⟩ := h.before ⟨"x.y".toList, .changed "true".toList "false".toList⟩
    List.mem_cons_self "true".toList rfl
  have hparse : parse "x.y".toList = .ok [.key "x".toList, .key "y".toList] := by decide
  have hnone : select (nest [.key "x.y".toList] (.bool true)) "x.y".toList = .ok none := by
    unfold select
    rw [hparse]
    rfl
  rw [hnone] at hv
  exact absurd (Except.ok.inj hv).symm (Option.some_ne_none v)

end Gabriel.Core.Diff
