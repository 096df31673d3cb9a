import Mathlib

/-!
# `Gabriel.Lib.StableSort`: the items of a list in the order of a key

A list is in the order of a key when keys do not go down and when the items of one key stand as
they stood before (`InOrder`). Two such lists have the same items of each key, so there is only one
order, and a stable sort gives it. The theorems:

* `eq_of_filter_eq`: two ascending lists with the same items for each key are the same.
* `InOrder.unique`: there is one order.
* `filter_insertionSort`: a sort keeps the items of a key in the order they came.
* `inOrder_insertionSort`: a stable sort gives the order.
-/

set_option autoImplicit false

namespace StableSort

variable {α κ : Type*} [LinearOrder κ]

/-- The items of a list in the order of their keys, those of one key in the order they came. -/
structure InOrder (key : α → κ) (items sorted : List α) : Prop where
  /-- Keys do not go down. -/
  ascending : sorted.Pairwise fun a b => key a ≤ key b
  /-- Each key has its items. -/
  stable : ∀ k, sorted.filter (fun a => key a = k) = items.filter fun a => key a = k

variable {key : α → κ}

/-- The first item is the first one of its key. -/
theorem filter_head {a : α} {l : List α} :
    (a :: l).filter (fun b => key b = key a) = a :: l.filter fun b => key b = key a :=
  List.filter_cons_of_pos (decide_eq_true rfl)

/-- Two ascending lists with the same items for each key are the same. -/
theorem eq_of_filter_eq {l l' : List α} (hl : l.Pairwise fun a b => key a ≤ key b)
    (hl' : l'.Pairwise fun a b => key a ≤ key b)
    (h : ∀ k, l.filter (fun a => key a = k) = l'.filter fun a => key a = k) : l = l' := by
  induction l generalizing l' with
  | nil =>
    cases l' with
    | nil => rfl
    | cons b l' =>
      have hb := h (key b)
      rw [filter_head, List.filter_nil] at hb
      exact absurd hb.symm (List.cons_ne_nil _ _)
  | cons a l ih =>
    cases l' with
    | nil =>
      have ha := h (key a)
      rw [filter_head, List.filter_nil] at ha
      exact absurd ha (List.cons_ne_nil _ _)
    | cons b l' =>
      obtain ⟨ha, htail⟩ := List.pairwise_cons.mp hl
      obtain ⟨hb, htail'⟩ := List.pairwise_cons.mp hl'
      -- Each head is among the items of the other list, so neither key is the smaller one.
      have hab : key a ≤ key b := by
        have hmem : b ∈ (a :: l).filter fun c => key c = key b := by
          rw [h (key b), filter_head]
          exact List.mem_cons_self
        rcases List.mem_cons.mp (List.mem_of_mem_filter hmem) with rfl | hmem
        · exact le_rfl
        · exact ha b hmem
      have hba : key b ≤ key a := by
        have hmem : a ∈ (b :: l').filter fun c => key c = key a := by
          rw [← h (key a), filter_head]
          exact List.mem_cons_self
        rcases List.mem_cons.mp (List.mem_of_mem_filter hmem) with rfl | hmem
        · exact le_rfl
        · exact hb a hmem
      have hkey : key a = key b := le_antisymm hab hba
      have hheads := h (key a)
      rw [filter_head, hkey, filter_head, List.cons.injEq] at hheads
      obtain ⟨rfl, -⟩ := hheads
      have htails : ∀ k, l.filter (fun c => key c = k) = l'.filter fun c => key c = k := by
        intro k
        have hk := h k
        rw [List.filter_cons, List.filter_cons] at hk
        split at hk
        · exact (List.cons.inj hk).2
        · exact hk
      rw [ih htail htail' htails]

/-- **There is one order.** -/
theorem InOrder.unique {items sorted sorted' : List α} (h : InOrder key items sorted)
    (h' : InOrder key items sorted') : sorted = sorted' :=
  eq_of_filter_eq h.ascending h'.ascending fun k => (h.stable k).trans (h'.stable k).symm

/-- A sort keeps the items of a key in the order they came. -/
theorem filter_insertionSort (items : List α) (k : κ) :
    (items.insertionSort fun a b => key a ≤ key b).filter (fun a => key a = k)
      = items.filter fun a => key a = k := by
  have htotal : Std.Total fun a b : α => key a ≤ key b := ⟨fun a b => le_total (key a) (key b)⟩
  have htrans : IsTrans α fun a b => key a ≤ key b := ⟨fun _ _ _ => le_trans⟩
  -- The items of one key are ascending, so a stable sort leaves them as a sublist.
  have hascending : (items.filter fun a => key a = k).Pairwise fun a b => key a ≤ key b := by
    refine List.Pairwise.imp_of_mem ?_ (List.pairwise_of_forall (R := fun _ _ => True)
      fun _ _ => trivial)
    intro a b ha hb _
    rw [of_decide_eq_true (List.mem_filter.mp ha).2, of_decide_eq_true (List.mem_filter.mp hb).2]
  have hsub := (List.sublist_insertionSort (r := fun a b : α => key a ≤ key b) hascending
    List.filter_sublist).filter fun a => decide (key a = k)
  rw [List.filter_filter] at hsub
  simp only [Bool.and_self] at hsub
  have hperm : ((items.insertionSort fun a b => key a ≤ key b).filter fun a => key a = k).Perm
      (items.filter fun a => key a = k) := (List.perm_insertionSort _ items).filter _
  exact (hsub.eq_of_length hperm.length_eq.symm).symm

/-- **A stable sort gives the order.** -/
theorem inOrder_insertionSort (items : List α) :
    InOrder key items (items.insertionSort fun a b => key a ≤ key b) := by
  have htotal : Std.Total fun a b : α => key a ≤ key b := ⟨fun a b => le_total (key a) (key b)⟩
  have htrans : IsTrans α fun a b => key a ≤ key b := ⟨fun _ _ _ => le_trans⟩
  exact ⟨List.pairwise_insertionSort _ items, filter_insertionSort items⟩

end StableSort
