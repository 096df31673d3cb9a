import Mathlib

/-!
# `Gabriel.Lib.Visit`: a visitor that may stop

`visitWhile visit s l` is the loop `for a in l { if !visit(a) { return } }`, with the visitor's
state passed along. The result carries the visitor's last answer, so two loops in a row compose.
The theorems:

* `visitWhile_append`: a loop over two lists is the second loop after the first, unless the first
  one was stopped.
* `visitWhile_filterMap`: passing over items that a partial function rejects.
* `visitWhile_logged`: what the visitor was handed: the items up to its first refusal.
* `visitWhile_of_forall`: a visitor that always goes on folds over the whole list.
* `visitWhile_collect`: collecting up to a limit takes the first matches.
-/

set_option autoImplicit false

namespace Visit

variable {σ α β : Type}

/-- Hand the items to `visit` one after the other until it answers `false`. -/
def visitWhile (visit : σ → α → σ × Bool) : σ → List α → σ × Bool
  | s, [] => (s, true)
  | s, a :: as => if (visit s a).2 then visitWhile visit (visit s a).1 as else visit s a

/-- Visit what a partial function makes of an item, and pass over the items it rejects. -/
def visitSome (f : α → Option β) (visit : σ → β → σ × Bool) (s : σ) (a : α) : σ × Bool :=
  match f a with
  | some b => visit s b
  | none => (s, true)

/-- A visitor that also keeps a list of the items it was handed. -/
def logged (visit : σ → α → σ × Bool) (s : σ × List α) (a : α) : (σ × List α) × Bool :=
  (((visit s.1 a).1, s.2 ++ [a]), (visit s.1 a).2)

/-- The answers of a visitor to a list of items, were it handed all of them. -/
def answers (visit : σ → α → σ × Bool) : σ → List α → List Bool
  | _, [] => []
  | s, a :: as => (visit s a).2 :: answers visit (visit s a).1 as

/-- Keep the items that pass the test, until there are `limit` of them. -/
def collect (p : α → Bool) (limit : Nat) (acc : List α) (a : α) : List α × Bool :=
  let acc := if p a then acc ++ [a] else acc
  (acc, acc.length < limit)

/-- There is nothing to visit in the empty list. -/
@[simp] theorem visitWhile_nil (visit : σ → α → σ × Bool) (s : σ) :
    visitWhile visit s [] = (s, true) := rfl

/-- A loop over two lists is the second loop after the first, unless the first one stopped. -/
theorem visitWhile_append (visit : σ → α → σ × Bool) (s : σ) (l m : List α) :
    visitWhile visit s (l ++ m) =
      if (visitWhile visit s l).2 then visitWhile visit (visitWhile visit s l).1 m
      else visitWhile visit s l := by
  induction l generalizing s with
  | nil => simp
  | cons a l ih =>
    simp only [List.cons_append, visitWhile]
    by_cases h : (visit s a).2 = true
    · simp only [h, if_true, ih]
    · simp only [h, if_false, Bool.false_eq_true]

/-- Passing over the items a partial function rejects is a loop over its values. -/
theorem visitWhile_filterMap (f : α → Option β) (visit : σ → β → σ × Bool) (s : σ) (l : List α) :
    visitWhile (visitSome f visit) s l = visitWhile visit s (l.filterMap f) := by
  induction l generalizing s with
  | nil => rfl
  | cons a l ih =>
    cases hf : f a with
    | none => rw [List.filterMap_cons_none hf, visitWhile, visitSome, hf, if_pos rfl, ih]
    | some b => rw [List.filterMap_cons_some hf, visitWhile, visitSome, hf, visitWhile, ih]

/-- The items handed over are those up to the first refusal, and it does not matter to the
visitor that they are kept. -/
theorem visitWhile_logged (visit : σ → α → σ × Bool) (s : σ) (seen l : List α) :
    visitWhile (logged visit) (s, seen) l =
      (((visitWhile visit s l).1, seen ++ l.take ((answers visit s l).idxOf false + 1)),
        (visitWhile visit s l).2) := by
  induction l generalizing s seen with
  | nil => simp
  | cons a l ih =>
    rcases hv : visit s a with ⟨s', go⟩
    cases go with
    | true =>
      have hrest := ih s' (seen ++ [a])
      simp [visitWhile, logged, answers, hv, hrest, List.idxOf_cons_ne]
    | false => simp [visitWhile, logged, answers, hv]

/-- A visitor that always goes on folds over the whole list. -/
theorem visitWhile_of_forall (visit : σ → α → σ × Bool) (h : ∀ s a, (visit s a).2 = true) (s : σ)
    (l : List α) :
    visitWhile visit s l = (l.foldl (fun s a => (visit s a).1) s, true) := by
  induction l generalizing s with
  | nil => rfl
  | cons a l ih => rw [visitWhile, if_pos (h s a), ih, List.foldl_cons]

/-- Collecting up to a limit takes the first matches. -/
theorem visitWhile_collect (p : α → Bool) {limit : Nat} {acc : List α} (h : acc.length < limit)
    (l : List α) :
    (visitWhile (collect p limit) acc l).1 = acc ++ (l.filter p).take (limit - acc.length) := by
  induction l generalizing acc with
  | nil => simp
  | cons a l ih =>
    by_cases hp : p a = true
    · have hstep : collect p limit acc a = (acc ++ [a], decide ((acc ++ [a]).length < limit)) := by
        simp [collect, hp]
      have hlen : (acc ++ [a]).length = acc.length + 1 := by simp
      have hroom : limit - acc.length = limit - (acc.length + 1) + 1 := by omega
      rw [visitWhile, hstep, List.filter_cons_of_pos hp, hroom, List.take_succ_cons]
      by_cases hmore : (acc ++ [a]).length < limit
      · rw [if_pos (decide_eq_true hmore), ih hmore, hlen]
        simp
      · have hfull : limit - (acc.length + 1) = 0 := by omega
        rw [if_neg (by simpa using hmore), hfull, List.take_zero]
    · have hstep : collect p limit acc a = (acc, true) := by
        simp [collect, hp, h]
      rw [visitWhile, hstep, if_pos rfl, ih h, List.filter_cons_of_neg hp]

end Visit
