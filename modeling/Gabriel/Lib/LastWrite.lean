import Mathlib

/-!
# `Gabriel.Lib.LastWrite`: a list that keeps the last write of each key

A list of values, each with a key, under three operations: `put` drops the values of the same
key and appends the new one if it is live, `reset` empties the list, and `sieve` keeps the values
that pass a test. `contents` is the list after a history of operations.

The specification is a map: `lastWrite` finds, for a key, the last `put` since the last `reset`,
with its position in the history. The list of a history is one of last writes (`Spec`): at most one
of a key, in the order of their positions, and every last write that is live and passes all sieves.
The theorems:

* `contents_snoc`, `lastWrite_snoc`: the list and the map after one more operation.
* `lastWrite_bounds`: a last write comes from the history, and has its key.
* `contents_spec`: every history has such a list, by induction from its end.
* `foldl_put`: writes on a list that is not empty.
* `pairwise_insertionSort_stable`: a sort by insertion keeps items in order that it may not tell
  apart.
-/

set_option autoImplicit false

namespace LastWrite

variable {κ ν : Type}

/-- An operation on the list. -/
inductive Op (ν : Type) where
  | put (value : ν) (live : Bool)
  | reset
  | sieve (keep : ν → Bool)

/-- A write of the history. -/
structure Written (ν : Type) where
  value : ν
  live : Bool
  /-- How many operations came before it. -/
  index : Nat

variable [DecidableEq κ] (key : ν → κ)

/-- The list after an operation. -/
def step (l : List ν) : Op ν → List ν
  | .put value live => (l.filter fun old => key old ≠ key value) ++ if live then [value] else []
  | .reset => []
  | .sieve keep => l.filter keep

/-- The list after a history. -/
def contents (ops : List (Op ν)) : List ν := ops.foldl (step key) []

/-- The number of operations so far and the last write of a key among them, after one more. -/
def note (k : κ) (seen : Nat × Option (Written ν)) (op : Op ν) : Nat × Option (Written ν) :=
  (seen.1 + 1, match op with
    | .put value live => if key value = k then some ⟨value, live, seen.1⟩ else seen.2
    | .reset => none
    | .sieve _ => seen.2)

/-- The last write of a key since the last reset. -/
def lastWrite (k : κ) (ops : List (Op ν)) : Option (Written ν) :=
  (ops.foldl (note key k) (0, none)).2

/-- What is there after one more operation. -/
theorem contents_snoc (ops : List (Op ν)) (op : Op ν) :
    contents key (ops ++ [op]) = step key (contents key ops) op := by
  rw [contents, List.foldl_append]
  rfl

/-- The history is counted. -/
theorem note_count (k : κ) (ops : List (Op ν)) (seen : Nat × Option (Written ν)) :
    (ops.foldl (note key k) seen).1 = seen.1 + ops.length := by
  induction ops generalizing seen with
  | nil => rfl
  | cons op ops ih =>
    rw [List.foldl_cons, ih, List.length_cons]
    show seen.1 + 1 + ops.length = _
    omega

/-- The last write of a key after one more operation. -/
theorem lastWrite_snoc (k : κ) (ops : List (Op ν)) (op : Op ν) :
    lastWrite key k (ops ++ [op]) = match op with
      | .put value live =>
        if key value = k then some ⟨value, live, ops.length⟩ else lastWrite key k ops
      | .reset => none
      | .sieve _ => lastWrite key k ops := by
  have hcount := note_count key k ops (0, none)
  rw [Nat.zero_add] at hcount
  unfold lastWrite
  rw [List.foldl_append, List.foldl_cons, List.foldl_nil]
  cases op with
  | put value live =>
    show (if key value = k then some (Written.mk value live (ops.foldl (note key k) (0, none)).1)
      else (ops.foldl (note key k) (0, none)).2) = _
    rw [hcount]
  | reset => rfl
  | sieve keep => rfl

/-- A last write comes from the history, and has its key. -/
theorem lastWrite_bounds {k : κ} {ops : List (Op ν)} {w : Written ν}
    (h : lastWrite key k ops = some w) : key w.value = k ∧ w.index < ops.length := by
  induction ops using List.reverseRecOn with
  | nil => exact absurd h (by simp [lastWrite])
  | append_singleton ops op ih =>
    rw [lastWrite_snoc] at h
    rw [List.length_append, List.length_singleton]
    have hkeep : lastWrite key k ops = some w → key w.value = k ∧ w.index < ops.length + 1 := by
      intro hw
      exact ⟨(ih hw).1, Nat.lt_succ_of_lt (ih hw).2⟩
    cases op with
    | put value live =>
      dsimp only at h
      split at h
      · rename_i hk
        rw [← Option.some.inj h]
        exact ⟨hk, Nat.lt_succ_self _⟩
      · exact hkeep h
    | reset => exact absurd h (by simp)
    | sieve keep => exact hkeep h

/-- What the list of a history is, as a list of writes. -/
structure Spec (ops : List (Op ν)) (ws : List (Written ν)) : Prop where
  values : contents key ops = ws.map (·.value)
  ordered : ws.Pairwise fun a b => a.index < b.index
  last : ∀ w ∈ ws, lastWrite key (key w.value) ops = some w ∧ w.live = true
  complete : ∀ k w, lastWrite key k ops = some w → w.live = true →
    (∀ keep, .sieve keep ∈ ops → keep w.value = true) → w ∈ ws

/-- Every history has such a list of writes. -/
theorem contents_spec (ops : List (Op ν)) : ∃ ws, Spec key ops ws := by
  induction ops using List.reverseRecOn with
  | nil =>
    exact ⟨[], rfl, List.Pairwise.nil, by simp, fun k w h => absurd h (by simp [lastWrite])⟩
  | append_singleton ops op ih =>
    obtain ⟨ws, hvalues, hordered, hlast, hcomplete⟩ := ih
    have hsieves : ∀ w : Written ν, (∀ keep, .sieve keep ∈ ops ++ [op] → keep w.value = true) →
        ∀ keep, .sieve keep ∈ ops → keep w.value = true :=
      fun w h keep hkeep => h keep (List.mem_append_left _ hkeep)
    cases op with
    | reset =>
      refine ⟨[], contents_snoc key ops _, List.Pairwise.nil, by simp, ?_⟩
      intro k w h
      rw [lastWrite_snoc] at h
      exact absurd h (by simp)
    | sieve keep =>
      refine ⟨ws.filter fun w => keep w.value, ?_, hordered.filter _, ?_, ?_⟩
      · rw [contents_snoc, hvalues]
        exact List.filter_map
      · intro w hw
        rw [lastWrite_snoc]
        exact hlast w (List.mem_filter.mp hw).1
      · intro k w hw hlive hkeep
        rw [lastWrite_snoc] at hw
        exact List.mem_filter.mpr ⟨hcomplete k w hw hlive (hsieves w hkeep),
          hkeep keep (by simp)⟩
    | put value live =>
      -- The old writes keep their positions, which are all before the new one.
      have hold : ∀ w ∈ ws.filter fun w => key w.value ≠ key value,
          lastWrite key (key w.value) (ops ++ [.put value live]) = some w ∧ w.live = true := by
        intro w hw
        obtain ⟨hmem, hkey⟩ := List.mem_filter.mp hw
        rw [lastWrite_snoc]
        dsimp only
        rw [if_neg (by simpa using Ne.symm (of_decide_eq_true hkey))]
        exact hlast w hmem
      have hfiltered : (contents key ops).filter (fun old => key old ≠ key value)
          = (ws.filter fun w => key w.value ≠ key value).map (·.value) := by
        rw [hvalues]
        exact List.filter_map
      cases live with
      | false =>
        refine ⟨ws.filter fun w => key w.value ≠ key value, ?_, hordered.filter _, hold, ?_⟩
        · rw [contents_snoc]
          show _ ++ [] = _
          rw [List.append_nil]
          exact hfiltered
        · intro k w hw hlive hkeep
          rw [lastWrite_snoc] at hw
          dsimp only at hw
          split at hw
          · rw [← Option.some.inj hw] at hlive
            exact absurd hlive (by simp)
          · rename_i hk
            refine List.mem_filter.mpr ⟨hcomplete k w hw hlive (hsieves w hkeep), ?_⟩
            rw [(lastWrite_bounds key hw).1]
            simpa using Ne.symm hk
      | true =>
        refine ⟨(ws.filter fun w => key w.value ≠ key value) ++ [⟨value, true, ops.length⟩],
          ?_, ?_, ?_, ?_⟩
        · rw [contents_snoc, List.map_append, ← hfiltered]
          rfl
        · refine List.pairwise_append.mpr ⟨hordered.filter _, List.pairwise_singleton _ _, ?_⟩
          intro w hw new hnew
          rw [List.mem_singleton] at hnew
          rw [hnew]
          exact (lastWrite_bounds key (hlast w (List.mem_filter.mp hw).1).1).2
        · intro w hw
          rcases List.mem_append.mp hw with hw | hw
          · exact hold w hw
          · rw [List.mem_singleton.mp hw, lastWrite_snoc]
            exact ⟨if_pos rfl, rfl⟩
        · intro k w hw hlive hkeep
          rw [lastWrite_snoc] at hw
          dsimp only at hw
          split at hw
          · rw [← Option.some.inj hw]
            exact List.mem_append_right _ (List.mem_singleton_self _)
          · rename_i hk
            refine List.mem_append_left _ (List.mem_filter.mpr
              ⟨hcomplete k w hw hlive (hsieves w hkeep), ?_⟩)
            rw [(lastWrite_bounds key hw).1]
            simpa using Ne.symm hk

/-- Writes on a list that is not empty: they drop its values of their keys, and come after the
rest as they would alone. -/
theorem foldl_put (puts : List (ν × Bool)) (l : List ν) :
    (puts.map fun p => Op.put p.1 p.2).foldl (step key) l
      = (l.filter fun v => key v ∉ puts.map fun p => key p.1)
        ++ contents key (puts.map fun p => Op.put p.1 p.2) := by
  induction puts using List.reverseRecOn with
  | nil => simp [contents]
  | append_singleton puts p ih =>
    rw [List.map_append, List.foldl_append, ih, List.map_singleton, contents_snoc]
    simp only [List.foldl_cons, List.foldl_nil, step]
    rw [List.filter_append, List.filter_filter, List.append_assoc]
    congr 1
    refine List.filter_congr ?_
    intro v _
    simp only [List.map_append, List.map_singleton, List.mem_append, List.mem_singleton, not_or,
      Bool.decide_and]
    exact Bool.and_comm _ _

/-- What the list of some writes holds was written. -/
theorem mem_contents_put {puts : List (ν × Bool)} {v : ν}
    (h : v ∈ contents key (puts.map fun p => Op.put p.1 p.2)) : ∃ p ∈ puts, p.1 = v := by
  induction puts using List.reverseRecOn with
  | nil => exact absurd h List.not_mem_nil
  | append_singleton puts p ih =>
    rw [List.map_append, List.map_singleton, contents_snoc, step, List.mem_append] at h
    rcases h with h | h
    · obtain ⟨old, hold, heq⟩ := ih (List.mem_filter.mp h).1
      exact ⟨old, List.mem_append_left _ hold, heq⟩
    · refine ⟨p, List.mem_append_right _ (List.mem_singleton_self p), ?_⟩
      cases hlive : p.2 with
      | true =>
        rw [hlive, if_pos rfl, List.mem_singleton] at h
        exact h.symm
      | false =>
        rw [hlive] at h
        exact absurd h List.not_mem_nil

/-! ### Sorting a list of writes -/

section Sorting

variable {α : Type} {r : α → α → Prop} [DecidableRel r] {S : α → α → Prop}

/-- An insertion puts the new item after the items it may not precede. -/
theorem pairwise_orderedInsert {a : α} {l : List α} (hl : l.Pairwise S) (hnew : ∀ b ∈ l, S a b)
    (hpassed : ∀ b ∈ l, ¬ r a b → S b a) : (l.orderedInsert r a).Pairwise S := by
  induction l with
  | nil => exact List.pairwise_singleton S a
  | cons b l ih =>
    rw [List.pairwise_cons] at hl
    rw [List.orderedInsert]
    split
    · exact List.pairwise_cons.mpr ⟨hnew, List.pairwise_cons.mpr hl⟩
    · rename_i hnot
      refine List.pairwise_cons.mpr ⟨?_, ih hl.2 (fun c hc => hnew c (List.mem_cons_of_mem b hc))
        (fun c hc => hpassed c (List.mem_cons_of_mem b hc))⟩
      intro c hc
      rcases (List.mem_orderedInsert r).mp hc with rfl | hc
      · exact hpassed b List.mem_cons_self hnot
      · exact hl.1 c hc

/-- A sort by insertion keeps items in order that it may not tell apart. -/
theorem pairwise_insertionSort_stable {index : α → Nat} {l : List α}
    (h : l.Pairwise fun a b => index a < index b) :
    (l.insertionSort r).Pairwise fun a b => r b a → index a < index b := by
  induction l with
  | nil => exact List.Pairwise.nil
  | cons a l ih =>
    rw [List.pairwise_cons] at h
    rw [List.insertionSort_cons]
    refine pairwise_orderedInsert (ih h.2) ?_ ?_
    · intro b hb _
      exact h.1 b ((List.mem_insertionSort r).mp hb)
    · intro b _ hnot hrel
      exact absurd hrel hnot

end Sorting

end LastWrite
