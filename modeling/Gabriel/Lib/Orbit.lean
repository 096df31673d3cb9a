import Mathlib

/-!
# `Gabriel.Lib.Orbit`: the states of a bounded loop

A loop whose body either stops or continues from a new state is a step function
`σ → Option σ`. `orbit step n s` lists the states at the top of its body, from `s` on, when the
loop may continue at most `n` times.

An orbit, from any of its states on, is the orbit of that state, so an invariant that starts to hold
in the middle goes on to hold. The theorems:

* `length_orbit_le`: a loop that may continue `n` times has at most `n + 1` states.
* `orbit_suffix`: from any of its states on, an orbit is the orbit of that state.
* `step_of_orbit`, `step_or_last`: the step leads from each state but the last one to the next.
* `orbit_invariant`: what the step keeps holds in every state.
* `orbit_invariant_from`: what holds in one state holds from that state on.
-/

set_option autoImplicit false

namespace Orbit

variable {σ : Type}

/-- The states at the top of a loop that continues at most `n` times. -/
def orbit (step : σ → Option σ) : Nat → σ → List σ
  | 0, s => [s]
  | n + 1, s => s :: (step s).elim [] (orbit step n)

/-- There are two states, and they pass a test. -/
def pairWith (test : σ → σ → Bool) : List σ → Bool
  | [a, b] => test a b
  | _ => false

variable {step : σ → Option σ} {n : Nat} {s a b : σ} {pre post : List σ}

/-- States that pass a test of two are two. -/
theorem exists_of_pairWith {test : σ → σ → Bool} {states : List σ}
    (h : pairWith test states = true) : ∃ a b, states = [a, b] ∧ test a b = true := by
  match states, h with
  | [a, b], h => exact ⟨a, b, rfl, h⟩

/-- An orbit starts at its state. -/
theorem orbit_eq_cons (step : σ → Option σ) (n : Nat) (s : σ) :
    ∃ rest, orbit step n s = s :: rest := by
  cases n with
  | zero => exact ⟨[], rfl⟩
  | succ n => exact ⟨_, rfl⟩

/-- The orbit of a state begins with it. -/
theorem orbit_ne_nil (step : σ → Option σ) (n : Nat) (s : σ) : orbit step n s ≠ [] := by
  obtain ⟨rest, h⟩ := orbit_eq_cons step n s
  rw [h]
  exact List.cons_ne_nil s rest

/-- The loop continues. -/
theorem orbit_succ_some (h : step s = some a) : orbit step (n + 1) s = s :: orbit step n a := by
  rw [orbit, h, Option.elim_some]

/-- The loop stops. -/
theorem orbit_of_none (h : step s = none) : orbit step n s = [s] := by
  cases n with
  | zero => rfl
  | succ n => rw [orbit, h, Option.elim_none]

/-- A loop that may continue `n` times has at most `n + 1` states. -/
theorem length_orbit_le : (orbit step n s).length ≤ n + 1 := by
  induction n generalizing s with
  | zero => exact Nat.le_refl 1
  | succ n ih =>
    rcases h : step s with _ | a
    · rw [orbit_of_none h]
      exact Nat.le_add_left 1 (n + 1)
    · rw [orbit_succ_some h, List.length_cons]
      exact Nat.succ_le_succ ih

/-- From any of its states on, an orbit is the orbit of that state. -/
theorem orbit_suffix (h : orbit step n s = pre ++ b :: post) :
    ∃ m ≤ n, orbit step m b = b :: post := by
  induction pre generalizing n s with
  | nil =>
    obtain ⟨rest, hrest⟩ := orbit_eq_cons step n s
    rw [hrest, List.nil_append, List.cons.injEq] at h
    obtain ⟨rfl, rfl⟩ := h
    exact ⟨n, Nat.le_refl n, hrest⟩
  | cons x pre ih =>
    cases n with
    | zero => simp [orbit] at h
    | succ n =>
      rw [List.cons_append, orbit, List.cons.injEq] at h
      rcases hs : step s with _ | a
      · rw [hs] at h
        simp at h
      · rw [hs, Option.elim_some] at h
        obtain ⟨m, hm, hsuffix⟩ := ih h.2
        exact ⟨m, Nat.le_succ_of_le hm, hsuffix⟩

/-- The step leads from each state to the next. -/
theorem step_of_orbit (h : orbit step n s = pre ++ a :: b :: post) : step a = some b := by
  obtain ⟨m, -, hm⟩ := orbit_suffix h
  cases m with
  | zero => simp [orbit] at hm
  | succ m =>
    rw [orbit, List.cons.injEq] at hm
    rcases ha : step a with _ | c
    · rw [ha] at hm
      simp at hm
    · rw [ha, Option.elim_some] at hm
      obtain ⟨rest, hrest⟩ := orbit_eq_cons step m c
      rw [hrest, List.cons.injEq] at hm
      rw [hm.2.1]

/-- What the step keeps holds in every state. -/
theorem orbit_invariant {P : σ → Prop} (hs : P s) (hstep : ∀ a b, P a → step a = some b → P b) :
    ∀ x ∈ orbit step n s, P x := by
  induction n generalizing s with
  | zero =>
    intro x hx
    rw [orbit, List.mem_singleton] at hx
    rw [hx]
    exact hs
  | succ n ih =>
    intro x hx
    rw [orbit, List.mem_cons] at hx
    rcases hx with rfl | hx
    · exact hs
    · rcases ha : step s with _ | a
      · rw [ha] at hx
        simp at hx
      · rw [ha, Option.elim_some] at hx
        exact ih (hstep s a hs ha) x hx

/-- What holds in one state, and is kept by the step, holds from that state on. -/
theorem orbit_invariant_from {P : σ → Prop} (h : orbit step n s = pre ++ b :: post) (hb : P b)
    (hstep : ∀ a b, P a → step a = some b → P b) : ∀ x ∈ b :: post, P x := by
  obtain ⟨m, -, hm⟩ := orbit_suffix h
  rw [← hm]
  exact orbit_invariant hb hstep

/-- Every state but the last one has a next state. -/
theorem step_or_last {x : σ} (h : x ∈ orbit step n s) :
    x = (orbit step n s).getLast (orbit_ne_nil step n s) ∨ ∃ y, step x = some y := by
  obtain ⟨pre, post, hsplit⟩ := List.append_of_mem h
  cases post with
  | nil =>
    left
    simp only [hsplit, List.getLast_append_singleton]
  | cons y post => exact Or.inr ⟨y, step_of_orbit hsplit⟩

end Orbit
