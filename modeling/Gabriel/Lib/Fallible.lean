import Mathlib

/-!
# `Gabriel.Lib.Fallible`: calls that may fail and keep their state

`Call ε σ α` is the error monad over a state: a call that fails has still changed the state.
`exec` runs it, and for each way to build a call there is one equation of its run.

Two judgements are built on `exec`, each with a rule for a sequence and for a loop. `Keeps R m`
says that the state after `m`, on success and on failure, is `R`-related to the state before.
`Lockstep R A m n` runs two calls from `R`-related states: they fail together, with the same
error, or return `A`-related results, and the states are related again. The theorems:

* `exec_bind`, `exec_bind_eq_ok`, `exec_bind_eq_error`: the run of a sequence, in both directions.
* `exec_adapt`, `exec_zoom`: other errors, and a call on a part of the state.
* `keeps_bind`, `keeps_foldlM`, `keeps_mapM`: a sequence and a loop keep what their parts keep.
* `exec_mapM_eq_ok`: a loop that succeeds has a body that succeeds on every item.
* `lockstep_bind`: two sequences go in lockstep when their parts do.
-/

set_option autoImplicit false

namespace Fallible

/-- A call that may fail, over a state it changes either way. -/
abbrev Call (ε σ α : Type) := ExceptT ε (StateM σ) α

variable {ε σ τ α β γ δ : Type}

/-- Run a call. -/
def exec (m : Call ε σ α) (s : σ) : Except ε α × σ := m.run.run s

/-! ### Running -/

/-- A value leaves the state. -/
@[simp] theorem exec_pure (a : α) (s : σ) : exec (pure a : Call ε σ α) s = (.ok a, s) := rfl

/-- An error leaves the state. -/
@[simp] theorem exec_throw (e : ε) (s : σ) :
    exec (throw e : Call ε σ α) s = (.error e, s) := rfl

/-- A change of the state. -/
@[simp] theorem exec_modify (f : σ → σ) (s : σ) :
    exec (modify f : Call ε σ PUnit) s = (.ok ⟨⟩, f s) := rfl

/-- Reading the state. -/
@[simp] theorem exec_get (s : σ) : exec (get : Call ε σ σ) s = (.ok s, s) := rfl

/-- A sequence runs its second part after the first, unless the first one failed. -/
theorem exec_bind (m : Call ε σ α) (f : α → Call ε σ β) (s : σ) :
    exec (m >>= f) s = match exec m s with
      | (.ok a, s') => exec (f a) s'
      | (.error e, s') => (.error e, s') := by
  show (ExceptT.run m >>= fun r => match r with
    | .ok a => (f a).run
    | .error e => pure (.error e)).run s = _
  rcases hm : exec m s with ⟨r, s'⟩
  have hrun : (ExceptT.run m).run s = (r, s') := hm
  simp only [StateT.run_bind]
  rw [hrun]
  cases r <;> rfl

/-- A sequence whose first part succeeds. -/
theorem exec_bind_ok {m : Call ε σ α} {f : α → Call ε σ β} {s s' : σ} {a : α}
    (h : exec m s = (.ok a, s')) : exec (m >>= f) s = exec (f a) s' := by
  rw [exec_bind, h]

/-- A sequence whose first part fails. -/
theorem exec_bind_error {m : Call ε σ α} {f : α → Call ε σ β} {s s' : σ} {e : ε}
    (h : exec m s = (.error e, s')) : exec (m >>= f) s = (.error e, s') := by
  rw [exec_bind, h]

/-- A sequence that succeeds has two parts that do. -/
theorem exec_bind_eq_ok {m : Call ε σ α} {f : α → Call ε σ β} {s t : σ} {b : β} :
    exec (m >>= f) s = (.ok b, t) ↔
      ∃ a s', exec m s = (.ok a, s') ∧ exec (f a) s' = (.ok b, t) := by
  rw [exec_bind]
  rcases hm : exec m s with ⟨r, s'⟩
  cases r with
  | ok a =>
    constructor
    · intro h
      exact ⟨a, s', rfl, h⟩
    · rintro ⟨a', s'', heq, h⟩
      cases heq
      exact h
  | error e => simp

/-- A sequence that fails has a part that does. -/
theorem exec_bind_eq_error {m : Call ε σ α} {f : α → Call ε σ β} {s t : σ} {e : ε} :
    exec (m >>= f) s = (.error e, t) ↔ exec m s = (.error e, t) ∨
      ∃ a s', exec m s = (.ok a, s') ∧ exec (f a) s' = (.error e, t) := by
  rw [exec_bind]
  rcases hm : exec m s with ⟨r, s'⟩
  cases r with
  | ok a =>
    constructor
    · intro h
      exact Or.inr ⟨a, s', rfl, h⟩
    · rintro (h | ⟨a', s'', heq, h⟩)
      · exact absurd (congrArg Prod.fst h) (by simp)
      · cases heq
        exact h
  | error e' => simp

/-- A call whose result is changed succeeds when the call does. -/
theorem exec_bind_pure_eq_ok {m : Call ε σ α} {f : α → β} {s t : σ} {b : β} :
    exec (m >>= fun a => pure (f a)) s = (.ok b, t) ↔
      ∃ a, exec m s = (.ok a, t) ∧ f a = b := by
  rw [exec_bind_eq_ok]
  constructor
  · rintro ⟨a, s', hm, hf⟩
    rw [exec_pure, Prod.mk.injEq, Except.ok.injEq] at hf
    obtain ⟨rfl, rfl⟩ := hf
    exact ⟨a, hm, rfl⟩
  · rintro ⟨a, hm, rfl⟩
    exact ⟨a, t, hm, rfl⟩

/-- A sequence without a state that succeeds has two parts that do. -/
theorem bind_eq_ok {first : Except ε α} {next : α → Except ε β} {b : β}
    (h : first >>= next = .ok b) : ∃ a, first = .ok a ∧ next a = .ok b := by
  cases first with
  | error e => exact absurd h (by simp [bind, Except.bind])
  | ok a => exact ⟨a, rfl, h⟩

/-- A result that is there is the result. -/
theorem eq_ok_of_toOption {x : Except ε α} {a : α} (h : x.toOption = some a) : x = .ok a := by
  cases x with
  | error e => exact absurd h (by simp [Except.toOption])
  | ok b => exact congrArg Except.ok (Option.some.inj h)

/-- The run succeeded, and what it left passes a test. -/
def okWith (test : α → σ → Bool) : Except ε α × σ → Bool
  | (.ok a, s) => test a s
  | (.error _, _) => false

/-- A run that passes a test is a successful one. -/
theorem exists_of_okWith {test : α → σ → Bool} {run : Except ε α × σ}
    (h : okWith test run = true) : ∃ a s', run = (.ok a, s') ∧ test a s' = true := by
  match run, h with
  | (.ok a, s'), h => exact ⟨a, s', rfl, h⟩

/-- What a successful run left, when the run passes a test. -/
theorem test_of_okWith {test : α → σ → Bool} {run : Except ε α × σ} {s' : σ} {a : α}
    (h : okWith test run = true) (hrun : run = (.ok a, s')) : test a s' = true := by
  rw [hrun] at h
  exact h

/-- The translation of errors leaves the state alone. -/
theorem exec_adapt {ε' : Type} (f : ε → ε') (m : Call ε σ α) (s : σ) :
    exec (ExceptT.adapt f m : Call ε' σ α) s = ((exec m s).1.mapError f, (exec m s).2) := by
  show (ExceptT.run (ExceptT.adapt f m)).run s = _
  rcases hm : exec m s with ⟨r, s'⟩
  have hrun : (ExceptT.run m).run s = (r, s') := hm
  simp only [ExceptT.run_adapt, StateT.run_map]
  rw [hrun]
  rfl

/-- A call on a part of the state. -/
def zoom (get : σ → τ) (set : τ → σ → σ) (m : Call ε τ α) : Call ε σ α :=
  ExceptT.mk fun s => ((exec m (get s)).1, set (exec m (get s)).2 s)

/-- A call on a part of the state. -/
theorem exec_zoom (get : σ → τ) (set : τ → σ → σ) (m : Call ε τ α) (s : σ) :
    exec (zoom get set m) s = ((exec m (get s)).1, set (exec m (get s)).2 s) := rfl

/-! ### Related lists -/

/-- An item of the first list is related to one of the second. -/
theorem forall₂_exists_of_mem_left {r : α → β → Prop} {l : List α} {l' : List β}
    (h : List.Forall₂ r l l') {a : α} (ha : a ∈ l) : ∃ b ∈ l', r a b := by
  induction h with
  | nil => simp at ha
  | cons hab _ ih =>
    rcases List.mem_cons.mp ha with rfl | ha
    · exact ⟨_, List.mem_cons_self, hab⟩
    · obtain ⟨b, hb, hr⟩ := ih ha
      exact ⟨b, List.mem_cons_of_mem _ hb, hr⟩

/-- An item of the second list is related to one of the first. -/
theorem forall₂_exists_of_mem_right {r : α → β → Prop} {l : List α} {l' : List β}
    (h : List.Forall₂ r l l') {b : β} (hb : b ∈ l') : ∃ a ∈ l, r a b := by
  obtain ⟨a, ha, hr⟩ := forall₂_exists_of_mem_left (r := fun b a => r a b) h.flip hb
  exact ⟨a, ha, hr⟩

/-- Related items whose measures grow, and lists whose total does not: no measure grew. -/
theorem forall₂_eq_of_sum_le {r : α → β → Prop} {f : α → Nat} {g : β → Nat} {l : List α}
    {l' : List β} (h : List.Forall₂ (fun a b => r a b ∧ f a ≤ g b) l l')
    (hsum : (l'.map g).sum ≤ (l.map f).sum) :
    List.Forall₂ (fun a b => r a b ∧ f a = g b) l l' := by
  have hle : ∀ {m : List α} {m' : List β}, List.Forall₂ (fun a b => r a b ∧ f a ≤ g b) m m' →
      (m.map f).sum ≤ (m'.map g).sum := by
    intro m m' hm
    induction hm with
    | nil => exact Nat.le_refl _
    | cons hab _ ih =>
      simp only [List.map_cons, List.sum_cons]
      have hhead := hab.2
      omega
  induction h with
  | nil => exact List.Forall₂.nil
  | cons hab htail ih =>
    have hrest := hle htail
    have hhead := hab.2
    simp only [List.map_cons, List.sum_cons] at hsum
    exact List.Forall₂.cons ⟨hab.1, by omega⟩ (ih (by omega))

/-- A map over a list that succeeds keeps the length. -/
theorem length_of_mapM {f : α → Option β} {l : List α} {l' : List β}
    (h : l.mapM f = some l') : l'.length = l.length := by
  induction l generalizing l' with
  | nil =>
    obtain rfl : [] = l' := by simpa using h
    rfl
  | cons a l ih =>
    simp only [List.mapM_cons, Option.pure_def, Option.bind_eq_bind, Option.bind_eq_some_iff,
      Option.some.injEq] at h
    obtain ⟨b, -, bs, hbs, rfl⟩ := h
    rw [List.length_cons, List.length_cons, ih hbs]

/-- A map over a list succeeds when the function does on every element. -/
theorem isSome_mapM (f : α → Option β) (l : List α) :
    (l.mapM f).isSome = l.all fun a => (f a).isSome := by
  induction l with
  | nil => rfl
  | cons a l ih =>
    rw [List.mapM_cons, List.all_cons, ← ih]
    cases f a with
    | none => rfl
    | some b => cases l.mapM f <;> rfl

/-- What a map over a list gives when it succeeds. -/
theorem mapM_eq_filterMap {f : α → Option β} {l : List α}
    (h : ∀ a ∈ l, (f a).isSome = true) : l.mapM f = some (l.filterMap f) := by
  induction l with
  | nil => rfl
  | cons a l ih =>
    obtain ⟨b, hb⟩ := Option.isSome_iff_exists.mp (h a List.mem_cons_self)
    rw [List.mapM_cons, ih fun x hx => h x (List.mem_cons_of_mem a hx), hb,
      List.filterMap_cons_some hb]
    rfl

/-! ### One run -/

/-- The state after the call is `R`-related to the state before, also when it fails. -/
def Keeps (R : σ → σ → Prop) (m : Call ε σ α) : Prop := ∀ s, R s (exec m s).2

section Keeps

variable {R : σ → σ → Prop}

/-- A call that does nothing keeps a reflexive relation. -/
theorem keeps_pure (hrefl : ∀ s, R s s) (a : α) : Keeps R (pure a : Call ε σ α) := hrefl

/-- A failure keeps a reflexive relation. -/
theorem keeps_throw (hrefl : ∀ s, R s s) (e : ε) : Keeps R (throw e : Call ε σ α) := hrefl

/-- A read keeps a reflexive relation. -/
theorem keeps_get (hrefl : ∀ s, R s s) : Keeps R (get : Call ε σ σ) := hrefl

/-- A sequence keeps a transitive relation when its parts do. -/
theorem keeps_bind (htrans : ∀ s t u, R s t → R t u → R s u) {m : Call ε σ α}
    {f : α → Call ε σ β} (hm : Keeps R m) (hf : ∀ a, Keeps R (f a)) : Keeps R (m >>= f) := by
  intro s
  rw [exec_bind]
  have h := hm s
  rcases hr : exec m s with ⟨r, s'⟩
  rw [hr] at h
  cases r with
  | ok a => exact htrans _ _ _ h (hf a s')
  | error e => exact h

/-- A loop keeps a relation when its body does. -/
theorem keeps_foldlM (hrefl : ∀ s, R s s) (htrans : ∀ s t u, R s t → R t u → R s u)
    {f : β → α → Call ε σ β} (hf : ∀ b a, Keeps R (f b a)) (l : List α) (b : β) :
    Keeps R (l.foldlM f b) := by
  induction l generalizing b with
  | nil => exact keeps_pure hrefl b
  | cons a l ih =>
    rw [List.foldlM_cons]
    exact keeps_bind htrans (hf b a) fun b' => ih b'

/-- A map over a list keeps a relation when its body does. -/
theorem keeps_mapM (hrefl : ∀ s, R s s) (htrans : ∀ s t u, R s t → R t u → R s u)
    {f : α → Call ε σ β} (hf : ∀ a, Keeps R (f a)) (l : List α) : Keeps R (l.mapM f) := by
  induction l with
  | nil =>
    rw [List.mapM_nil]
    exact keeps_pure hrefl []
  | cons a l ih =>
    rw [List.mapM_cons]
    exact keeps_bind htrans (hf a) fun b => keeps_bind htrans ih fun bs => keeps_pure hrefl _

/-- A map over a list that succeeds has a body that succeeds on every item, in a state related
to the first one. -/
theorem exec_mapM_eq_ok (hrefl : ∀ s, R s s) (htrans : ∀ s t u, R s t → R t u → R s u)
    {f : α → Call ε σ β} (hf : ∀ a, Keeps R (f a)) {l : List α} {bs : List β} {s s' : σ}
    (h : exec (l.mapM f) s = (.ok bs, s')) :
    List.Forall₂ (fun a b => ∃ t t', R s t ∧ exec (f a) t = (.ok b, t')) l bs := by
  induction l generalizing s bs with
  | nil =>
    rw [List.mapM_nil, exec_pure, Prod.mk.injEq, Except.ok.injEq] at h
    rw [← h.1]
    exact List.Forall₂.nil
  | cons a l ih =>
    rw [List.mapM_cons] at h
    obtain ⟨b, t, hb, hrest⟩ := exec_bind_eq_ok.mp h
    obtain ⟨bs', hbs, rfl⟩ := exec_bind_pure_eq_ok.mp hrest
    have hst : R s t := by
      have hkeep := hf a s
      rwa [hb] at hkeep
    refine List.Forall₂.cons ⟨s, t, hrefl s, hb⟩ ((ih hbs).imp ?_)
    rintro a' b' ⟨u, u', htu, hok⟩
    exact ⟨u, u', htrans _ _ _ hst htu, hok⟩

end Keeps

/-- A map over a list whose body always succeeds and leaves the state. -/
theorem exec_mapM_of_forall {f : α → Call ε σ β} {g : α → β} {l : List α} {s : σ}
    (h : ∀ a ∈ l, exec (f a) s = (.ok (g a), s)) :
    exec (l.mapM f) s = (.ok (l.map g), s) := by
  induction l with
  | nil => rfl
  | cons a l ih =>
    rw [List.mapM_cons, exec_bind_ok (h a List.mem_cons_self),
      exec_bind_ok (ih fun b hb => h b (List.mem_cons_of_mem _ hb)), exec_pure, List.map_cons]

/-! ### Two runs -/

/-- Two outcomes that agree: the same failure, or related results, and related states. -/
def Agree (R : σ → τ → Prop) (A : α → β → Prop) : Except ε α × σ → Except ε β × τ → Prop
  | (.ok a, s), (.ok b, t) => A a b ∧ R s t
  | (.error d, s), (.error e, t) => d = e ∧ R s t
  | _, _ => False

/-- Outcomes that agree leave related states. -/
theorem Agree.states {R : σ → τ → Prop} {A : α → β → Prop} {x : Except ε α × σ}
    {y : Except ε β × τ} (h : Agree R A x y) : R x.2 y.2 := by
  match x, y, h with
  | (.ok _, _), (.ok _, _), h => exact h.2
  | (.error _, _), (.error _, _), h => exact h.2

/-- From related states the two calls have outcomes that agree. -/
def Lockstep (R : σ → τ → Prop) (A : α → β → Prop) (m : Call ε σ α) (n : Call ε τ β) : Prop :=
  ∀ s t, R s t → Agree R A (exec m s) (exec n t)

section Lockstep

variable {R : σ → τ → Prop}

/-- Related results. -/
theorem lockstep_pure {A : α → β → Prop} {a : α} {b : β} (h : A a b) :
    Lockstep R A (pure a : Call ε σ α) (pure b) := fun _ _ hst => ⟨h, hst⟩

/-- The same failure. -/
theorem lockstep_throw (A : α → β → Prop) (e : ε) :
    Lockstep R A (throw e : Call ε σ α) (throw e) := fun _ _ hst => ⟨rfl, hst⟩

/-- Two sequences go in lockstep when their parts do. -/
theorem lockstep_bind {A : α → β → Prop} {B : γ → δ → Prop} {m : Call ε σ α} {n : Call ε τ β}
    {f : α → Call ε σ γ} {g : β → Call ε τ δ} (hm : Lockstep R A m n)
    (hf : ∀ a b, A a b → Lockstep R B (f a) (g b)) : Lockstep R B (m >>= f) (n >>= g) := by
  intro s t hst
  rw [exec_bind, exec_bind]
  have h := hm s t hst
  rcases hms : exec m s with ⟨r, s'⟩
  rcases hnt : exec n t with ⟨q, t'⟩
  rw [hms, hnt] at h
  match r, q, h with
  | .ok a, .ok b, h => exact hf a b h.1 s' t' h.2
  | .error d, .error e, h => exact h

/-- A call goes in lockstep with itself. -/
theorem lockstep_self (m : Call ε σ α) : Lockstep Eq Eq m m := by
  intro s t hst
  rw [hst]
  rcases exec m t with ⟨r, u⟩
  cases r with
  | ok a => exact ⟨rfl, rfl⟩
  | error e => exact ⟨rfl, rfl⟩

/-- Weaker relations on the results. -/
theorem Lockstep.imp {A B : α → β → Prop} {m : Call ε σ α} {n : Call ε τ β}
    (h : Lockstep R A m n) (hAB : ∀ a b, A a b → B a b) : Lockstep R B m n := by
  intro s t hst
  have hrel := h s t hst
  rcases hms : exec m s with ⟨r, s'⟩
  rcases hnt : exec n t with ⟨q, t'⟩
  rw [hms, hnt] at hrel
  match r, q, hrel with
  | .ok a, .ok b, hrel => exact ⟨hAB a b hrel.1, hrel.2⟩
  | .error d, .error e, hrel => exact hrel

end Lockstep

end Fallible
