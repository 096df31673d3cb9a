import Gabriel.Lib.Replace

/-!
# `Gabriel.Lib.Scan`: passes over a text

A pass reads a text from the left and writes another one. `scan` is the loop of it: at each turn it
looks at the character before and at what is left, writes something, and moves on by some
characters.

`Covered` relates a text to one in which some stretches are covered by masks. A pass whose turns
copy or cover is such a relation. A pass can also say where it puts a mask: then it writes marks,
and without them it is the pass again. The theorems:

* `scan_induction`: induction along the turns.
* `scan_unmark`, `mem_scan`: a pass that says where it puts a mask.
* `covered_scan`: a pass covers, when each of its turns does.
* `Covered.uncovered`: a pattern that the masks do not overlap is found in the result only if it was
  there before.
* `scan_eq_self`: a pass has copied when its masks are not in the result.
* `scan_append`: a pass whose turns do not look at what comes behind.
* `Comes.scan`: what stands before a turn that the pass comes to (`Comes`) is covered.
-/

set_option autoImplicit false

namespace Text

variable {α β : Type*}

/-- The loop of a pass: `turn` is given the character before and what is left, and says what is
written and how many characters are read. At least one is read. -/
def scan (turn : Option α → List α → List β × Nat) (before : Option α) (t : List α) : List β :=
  match t with
  | [] => []
  | c :: rest =>
    let (written, read) := turn before (c :: rest)
    written ++ scan turn ((c :: rest).take (max 1 read)).getLast? ((c :: rest).drop (max 1 read))
termination_by t.length
decreasing_by
  rw [List.length_drop, List.length_cons]
  omega

variable {turn : Option α → List α → List α × Nat}

/-- There is nothing to read in the empty list. -/
@[simp] theorem scan_nil (turn : Option α → List α → List β × Nat) (before : Option α) :
    scan turn before [] = [] := by
  rw [scan]

/-- One turn. -/
theorem scan_turn {turn : Option α → List α → List β × Nat} {before : Option α} {t : List α}
    {written : List β} {read : Nat} (ht : t ≠ []) (h : turn before t = (written, read))
    (hread : 1 ≤ read) :
    scan turn before t = written ++ scan turn (t.take read).getLast? (t.drop read) := by
  cases t with
  | nil => exact absurd rfl ht
  | cons c rest =>
    rw [scan, h]
    show written ++ scan turn ((c :: rest).take (max 1 read)).getLast? _ = _
    rw [max_eq_right hread]

/-- A turn that copies one character. -/
theorem scan_copy {before : Option α} {c : α} {rest : List α}
    (h : turn before (c :: rest) = ([c], 1)) :
    scan turn before (c :: rest) = c :: scan turn (some c) rest :=
  scan_turn (List.cons_ne_nil _ _) h (Nat.le_refl 1)

/-- A pass that copies one character at each turn. -/
theorem scan_of_copies {t : List α}
    (h : ∀ before u, u <:+ t → u ≠ [] → turn before u = (u.take 1, 1)) (before : Option α) :
    scan turn before t = t := by
  induction t generalizing before with
  | nil => exact scan_nil turn before
  | cons c t ih =>
    have hcopy := h before (c :: t) (List.suffix_refl _) (List.cons_ne_nil c t)
    rw [scan_copy hcopy, ih (fun b u hu => h b u (hu.trans (List.suffix_cons c t)))]

/-- Induction along the turns of a pass that reads something at each. -/
theorem scan_induction (hread : ∀ before t, t ≠ [] → 1 ≤ (turn before t).2)
    {motive : Option α → List α → Prop} (nil : ∀ before, motive before [])
    (turned : ∀ before t, t ≠ [] →
      motive (t.take (turn before t).2).getLast? (t.drop (turn before t).2) → motive before t)
    (before : Option α) (t : List α) : motive before t := by
  induction hn : t.length using Nat.strong_induction_on generalizing before t with
  | _ n ih =>
    by_cases ht : t = []
    · rw [ht]
      exact nil before
    · refine turned before t ht (ih _ ?_ _ _ rfl)
      have hone := hread before t ht
      have hpos := List.length_pos_iff.mpr ht
      rw [List.length_drop]
      omega

/-- A pass whose turns do not look at the character before can start anywhere. -/
theorem scan_before (hread : ∀ before t, t ≠ [] → 1 ≤ (turn before t).2)
    (hturn : ∀ before before' t, turn before t = turn before' t) (before before' : Option α)
    (t : List α) : scan turn before t = scan turn before' t := by
  cases t with
  | nil => rw [scan_nil, scan_nil]
  | cons c t =>
    have hne : c :: t ≠ [] := List.cons_ne_nil c t
    rw [scan_turn hne rfl (hread before _ hne), hturn before before',
      ← scan_turn hne rfl (hread before' _ hne)]

/-- What a pass writes, when it says where it puts a mask. -/
theorem scan_unmark {marks : Option α → List α → List (α ⊕ List α) × Nat}
    (hread : ∀ before t, t ≠ [] → 1 ≤ (turn before t).2)
    (hmarks : ∀ before t, turn before t = (unmark (marks before t).1, (marks before t).2))
    (before : Option α) (t : List α) : scan turn before t = unmark (scan marks before t) := by
  induction before, t using scan_induction hread with
  | nil before => rw [scan_nil, scan_nil, unmark_nil]
  | turned before t ht ih =>
    have hone := hread before t ht
    rw [hmarks] at hone ih
    rw [scan_turn ht (hmarks before t) hone, ih, ← unmark_append, ← scan_turn ht rfl hone]

/-- What a pass that says where it puts a mask does not copy is a mask of one of its turns. -/
theorem mem_scan {marks : Option α → List α → List β × Nat}
    (hread : ∀ before t, t ≠ [] → 1 ≤ (marks before t).2) {before : Option α} {t : List α} {x : β}
    (h : x ∈ scan marks before t) : ∃ before t, x ∈ (marks before t).1 := by
  induction hn : t.length using Nat.strong_induction_on generalizing before t with
  | _ n ih =>
    by_cases ht : t = []
    · rw [ht, scan_nil] at h
      exact absurd h List.not_mem_nil
    · have hone := hread before t ht
      rw [scan_turn ht rfl hone] at h
      rcases List.mem_append.mp h with h | h
      · exact ⟨before, t, h⟩
      · have hpos := List.length_pos_iff.mpr ht
        exact ih _ (by rw [← hn, List.length_drop]; omega) h rfl

/-! ### Covering -/

/-- The second text is the first one with some stretches covered by masks. -/
inductive Covered (masks : List (List α)) : List α → List α → Prop where
  | nil : Covered masks [] []
  | keep (c : α) {t out : List α} (h : Covered masks t out) : Covered masks (c :: t) (c :: out)
  | cover (stretch : List α) {mask t out : List α} (hmask : mask ∈ masks)
      (h : Covered masks t out) :
    Covered masks (stretch ++ t) (mask ++ out)

namespace Covered

variable {masks : List (List α)}

/-- A list that stays is covered. -/
theorem refl (masks : List (List α)) (t : List α) : Covered masks t t := by
  induction t with
  | nil => exact .nil
  | cons c t ih => exact .keep c ih

/-- Two covered lists, one after the other. -/
theorem append {s s' t t' : List α} (h : Covered masks s s') (h' : Covered masks t t') :
    Covered masks (s ++ t) (s' ++ t') := by
  induction h with
  | nil => exact h'
  | keep c h ih => exact .keep c ih
  | cover stretch hmask h ih =>
    rw [List.append_assoc, List.append_assoc]
    exact .cover stretch hmask ih

/-- One stretch. -/
theorem stretch {mask : List α} (s : List α) (hmask : mask ∈ masks) : Covered masks s mask := by
  have h := Covered.cover s hmask (.nil : Covered masks [] [])
  rwa [List.append_nil, List.append_nil] at h

/-- Nothing is left of nothing only. -/
theorem eq_nil {t : List α} (h : Covered masks t []) (hmasks : [] ∉ masks) : t = [] := by
  generalize hout : ([] : List α) = out at h
  cases h with
  | nil => rfl
  | keep c h => exact absurd hout.symm (List.cons_ne_nil _ _)
  | cover stretch hmask h =>
    rw [(List.append_eq_nil_iff.mp hout.symm).1] at hmask
    exact absurd hmask hmasks

/-- Read from the right, a covered text is one as well. -/
theorem reverse {t out : List α} (h : Covered masks t out) :
    Covered (masks.map List.reverse) t.reverse out.reverse := by
  induction h with
  | nil => exact .nil
  | keep c h ih =>
    rw [List.reverse_cons, List.reverse_cons]
    exact ih.append (.refl _ [c])
  | cover stretch hmask h ih =>
    rw [List.reverse_append, List.reverse_append]
    exact ih.append (.stretch stretch.reverse (List.mem_map_of_mem hmask))

/-- The end of a pattern that the masks do not overlap is not covered where the text begins with
it. -/
theorem uncovered_front {t out p q : List α} (h : Covered masks t out)
    (hp : ∀ mask ∈ masks, ¬ Overlap p mask) (hq : q ≠ []) (hsuf : q <:+ p) (hpre : q <+: out) :
    q <+: t := by
  induction h generalizing q with
  | nil => exact absurd (List.prefix_nil.mp hpre) hq
  | keep c h ih =>
    cases q with
    | nil => exact absurd rfl hq
    | cons d q =>
      obtain ⟨rfl, htail⟩ := List.cons_prefix_cons.mp hpre
      by_cases hnil : q = []
      · rw [hnil]
        exact List.prefix_append [d] _
      · exact List.cons_prefix_cons.mpr
          ⟨rfl, ih hnil ((List.suffix_cons d q).trans hsuf) htail⟩
  | @cover stretch mask t out hmask h ih =>
    rcases List.prefix_or_prefix_of_prefix hpre (List.prefix_append mask out) with hin | hover
    · exact absurd (Or.inr (Or.inr (Or.inl ⟨q, (List.mem_tails _ _).mpr hsuf, hq, hin⟩)))
        (hp mask hmask)
    · exact absurd (Or.inl (hover.isInfix.trans hsuf.isInfix)) (hp mask hmask)

/-- What the masks do not overlap is uncovered: it was there before. -/
theorem uncovered {t out p : List α} (h : Covered masks t out)
    (hp : ∀ mask ∈ masks, ¬ Overlap p mask) (hne : p ≠ []) (hout : p <:+: out) : p <:+: t := by
  induction h with
  | nil => exact hout
  | @keep c t out h ih =>
    rcases List.infix_cons_iff.mp hout with hpre | hin
    · exact ((Covered.keep c h).uncovered_front hp hne (List.suffix_refl p) hpre).isInfix
    · exact (ih hin).trans (List.suffix_cons c t).isInfix
  | @cover stretch mask t out hmask h ih =>
    rw [infix_fixed_left_iff (hp mask hmask)] at hout
    exact (ih hout).trans (List.suffix_append stretch t).isInfix

end Covered

/-- A pass covers, when each of its turns does. -/
theorem covered_scan {masks : List (List α)} (hread : ∀ before t, t ≠ [] → 1 ≤ (turn before t).2)
    (hturn : ∀ before t, t ≠ [] → Covered masks (t.take (turn before t).2) (turn before t).1)
    (before : Option α) (t : List α) : Covered masks t (scan turn before t) := by
  induction before, t using scan_induction hread with
  | nil before =>
    rw [scan_nil]
    exact .nil
  | turned before t ht ih =>
    rw [scan_turn ht rfl (hread before t ht)]
    have h := (hturn before t ht).append ih
    rwa [List.take_append_drop] at h

/-- A pass whose turns copy, or write a character that is not in the result, has copied. -/
theorem scan_eq_self {x : α} (hread : ∀ before t, t ≠ [] → 1 ≤ (turn before t).2)
    (hturn : ∀ before t, t ≠ [] →
      (turn before t).1 = t.take (turn before t).2 ∨ x ∈ (turn before t).1)
    {before : Option α} {t : List α} (h : x ∉ scan turn before t) : scan turn before t = t := by
  induction before, t using scan_induction hread with
  | nil before => exact scan_nil turn before
  | turned before t ht ih =>
    rw [scan_turn ht rfl (hread before t ht), List.mem_append, not_or] at h
    rw [scan_turn ht rfl (hread before t ht), ih h.2,
      (hturn before t ht).resolve_right h.1, List.take_append_drop]

/-- A pass whose turns do not look at `tail` reads up to it, and then goes on with it. -/
theorem scan_append {tail : List α} (hread : ∀ before t, t ≠ [] → 1 ≤ (turn before t).2)
    (hturn : ∀ before t, t ≠ [] →
      turn before (t ++ tail) = turn before t ∧ (turn before t).2 ≤ t.length)
    (before : Option α) (t : List α) :
    scan turn before (t ++ tail) = scan turn before t ++ scan turn (t.getLast?.or before) tail := by
  induction before, t using scan_induction hread with
  | nil before => rw [scan_nil, List.nil_append, List.nil_append, List.getLast?_nil, Option.none_or]
  | turned before t ht ih =>
    obtain ⟨hsame, hlen⟩ := hturn before t ht
    have hone := hread before t ht
    have hne : t ++ tail ≠ [] := List.append_ne_nil_of_left_ne_nil ht tail
    rw [scan_turn hne (hsame.trans rfl) hone, scan_turn ht rfl hone,
      List.take_append_of_le_length hlen, List.drop_append_of_le_length hlen, ih, List.append_assoc]
    congr 3
    -- The last character that was read stands before the tail.
    have hlast : t.getLast? = (t.drop (turn before t).2).getLast?.or
        (t.take (turn before t).2).getLast? := by
      conv_lhs => rw [← List.take_append_drop (turn before t).2 t]
      exact List.getLast?_append
    have htake : t.take (turn before t).2 ≠ [] := by
      intro hnil
      have hcount := congrArg List.length hnil
      have hpos := List.length_pos_iff.mpr ht
      rw [List.length_take, List.length_nil] at hcount
      omega
    rw [hlast, List.getLast?_eq_some_getLast htake, Option.or_assoc, Option.some_or]

/-! ### Coming to a turn -/

/-- A pass over `t` comes to a turn at `u`. -/
inductive Comes (turn : Option α → List α → List α × Nat) : Option α → List α → List α → Prop where
  | here (before : Option α) (t : List α) : Comes turn before t t
  | turned {before : Option α} {t u : List α} (ht : t ≠ [])
      (h : Comes turn (t.take (turn before t).2).getLast? (t.drop (turn before t).2) u) :
      Comes turn before t u

/-- A pass comes to what is at the end of the text. -/
theorem Comes.suffix {before : Option α} {t u : List α} (h : Comes turn before t u) : u <:+ t := by
  induction h with
  | here before t => exact List.suffix_refl t
  | turned ht h ih => exact ih.trans (List.drop_suffix _ _)

/-- A pass that covers has covered what stands before a turn that it comes to. -/
theorem Comes.scan {masks : List (List α)} {before : Option α} {t u : List α}
    (h : Comes turn before t u) (hread : ∀ before t, t ≠ [] → 1 ≤ (turn before t).2)
    (hturn : ∀ before t, t ≠ [] → Covered masks (t.take (turn before t).2) (turn before t).1) :
    ∃ front covered before', t = front ++ u ∧ Covered masks front covered ∧
      Text.scan turn before t = covered ++ Text.scan turn before' u := by
  induction h with
  | here before t => exact ⟨[], [], before, rfl, .nil, rfl⟩
  | @turned before t u ht h ih =>
    obtain ⟨front, covered, before', hfront, hcovered, hscan⟩ := ih
    refine ⟨t.take (turn before t).2 ++ front, (turn before t).1 ++ covered, before', ?_,
      (hturn before t ht).append hcovered, ?_⟩
    · rw [List.append_assoc, ← hfront, List.take_append_drop]
    · rw [scan_turn ht rfl (hread before t ht), hscan, List.append_assoc]

end Text
