import Gabriel.Lib.Text

/-!
# `Gabriel.Lib.Replace`: replacing a pattern, and patterns that do not meet

`replace` puts a text in the place of every occurrence of a pattern, as `str::replace` does.
`Overlap` says that an occurrence of a pattern can share characters with a fixed text. A pattern
that does not overlap a text does not reach over it, and everything here follows from that: what is
left of a pattern after it was replaced, and how a replacement acts on the pieces between the
occurrences of another pattern.

`Pieces` are what is between the occurrences of a pattern. A join of pieces can be cut, joined and
replaced in, and stays one, so replacing several patterns by one text fills the places that `cutAll`
leaves between the pieces none of them is in. The theorems:

* `infix_fixed_iff`: a pattern that does not overlap a text does not reach over it.
* `infix_intercalate_iff`, `infix_unmark_iff`: the same in filled pieces, and in a marked text.
* `split_induction`: induction along the occurrences of a pattern.
* `not_infix_replace`: a replaced pattern is gone, when it does not overlap what replaces it.
* `Pieces.map_replace`: the pieces stay pieces when another pattern is replaced in them.
* `not_infix_replaceAll`, `replaceAll_fixed`: several patterns.
* `replaceAll_eq_intercalate`: a replaced text is its pieces with the new text in between.
-/

set_option autoImplicit false

namespace Text

variable {α : Type*}

/-! ### Patterns that do not meet -/

/-- An occurrence of `v` can share characters with `f`. -/
def Overlap (v f : List α) : Prop :=
  f <:+: v ∨ v <:+: f ∨ (∃ w ∈ v.tails, w ≠ [] ∧ w <+: f) ∨ ∃ w ∈ v.inits, w ≠ [] ∧ w <:+ f

instance [DecidableEq α] (v f : List α) : Decidable (Overlap v f) :=
  inferInstanceAs (Decidable (_ ∨ _ ∨ _ ∨ _))

/-- A pattern that does not overlap a text does not reach over it. -/
theorem infix_fixed_iff {v f : List α} (h : ¬ Overlap v f) (a b : List α) :
    v <:+: a ++ f ++ b ↔ v <:+: a ∨ v <:+: b := by
  simp only [Overlap, not_or, List.mem_tails, List.mem_inits] at h
  obtain ⟨hinside, houtside, hstart, hend⟩ := h
  constructor
  -- The pattern lies in one of the parts, or it reaches over a border between two.
  · intro hv
    rw [List.append_assoc] at hv
    rcases List.infix_append_iff.mp hv with hv | hv | ⟨l, l', rfl, hl, hl'⟩
    · exact Or.inl hv
    · rcases List.infix_append_iff.mp hv with hv | hv | ⟨l, l', rfl, hl, hl'⟩
      · exact absurd hv houtside
      · exact Or.inr hv
      -- It reaches over the end of the fixed text, which would be an overlap at its end.
      · by_cases hnil : l = []
        · rw [hnil, List.nil_append]
          exact Or.inr hl'.isInfix
        · exact absurd ⟨l, List.prefix_append l l', hnil, hl⟩ hend
    -- It reaches over its front, and either ends inside the fixed text or holds it whole.
    · by_cases hnil : l' = []
      · rw [hnil, List.append_nil]
        exact Or.inl hl.isInfix
      · rcases List.prefix_or_prefix_of_prefix hl' (List.prefix_append f b) with hl' | ⟨m, rfl⟩
        · exact absurd ⟨l', List.suffix_append l l', hnil, hl'⟩ hstart
        · exact absurd ⟨l, m, by simp⟩ hinside
  · rintro (hv | hv)
    · exact (hv.trans (List.prefix_append a f).isInfix).trans (List.prefix_append _ b).isInfix
    · exact hv.trans (List.suffix_append (a ++ f) b).isInfix

/-- The same, with nothing in front of the text. -/
theorem infix_fixed_left_iff {v f : List α} (h : ¬ Overlap v f) (b : List α) :
    v <:+: f ++ b ↔ v <:+: b := by
  have hiff := infix_fixed_iff h [] b
  rw [List.nil_append] at hiff
  rw [hiff, or_iff_right]
  intro hnil
  rw [List.eq_nil_of_infix_nil hnil] at h
  exact h (Or.inr (Or.inl List.nil_infix))

/-- The same, with nothing behind the text. -/
theorem infix_fixed_right_iff {v f : List α} (h : ¬ Overlap v f) (a : List α) :
    v <:+: a ++ f ↔ v <:+: a := by
  have hiff := infix_fixed_iff h a []
  rw [List.append_nil] at hiff
  rw [hiff, or_iff_left]
  intro hnil
  rw [List.eq_nil_of_infix_nil hnil] at h
  exact h (Or.inr (Or.inl List.nil_infix))

/-- A pattern that does not overlap a text is not empty. -/
theorem ne_nil_of_not_overlap {v f : List α} (h : ¬ Overlap v f) : v ≠ [] := by
  rintro rfl
  exact h (Or.inr (Or.inl List.nil_infix))

/-! ### Filled pieces -/

/-- A text stands in filled pieces when it stands in one of them. -/
theorem infix_intercalate_iff {v hole : List α} (h : ¬ Overlap v hole) (ps : List (List α)) :
    v <:+: List.intercalate hole ps ↔ ∃ p ∈ ps, v <:+: p := by
  induction ps with
  | nil =>
    have hne := ne_nil_of_not_overlap h
    simpa using hne
  | cons piece rest ih =>
    cases rest with
    | nil => simp
    | cons next rest =>
      rw [List.intercalate_cons_cons, infix_fixed_iff h, ih]
      simp

/-- Joins of joins. -/
theorem intercalate_append_of_ne_nil {hole : List α} {ps qs : List (List α)} (hps : ps ≠ [])
    (hqs : qs ≠ []) :
    List.intercalate hole (ps ++ qs)
      = List.intercalate hole ps ++ hole ++ List.intercalate hole qs := by
  induction ps with
  | nil => exact absurd rfl hps
  | cons piece rest ih =>
    by_cases hrest : rest = []
    · rw [hrest, List.singleton_append, List.intercalate_cons_of_ne_nil hqs,
        List.intercalate_singleton]
    · have hne : rest ++ qs ≠ [] := List.append_ne_nil_of_left_ne_nil hrest qs
      rw [List.cons_append, List.intercalate_cons_of_ne_nil hne, ih hrest,
        List.intercalate_cons_of_ne_nil hrest]
      simp only [List.append_assoc]

/-- Filling the pieces of pieces. -/
theorem intercalate_flatMap {hole : List α} {f : List α → List (List α)} (hf : ∀ p, f p ≠ [])
    (ps : List (List α)) :
    List.intercalate hole (ps.flatMap f)
      = List.intercalate hole (ps.map fun p => List.intercalate hole (f p)) := by
  induction ps with
  | nil => rfl
  | cons piece rest ih =>
    rw [List.flatMap_cons, List.map_cons]
    cases rest with
    | nil => simp
    | cons next rest =>
      have hrest : (next :: rest).flatMap f ≠ [] := by
        rw [List.flatMap_cons]
        exact List.append_ne_nil_of_left_ne_nil (hf next) _
      rw [intercalate_append_of_ne_nil (hf piece) hrest, ih, List.map_cons,
        List.intercalate_cons_cons]

/-! ### Texts with marked parts -/

/-- A text some of whose parts are marked, without the marks. -/
def unmark (marked : List (α ⊕ List α)) : List α := marked.flatMap (Sum.elim (fun c => [c]) id)

/-- Nothing is left of nothing. -/
@[simp] theorem unmark_nil : unmark ([] : List (α ⊕ List α)) = [] := rfl

/-- A character that is not marked stays. -/
@[simp] theorem unmark_inl (c : α) (t : List (α ⊕ List α)) :
    unmark (Sum.inl c :: t) = c :: unmark t := rfl

/-- A marked part is read as its characters. -/
@[simp] theorem unmark_inr (p : List α) (t : List (α ⊕ List α)) :
    unmark (Sum.inr p :: t) = p ++ unmark t := rfl

/-- Two marked texts, one after the other. -/
@[simp] theorem unmark_append (s t : List (α ⊕ List α)) : unmark (s ++ t) = unmark s ++ unmark t :=
  List.flatMap_append

/-- A text without marks is read as it is. -/
@[simp] theorem unmark_map_inl (t : List α) : unmark (t.map Sum.inl) = t := by
  induction t with
  | nil => rfl
  | cons c t ih => rw [List.map_cons, unmark_inl, ih]

/-- There is no mark in it. -/
theorem inr_not_mem_map_inl (p t : List α) : Sum.inr p ∉ t.map (Sum.inl : α → α ⊕ List α) := by
  intro hmem
  obtain ⟨c, -, hc⟩ := List.mem_map.mp hmem
  exact Sum.inl_ne_inr hc

/-- The end of a pattern that no marked part overlaps is unmarked where the text begins with it. -/
theorem prefix_unmark {v q : List α} {marked : List (α ⊕ List α)}
    (hv : ∀ part, Sum.inr part ∈ marked → ¬ Overlap v part) (hq : q <:+ v)
    (h : q <+: unmark marked) : q.map Sum.inl <+: marked := by
  induction marked generalizing q with
  | nil => rw [List.prefix_nil.mp h, List.map_nil]
  | cons x marked ih =>
    cases q with
    | nil => exact List.nil_prefix
    | cons d q =>
      rcases x with c | part
      · obtain ⟨rfl, hrest⟩ := List.cons_prefix_cons.mp h
        exact List.cons_prefix_cons.mpr ⟨rfl, ih (fun part hpart => hv part
          (List.mem_cons_of_mem _ hpart)) ((List.suffix_cons d q).trans hq) hrest⟩
      · have hno := hv part List.mem_cons_self
        rcases List.prefix_or_prefix_of_prefix h (List.prefix_append part _) with hin | hover
        · exact absurd (Or.inr (Or.inr (Or.inl ⟨_, (List.mem_tails _ _).mpr hq,
            List.cons_ne_nil d q, hin⟩))) hno
        · exact absurd (Or.inl (hover.isInfix.trans hq.isInfix)) hno

/-- A pattern that no marked part overlaps stands in a text where it stands unmarked. -/
theorem infix_unmark_iff {v : List α} {marked : List (α ⊕ List α)} (hne : v ≠ [])
    (hv : ∀ part, Sum.inr part ∈ marked → ¬ Overlap v part) :
    v <:+: unmark marked ↔ v.map Sum.inl <:+: marked := by
  constructor
  · intro h
    induction marked with
    | nil => exact absurd (List.eq_nil_of_infix_nil h) hne
    | cons x marked ih =>
      have hv' : ∀ part, Sum.inr part ∈ marked → ¬ Overlap v part := fun part hpart =>
        hv part (List.mem_cons_of_mem x hpart)
      rcases x with c | part
      · rcases List.infix_cons_iff.mp h with hpre | hin
        · exact (prefix_unmark hv (List.suffix_refl v) hpre).isInfix
        · exact (ih hv' hin).trans (List.suffix_cons _ marked).isInfix
      · rw [unmark_inr, infix_fixed_left_iff (hv part List.mem_cons_self)] at h
        exact (ih hv' h).trans (List.suffix_cons _ marked).isInfix
  · rintro ⟨s, t, rfl⟩
    exact ⟨unmark s, unmark t, by simp⟩

/-! ### Sides of a text -/

/-- A pattern that does not overlap a text stands in front of it or behind it. -/
theorem side_of_not_overlap {s f u r p q : List α} (h : ¬ Overlap s f)
    (heq : u ++ f ++ r = p ++ s ++ q) :
    (∃ b, u = p ++ s ++ b) ∨ ∃ a, r = a ++ s ++ q ∧ p = u ++ f ++ a := by
  simp only [Overlap, not_or, List.mem_tails, List.mem_inits] at h
  obtain ⟨hinside, houtside, hstart, hend⟩ := h
  -- Both sides split the same text, so one front is a prefix of the other.
  have hleft : u ++ (f ++ r) = p ++ (s ++ q) := by
    rw [← List.append_assoc, heq, List.append_assoc]
  rcases List.append_eq_append_iff.mp hleft with ⟨m, rfl, hrest⟩ | ⟨m, rfl, hrest⟩
  · -- The pattern begins behind the front.
    rcases List.append_eq_append_iff.mp hrest with ⟨n, rfl, htail⟩ | ⟨n, rfl, htail⟩
    · exact Or.inr ⟨n, by rw [htail, List.append_assoc], by rw [List.append_assoc]⟩
    · by_cases hn : n = []
      · rw [hn, List.nil_append] at htail
        exact Or.inr ⟨[], by rw [List.nil_append]; exact htail.symm, by simp [hn]⟩
      · have hs : s <+: n ++ r := htail ▸ List.prefix_append s q
        rcases List.prefix_or_prefix_of_prefix hs (List.prefix_append n r) with hs | hs
        · exact absurd (hs.isInfix.trans (List.suffix_append m n).isInfix) houtside
        · exact absurd ⟨n, hs, hn, List.suffix_append m n⟩ hend
  · -- It begins in the front.
    rcases List.append_eq_append_iff.mp hrest with ⟨n, rfl, htail⟩ | ⟨n, rfl, htail⟩
    · exact Or.inl ⟨n, by rw [List.append_assoc]⟩
    · by_cases hn : n = []
      · exact Or.inl ⟨[], by simp [hn]⟩
      · have hf : n <+: f ++ r := htail ▸ List.prefix_append n q
        rcases List.prefix_or_prefix_of_prefix hf (List.prefix_append f r) with hs | hs
        · exact absurd ⟨n, List.suffix_append m n, hn, hs⟩ hstart
        · exact absurd (hs.isInfix.trans (List.suffix_append m n).isInfix) hinside

/-! ### Texts with holes -/

/-- These are the pieces between the occurrences of `pat` in their join. -/
def Pieces (pat : List α) : List (List α) → Prop
  | [] => False
  | [piece] => ¬ pat <:+: piece
  | piece :: next :: rest => ¬ pat <:+: piece ++ pat.dropLast ∧ Pieces pat (next :: rest)

/-- There is at least one piece. -/
theorem Pieces.ne_nil {pat : List α} {ps : List (List α)} (h : Pieces pat ps) : ps ≠ [] := by
  rintro rfl
  exact h

/-- A piece in front of others: the pattern is not in it, and does not begin in it. -/
theorem pieces_cons {pat piece : List α} {rest : List (List α)} (hrest : rest ≠ []) :
    Pieces pat (piece :: rest) ↔ ¬ pat <:+: piece ++ pat.dropLast ∧ Pieces pat rest := by
  cases rest with
  | nil => exact absurd rfl hrest
  | cons next rest => exact Iff.rfl

/-! ### Cutting a text with holes -/

/-- Whether the first `n` characters end inside a hole of this width. -/
def cutsHole (width : Nat) : List (List α) → Nat → Bool
  | piece :: next :: rest, n =>
    if n ≤ piece.length then false
    else n < piece.length + width ||
      cutsHole width (next :: rest) (n - (piece.length + width))
  | _, _ => false

/-- The pieces of the first `n` characters. -/
def keepPieces (width : Nat) : List (List α) → Nat → List (List α)
  | piece :: next :: rest, n =>
    if n ≤ piece.length then [piece.take n]
    else piece :: keepPieces width (next :: rest) (n - (piece.length + width))
  | [piece], n => [piece.take n]
  | [], _ => []

/-- A cut keeps at least one piece. -/
theorem keepPieces_ne_nil (width : Nat) {ps : List (List α)} (h : ps ≠ []) (n : Nat) :
    keepPieces width ps n ≠ [] := by
  cases ps with
  | nil => exact absurd rfl h
  | cons piece rest =>
    cases rest with
    | nil => exact List.cons_ne_nil _ _
    | cons next rest =>
      rw [keepPieces]
      split
      · exact List.cons_ne_nil _ _
      · exact List.cons_ne_nil _ _

/-- A cut outside the holes cuts a piece. -/
theorem take_intercalate {hole : List α} {ps : List (List α)} {n : Nat}
    (h : cutsHole hole.length ps n = false) :
    (List.intercalate hole ps).take n
      = List.intercalate hole (keepPieces hole.length ps n) := by
  induction ps generalizing n with
  | nil => rw [keepPieces, List.intercalate_nil, List.take_nil]
  | cons piece rest ih =>
    cases rest with
    | nil => rw [keepPieces, List.intercalate_singleton, List.intercalate_singleton]
    | cons next rest =>
      have hne : next :: rest ≠ [] := List.cons_ne_nil _ _
      rw [cutsHole] at h
      rw [keepPieces, List.intercalate_cons_of_ne_nil hne]
      by_cases hn : n ≤ piece.length
      · rw [if_pos hn, List.intercalate_singleton, List.append_assoc,
          List.take_append_of_le_length hn]
      · rw [if_neg hn, Bool.or_eq_false_iff, decide_eq_false_iff_not] at h
        rw [if_neg hn, List.intercalate_cons_of_ne_nil (keepPieces_ne_nil _ hne _), ← ih h.2,
          List.take_append, List.take_of_length_le (by rw [List.length_append]; omega),
          List.length_append]

/-- What is kept of the pieces are pieces. -/
theorem Pieces.keep {pat : List α} {ps : List (List α)} (h : Pieces pat ps) (width n : Nat) :
    Pieces pat (keepPieces width ps n) := by
  induction ps generalizing n with
  | nil => exact absurd h id
  | cons piece rest ih =>
    have hclean : ∀ m, ¬ pat <:+: piece → ¬ pat <:+: piece.take m := fun m hno hin =>
      hno (hin.trans (List.take_prefix m piece).isInfix)
    cases rest with
    | nil => exact hclean n h
    | cons next rest =>
      have hne : next :: rest ≠ [] := List.cons_ne_nil _ _
      obtain ⟨hfirst, htail⟩ := (pieces_cons hne).mp h
      rw [keepPieces]
      split
      · exact hclean n fun hin => hfirst (hin.trans (List.prefix_append piece _).isInfix)
      · rw [pieces_cons (keepPieces_ne_nil _ hne _)]
        exact ⟨hfirst, ih htail _⟩

/-- A text with holes has a length that depends on the width of the holes only. -/
theorem length_intercalate_congr {hole hole' : List α} (h : hole.length = hole'.length)
    (ps : List (List α)) :
    (List.intercalate hole ps).length = (List.intercalate hole' ps).length := by
  induction ps with
  | nil => rfl
  | cons piece rest ih =>
    by_cases hrest : rest = []
    · rw [hrest, List.intercalate_singleton, List.intercalate_singleton]
    · rw [List.intercalate_cons_of_ne_nil hrest, List.intercalate_cons_of_ne_nil hrest,
        List.length_append, List.length_append, List.length_append, List.length_append, ih, h]

/-- Append a text to the last piece. -/
def appendLast (x : List α) : List (List α) → List (List α)
  | [] => []
  | [piece] => [piece ++ x]
  | piece :: next :: rest => piece :: appendLast x (next :: rest)

/-- There still is a last piece behind which something was put. -/
theorem appendLast_ne_nil (x : List α) {ps : List (List α)} (h : ps ≠ []) :
    appendLast x ps ≠ [] := by
  cases ps with
  | nil => exact absurd rfl h
  | cons piece rest =>
    cases rest with
    | nil => exact List.cons_ne_nil _ _
    | cons next rest => exact List.cons_ne_nil _ _

/-- A text behind a join is behind its last piece. -/
theorem intercalate_append {hole : List α} {ps : List (List α)} (h : ps ≠ []) (x : List α) :
    List.intercalate hole ps ++ x = List.intercalate hole (appendLast x ps) := by
  induction ps with
  | nil => exact absurd rfl h
  | cons piece rest ih =>
    cases rest with
    | nil => rw [appendLast, List.intercalate_singleton, List.intercalate_singleton]
    | cons next rest =>
      have hne : next :: rest ≠ [] := List.cons_ne_nil _ _
      rw [appendLast, List.intercalate_cons_of_ne_nil hne,
        List.intercalate_cons_of_ne_nil (appendLast_ne_nil x hne), List.append_assoc, ih hne]

/-- Pieces stay pieces when a text is appended that the pattern does not overlap. -/
theorem Pieces.appendLast {pat x : List α} {ps : List (List α)} (h : Pieces pat ps)
    (hx : ¬ Overlap pat x) : Pieces pat (Text.appendLast x ps) := by
  induction ps with
  | nil => exact absurd h id
  | cons piece rest ih =>
    cases rest with
    | nil =>
      show ¬ pat <:+: piece ++ x
      rwa [infix_fixed_right_iff hx]
    | cons next rest =>
      have hne : next :: rest ≠ [] := List.cons_ne_nil _ _
      obtain ⟨hfirst, htail⟩ := (pieces_cons hne).mp h
      rw [Text.appendLast, pieces_cons (appendLast_ne_nil x hne)]
      exact ⟨hfirst, ih htail⟩

/-! ### The pieces between the occurrences -/

variable [DecidableEq α]

/-- The split is at the first occurrence: none begins before it. -/
theorem splitOnce_eq_some_iff_absent {pat t a b : List α} (hpat : pat ≠ []) :
    splitOnce pat t = some (a, b) ↔ t = a ++ pat ++ b ∧ ¬ pat <:+: a ++ pat.dropLast := by
  have hlength : pat.length ≠ 0 := by simpa using hpat
  rw [splitOnce_eq_some_iff]
  -- The split says that the pattern starts nowhere before; here it is not in the front at all.
  refine and_congr_right fun _ => ?_
  constructor
  · rintro hfirst ⟨p, s, hps⟩
    have hcount := congrArg List.length hps
    simp only [List.length_append, List.length_dropLast] at hcount
    -- An occurrence in the front starts early enough to be one that the split excludes.
    obtain ⟨w, hw⟩ : p <+: a := by
      have hp : p <+: a ++ pat.dropLast := by
        rw [← hps, List.append_assoc]
        exact List.prefix_append _ _
      exact List.prefix_of_prefix_length_le hp (List.prefix_append _ _) (by omega)
    have hne : w ≠ [] := by
      rintro rfl
      rw [List.append_nil] at hw
      rw [hw] at hcount
      omega
    refine hfirst p w hw.symm hne ?_
    -- What follows the start is the rest of the front and the pattern without its last character.
    have hrest : pat ++ s = w ++ pat.dropLast := by
      rw [← hw, List.append_assoc, List.append_assoc] at hps
      exact List.append_cancel_left hps
    refine (List.prefix_append pat s).trans ?_
    rw [hrest, List.append_assoc]
    exact List.prefix_append_right_inj w |>.mpr
      ((List.dropLast_prefix pat).trans (List.prefix_append pat b))
  -- An occurrence that starts in the front ends before the last character of the split.
  · rintro hno p w rfl hne hpre
    have hlong : 0 < w.length := List.length_pos_iff.mpr hne
    refine hno ?_
    have hcut : pat <+: w ++ pat.dropLast := by
      have hfront : w ++ pat.dropLast <+: w ++ pat ++ b := by
        rw [List.append_assoc]
        exact List.prefix_append_right_inj w |>.mpr
          ((List.dropLast_prefix pat).trans (List.prefix_append pat b))
      refine List.prefix_of_prefix_length_le hpre hfront ?_
      rw [List.length_append, List.length_dropLast]
      omega
    rw [List.append_assoc]
    exact hcut.isInfix.trans (List.suffix_append p _).isInfix

/-- More fuel than characters changes nothing. -/
theorem splitSeqFuel_eq {pat : List α} (hpat : pat ≠ []) {fuel : Nat} {t : List α}
    (h : t.length ≤ fuel) : splitSeqFuel pat fuel t = splitSeq pat t := by
  have hlength : 0 < pat.length := List.length_pos_iff.mpr hpat
  -- Two amounts of fuel that are enough give the same pieces.
  have key : ∀ (m n : Nat) (t : List α), t.length ≤ m → t.length ≤ n →
      splitSeqFuel pat m t = splitSeqFuel pat n t := by
    intro m
    induction m with
    | zero =>
      intro n t hm _
      rw [List.length_eq_zero_iff.mp (Nat.le_zero.mp hm)]
      have hnone : splitOnce pat [] = none := by
        rw [splitOnce_eq_none_iff]
        exact fun hin => hpat (List.eq_nil_of_infix_nil hin)
      cases n with
      | zero => rfl
      | succ n => rw [splitSeqFuel, splitSeqFuel, hnone]
    | succ m ih =>
      intro n t hm hn
      cases hsplit : splitOnce pat t with
      | none =>
        cases n with
        | zero => rw [splitSeqFuel, splitSeqFuel, hsplit]
        | succ n => rw [splitSeqFuel, splitSeqFuel, hsplit]
      | some cut =>
        obtain ⟨a, b⟩ := cut
        have hcount := congrArg List.length (eq_of_splitOnce hsplit)
        simp only [List.length_append] at hcount
        cases n with
        | zero => omega
        | succ n =>
          rw [splitSeqFuel, splitSeqFuel, hsplit]
          show a :: splitSeqFuel pat m b = a :: splitSeqFuel pat n b
          rw [ih n b (by omega) (by omega)]
  exact key _ _ t h (Nat.le_refl _)

/-- A text without the pattern is one piece. -/
theorem splitSeq_of_absent {pat t : List α} (h : ¬ pat <:+: t) : splitSeq pat t = [t] := by
  unfold splitSeq
  cases t with
  | nil => rfl
  | cons c cs =>
    rw [List.length_cons, splitSeqFuel, splitOnce_eq_none_iff.mpr h]

/-- The pieces of a text with the pattern: what is before it, and the pieces of the rest. -/
theorem splitSeq_of_splitOnce {pat t a b : List α} (hpat : pat ≠ [])
    (h : splitOnce pat t = some (a, b)) : splitSeq pat t = a :: splitSeq pat b := by
  have hlength : 0 < pat.length := List.length_pos_iff.mpr hpat
  have hcount := congrArg List.length (eq_of_splitOnce h)
  simp only [List.length_append] at hcount
  cases hn : t.length with
  | zero => omega
  | succ n =>
    show splitSeqFuel pat t.length t = _
    rw [hn, splitSeqFuel, h]
    show a :: splitSeqFuel pat n b = _
    rw [splitSeqFuel_eq hpat (by omega)]

/-- Induction along the occurrences of a pattern. -/
theorem split_induction {pat : List α} (hpat : pat ≠ []) {motive : List α → Prop}
    (clean : ∀ t, ¬ pat <:+: t → motive t)
    (cut : ∀ a b, ¬ pat <:+: a ++ pat.dropLast → motive b → motive (a ++ pat ++ b))
    (t : List α) : motive t := by
  have hlength : 0 < pat.length := List.length_pos_iff.mpr hpat
  induction hn : t.length using Nat.strong_induction_on generalizing t with
  | _ n ih =>
    cases hsplit : splitOnce pat t with
    | none => exact clean t (splitOnce_eq_none_iff.mp hsplit)
    | some found =>
      obtain ⟨rfl, hfirst⟩ := (splitOnce_eq_some_iff_absent hpat).mp hsplit
      simp only [List.length_append] at hn
      exact cut found.1 found.2 hfirst (ih _ (by omega) _ rfl)

/-! ### Replacing -/

/-- Put `new` in the place of every occurrence of a nonempty pattern. -/
def replace (pat new t : List α) : List α := List.intercalate new (splitSeq pat t)

variable {pat new : List α}

/-- A text without the pattern stays. -/
theorem replace_of_absent {t : List α} (h : ¬ pat <:+: t) : replace pat new t = t := by
  rw [replace, splitSeq_of_absent h, List.intercalate_singleton]

/-- There are always pieces. -/
theorem splitSeq_ne_nil (pat t : List α) : splitSeq pat t ≠ [] := by
  unfold splitSeq
  cases t.length with
  | zero => exact List.cons_ne_nil _ _
  | succ n =>
    rw [splitSeqFuel]
    split
    · exact List.cons_ne_nil _ _
    · exact List.cons_ne_nil _ _

/-- The first occurrence is replaced, and then those in the rest. -/
theorem replace_append {a : List α} (hpat : pat ≠ []) (h : ¬ pat <:+: a ++ pat.dropLast)
    (b : List α) : replace pat new (a ++ pat ++ b) = a ++ new ++ replace pat new b := by
  have hsplit : splitOnce pat (a ++ pat ++ b) = some (a, b) :=
    (splitOnce_eq_some_iff_absent hpat).mpr ⟨rfl, h⟩
  rw [replace, splitSeq_of_splitOnce hpat hsplit,
    List.intercalate_cons_of_ne_nil (splitSeq_ne_nil pat b)]
  rfl

/-- A pattern alone becomes the new text. -/
theorem replace_self (hpat : pat ≠ []) : replace pat new pat = new := by
  have hshort : ¬ pat <:+: [] ++ pat.dropLast := by
    intro hin
    have hlen := hin.length_le
    have hpos := List.length_pos_iff.mpr hpat
    rw [List.nil_append, List.length_dropLast] at hlen
    omega
  have hnil : replace pat new [] = [] :=
    replace_of_absent fun hin => hpat (List.eq_nil_of_infix_nil hin)
  have h : replace pat new ([] ++ pat ++ []) = [] ++ new ++ replace pat new [] :=
    replace_append hpat hshort []
  rwa [hnil, List.nil_append, List.nil_append, List.append_nil, List.append_nil] at h

/-- A text with the pattern has a first occurrence of it. -/
theorem exists_first {t : List α} (hpat : pat ≠ []) (h : pat <:+: t) :
    ∃ a b, t = a ++ pat ++ b ∧ ¬ pat <:+: a ++ pat.dropLast := by
  cases hsplit : splitOnce pat t with
  | none => exact absurd h (splitOnce_eq_none_iff.mp hsplit)
  | some found => exact ⟨found.1, found.2, (splitOnce_eq_some_iff_absent hpat).mp hsplit⟩

/-- A replaced pattern is gone, when it does not overlap what replaces it. -/
theorem not_infix_replace (h : ¬ Overlap pat new) (t : List α) : ¬ pat <:+: replace pat new t := by
  have hpat := ne_nil_of_not_overlap h
  induction t using split_induction hpat with
  | clean t ht => rwa [replace_of_absent ht]
  | cut a b hfirst ih =>
    rw [replace_append hpat hfirst, infix_fixed_iff h, not_or]
    exact ⟨fun ha => hfirst (ha.trans (List.prefix_append a _).isInfix), ih⟩

/-- A replacement brings in no pattern that does not overlap the new text. -/
theorem not_infix_replace_of_absent {v t : List α} (hpat : pat ≠ []) (h : ¬ Overlap v new)
    (hv : ¬ v <:+: t) : ¬ v <:+: replace pat new t := by
  induction t using split_induction hpat with
  | clean t ht => rwa [replace_of_absent ht]
  | cut a b hfirst ih =>
    rw [replace_append hpat hfirst, infix_fixed_iff h, not_or]
    constructor
    · intro ha
      rw [List.append_assoc] at hv
      exact hv (ha.trans (List.prefix_append a _).isInfix)
    · exact ih fun hb => hv (hb.trans (List.suffix_append (a ++ pat) b).isInfix)

/-- One character is replaced wherever it stands. -/
theorem replace_singleton (c : α) (t : List α) :
    replace [c] new t = t.flatMap fun d => if d = c then new else [d] := by
  have hc : [c] ≠ [] := List.cons_ne_nil _ _
  have hkeep : ∀ a : List α, ¬ [c] <:+: a
      → (a.flatMap fun d => if d = c then new else [d]) = a := by
    intro a ha
    rw [List.singleton_infix_iff] at ha
    induction a with
    | nil => rfl
    | cons d a ih =>
      rw [List.mem_cons, not_or] at ha
      rw [List.flatMap_cons, if_neg (Ne.symm ha.1), ih ha.2]
      rfl
  induction t using split_induction hc with
  | clean t ht => rw [replace_of_absent ht, hkeep t ht]
  | cut a b hfirst ih =>
    have ha : ¬ [c] <:+: a := fun h => hfirst (h.trans (List.prefix_append a _).isInfix)
    rw [replace_append hc hfirst, ih, List.flatMap_append, List.flatMap_append, hkeep a ha,
      List.flatMap_singleton, if_pos rfl]

/-- A replacement acts on both sides of a text that the pattern does not overlap. -/
theorem replace_fixed {f : List α} (h : ¬ Overlap pat f) (a b : List α) :
    replace pat new (a ++ f ++ b) = replace pat new a ++ f ++ replace pat new b := by
  have hpat := ne_nil_of_not_overlap h
  induction a using split_induction hpat with
  | clean a ha =>
    rw [replace_of_absent ha]
    induction b using split_induction hpat with
    | clean b hb =>
      rw [replace_of_absent hb, replace_of_absent]
      rw [infix_fixed_iff h, not_or]
      exact ⟨ha, hb⟩
    | cut c d hfirst ih =>
      have hwhole : a ++ f ++ (c ++ pat ++ d) = a ++ f ++ c ++ pat ++ d := by simp
      have hfirst' : ¬ pat <:+: a ++ f ++ c ++ pat.dropLast := by
        rw [List.append_assoc, infix_fixed_iff h, not_or]
        exact ⟨ha, hfirst⟩
      rw [hwhole, replace_append hpat hfirst', replace_append hpat hfirst]
      simp
  | cut c d hfirst ih =>
    have hwhole : c ++ pat ++ d ++ f ++ b = c ++ pat ++ (d ++ f ++ b) := by simp
    rw [hwhole, replace_append hpat hfirst, replace_append hpat hfirst, ih]
    simp

/-! ### Replacing in a text with holes -/

/-- A text is the join of its pieces. -/
theorem intercalate_splitSeq (hpat : pat ≠ []) (t : List α) :
    List.intercalate pat (splitSeq pat t) = t := by
  induction t using split_induction hpat with
  | clean t ht => rw [splitSeq_of_absent ht, List.intercalate_singleton]
  | cut a b hfirst ih =>
    have hsplit : splitOnce pat (a ++ pat ++ b) = some (a, b) :=
      (splitOnce_eq_some_iff_absent hpat).mpr ⟨rfl, hfirst⟩
    rw [splitSeq_of_splitOnce hpat hsplit,
      List.intercalate_cons_of_ne_nil (splitSeq_ne_nil pat b), ih]

/-- What `splitSeq` returns are the pieces. -/
theorem pieces_splitSeq (hpat : pat ≠ []) (t : List α) : Pieces pat (splitSeq pat t) := by
  induction t using split_induction hpat with
  | clean t ht => rwa [splitSeq_of_absent ht]
  | cut a b hfirst ih =>
    have hsplit : splitOnce pat (a ++ pat ++ b) = some (a, b) :=
      (splitOnce_eq_some_iff_absent hpat).mpr ⟨rfl, hfirst⟩
    rw [splitSeq_of_splitOnce hpat hsplit, pieces_cons (splitSeq_ne_nil pat b)]
    exact ⟨hfirst, ih⟩

/-- A join of pieces is split into these pieces. -/
theorem splitSeq_of_pieces {ps : List (List α)} (hpat : pat ≠ []) (h : Pieces pat ps) :
    splitSeq pat (List.intercalate pat ps) = ps := by
  induction ps with
  | nil => exact absurd h id
  | cons piece rest ih =>
    by_cases hrest : rest = []
    · rw [hrest] at h ⊢
      rw [List.intercalate_singleton, splitSeq_of_absent h]
    · obtain ⟨hfirst, htail⟩ := (pieces_cons hrest).mp h
      have hsplit : splitOnce pat (piece ++ pat ++ List.intercalate pat rest)
          = some (piece, List.intercalate pat rest) :=
        (splitOnce_eq_some_iff_absent hpat).mpr ⟨rfl, hfirst⟩
      rw [List.intercalate_cons_of_ne_nil hrest, splitSeq_of_splitOnce hpat hsplit, ih htail]

/-- A pattern that does not overlap what stands in the holes is replaced piece by piece. -/
theorem replace_intercalate_of_not_overlap {hole : List α} (h : ¬ Overlap pat hole)
    {ps : List (List α)} (hps : ps ≠ []) :
    replace pat new (List.intercalate hole ps)
      = List.intercalate hole (ps.map (replace pat new)) := by
  induction ps with
  | nil => exact absurd rfl hps
  | cons piece rest ih =>
    by_cases hrest : rest = []
    · rw [hrest, List.map_singleton, List.intercalate_singleton, List.intercalate_singleton]
    · have hmap : rest.map (replace pat new) ≠ [] := by simpa using hrest
      rw [List.intercalate_cons_of_ne_nil hrest, replace_fixed h, ih hrest, List.map_cons,
        List.intercalate_cons_of_ne_nil hmap]

/-- In front of the same rest, a replacement brings in no pattern that does not overlap the new
text. -/
theorem not_infix_replace_append {v t c : List α} (hpat : pat ≠ []) (h : ¬ Overlap v new)
    (hv : ¬ v <:+: t ++ c) : ¬ v <:+: replace pat new t ++ c := by
  induction t using split_induction hpat with
  | clean t ht => rwa [replace_of_absent ht]
  | cut a b hfirst ih =>
    rw [replace_append hpat hfirst, List.append_assoc, infix_fixed_iff h, not_or]
    constructor
    · intro ha
      rw [List.append_assoc, List.append_assoc] at hv
      exact hv (ha.trans (List.prefix_append a _).isInfix)
    · refine ih fun hb => hv ?_
      rw [List.append_assoc]
      exact hb.trans (List.suffix_append (a ++ pat) (b ++ c)).isInfix

/-- The pieces stay pieces when another pattern is replaced in them. -/
theorem Pieces.map_replace {v : List α} {ps : List (List α)} (hps : Pieces v ps) (hpat : pat ≠ [])
    (h : ¬ Overlap v new) : Pieces v (ps.map (replace pat new)) := by
  induction ps with
  | nil => exact absurd hps id
  | cons piece rest ih =>
    by_cases hrest : rest = []
    · rw [hrest] at hps ⊢
      exact not_infix_replace_of_absent hpat h hps
    · have hmap : rest.map (replace pat new) ≠ [] := by simpa using hrest
      obtain ⟨hfirst, htail⟩ := (pieces_cons hrest).mp hps
      rw [List.map_cons, pieces_cons hmap]
      exact ⟨not_infix_replace_append hpat h hfirst, ih htail⟩

/-! ### Replacing beside a text -/

/-- A replacement acts on both sides of a text that no occurrence of the pattern reaches into. -/
theorem replace_between {pat f a b : List α} (hpat : pat ≠ [])
    (h : ∀ p q, a ++ f ++ b = p ++ pat ++ q →
      p.length + pat.length ≤ a.length ∨ a.length + f.length ≤ p.length) :
    replace pat new (a ++ f ++ b) = replace pat new a ++ f ++ replace pat new b := by
  -- An occurrence in the whole is one in the front or behind.
  have hside : ∀ a : List α, ∀ p q, a ++ f ++ b = p ++ pat ++ q →
      p.length + pat.length ≤ a.length ∨ a.length + f.length ≤ p.length →
      pat <:+: a ∨ ∃ p', p = a ++ f ++ p' := by
    rintro a p q heq (hle | hle)
    · have hfound : p ++ pat <+: a ++ f ++ b := ⟨q, heq.symm⟩
      have hfront : a <+: a ++ f ++ b := ⟨f ++ b, by simp⟩
      have hpre : p ++ pat <+: a :=
        List.prefix_of_prefix_length_le hfound hfront (by rwa [List.length_append])
      exact Or.inl ((List.suffix_append p pat).isInfix.trans hpre.isInfix)
    · have hfront : p <+: a ++ f ++ b := ⟨pat ++ q, by rw [heq]; simp⟩
      obtain ⟨p', hp'⟩ : a ++ f <+: p :=
        List.prefix_of_prefix_length_le ⟨b, rfl⟩ hfront (by rwa [List.length_append])
      exact Or.inr ⟨p', hp'.symm⟩
  induction a using split_induction hpat with
  | clean a ha =>
    rw [replace_of_absent ha]
    cases hsplit : splitOnce pat b with
    | none =>
      have hb : ¬ pat <:+: b := splitOnce_eq_none_iff.mp hsplit
      rw [replace_of_absent hb, replace_of_absent]
      rintro ⟨p, q, heq⟩
      rcases hside a p q heq.symm (h p q heq.symm) with hin | ⟨p', rfl⟩
      · exact ha hin
      · refine hb ⟨p', q, ?_⟩
        simp only [List.append_assoc, List.append_cancel_left_eq] at heq
        rw [List.append_assoc, heq]
    | some found =>
      obtain ⟨c, d⟩ := found
      obtain ⟨rfl, hfirst⟩ := (splitOnce_eq_some_iff_absent hpat).mp hsplit
      have hwhole : a ++ f ++ (c ++ pat ++ d) = a ++ f ++ c ++ pat ++ d := by simp
      have hfirst' : ¬ pat <:+: a ++ f ++ c ++ pat.dropLast := by
        rintro ⟨p, q, heq⟩
        obtain ⟨z, hz⟩ : ∃ z, pat = pat.dropLast ++ [z] :=
          ⟨pat.getLast hpat, (List.dropLast_append_getLast hpat).symm⟩
        have hocc : a ++ f ++ (c ++ pat ++ d) = p ++ pat ++ (q ++ [z] ++ d) := by
          calc a ++ f ++ (c ++ pat ++ d)
              = a ++ f ++ c ++ (pat.dropLast ++ [z]) ++ d := by rw [← hz, hwhole]
            _ = (a ++ f ++ c ++ pat.dropLast) ++ [z] ++ d := by simp
            _ = p ++ pat ++ (q ++ [z] ++ d) := by rw [← heq]; simp
        rcases hside a p _ hocc (h p _ hocc) with hin | ⟨p', rfl⟩
        · exact ha hin
        · refine hfirst ⟨p', q, ?_⟩
          simp only [List.append_assoc, List.append_cancel_left_eq] at heq
          rw [List.append_assoc, heq]
      rw [hwhole, replace_append hpat hfirst', replace_append hpat hfirst]
      simp
  | cut c d hfirst ih =>
    have hwhole : c ++ pat ++ d ++ f ++ b = c ++ pat ++ (d ++ f ++ b) := by simp
    have hrest : ∀ p q, d ++ f ++ b = p ++ pat ++ q →
        p.length + pat.length ≤ d.length ∨ d.length + f.length ≤ p.length := by
      intro p q heq
      have hocc : c ++ pat ++ d ++ f ++ b = (c ++ pat ++ p) ++ pat ++ q := by
        rw [hwhole, heq]
        simp
      rcases h _ _ hocc with hle | hle
      · simp only [List.length_append] at hle
        exact Or.inl (by omega)
      · simp only [List.length_append] at hle
        exact Or.inr (by omega)
    rw [hwhole, replace_append hpat hfirst, replace_append hpat hfirst, ih hrest]
    simp

/-! ### Several patterns -/

/-- Replace some patterns, one after the other. -/
def replaceAll (new : List α) (pats : List (List α)) (t : List α) : List α :=
  pats.foldl (fun t pat => replace pat new t) t

/-- No replaced pattern is left, and none is brought in. -/
theorem not_infix_replaceAll {pats : List (List α)} (hne : ∀ p ∈ pats, p ≠ []) {v t : List α}
    (hv : ¬ Overlap v new) (h : v ∈ pats ∨ ¬ v <:+: t) : ¬ v <:+: replaceAll new pats t := by
  induction pats generalizing t with
  | nil => exact h.resolve_left List.not_mem_nil
  | cons pat pats ih =>
    refine ih (fun p hp => hne p (List.mem_cons_of_mem _ hp)) ?_
    rcases h with h | h
    · rcases List.mem_cons.mp h with rfl | h
      · exact Or.inr (not_infix_replace hv t)
      · exact Or.inl h
    · exact Or.inr (not_infix_replace_of_absent (hne pat List.mem_cons_self) hv h)

/-- The patterns act on both sides of a text that none of them overlaps. -/
theorem replaceAll_fixed {pats : List (List α)} {f : List α} (h : ∀ p ∈ pats, ¬ Overlap p f)
    (a b : List α) :
    replaceAll new pats (a ++ f ++ b) = replaceAll new pats a ++ f ++ replaceAll new pats b := by
  induction pats generalizing a b with
  | nil => rfl
  | cons pat pats ih =>
    show replaceAll new pats (replace pat new (a ++ f ++ b)) = _
    rw [replace_fixed (h pat List.mem_cons_self),
      ih fun p hp => h p (List.mem_cons_of_mem _ hp)]
    rfl

/-- Nothing is left of nothing only, when the new text is something. -/
theorem replace_eq_nil_iff (hpat : pat ≠ []) (hnew : new ≠ []) {t : List α} :
    replace pat new t = [] ↔ t = [] := by
  induction t using split_induction hpat with
  | clean t hclean => rw [replace_of_absent hclean]
  | cut a b hfirst ih =>
    rw [replace_append hpat hfirst]
    simp [hpat, hnew]

/-- Nothing is left only of the empty text. -/
theorem replaceAll_eq_nil_iff {pats : List (List α)} (hne : ∀ p ∈ pats, p ≠ []) (hnew : new ≠ [])
    {t : List α} : replaceAll new pats t = [] ↔ t = [] := by
  induction pats generalizing t with
  | nil => exact Iff.rfl
  | cons pat pats ih =>
    show replaceAll new pats (replace pat new t) = [] ↔ t = []
    rw [ih fun p hp => hne p (List.mem_cons_of_mem _ hp),
      replace_eq_nil_iff (hne pat List.mem_cons_self) hnew]

/-- Cut every piece at some patterns, one pattern after the other. -/
def cutAll (pats ps : List (List α)) : List (List α) :=
  pats.foldl (fun ps pat => ps.flatMap (splitSeq pat)) ps

/-- Cutting leaves at least one piece. -/
theorem cutAll_ne_nil (pats : List (List α)) {ps : List (List α)} (hps : ps ≠ []) :
    cutAll pats ps ≠ [] := by
  induction pats generalizing ps with
  | nil => exact hps
  | cons pat pats ih =>
    obtain ⟨piece, rest, rfl⟩ := List.exists_cons_of_ne_nil hps
    have hcut : (piece :: rest).flatMap (splitSeq pat) ≠ [] := by
      rw [List.flatMap_cons]
      exact List.append_ne_nil_of_left_ne_nil (splitSeq_ne_nil pat piece) _
    exact ih hcut

/-- Replacing patterns that do not overlap the new text is cutting at them. -/
theorem replaceAll_intercalate {pats : List (List α)} (h : ∀ p ∈ pats, ¬ Overlap p new)
    {ps : List (List α)} (hps : ps ≠ []) :
    replaceAll new pats (List.intercalate new ps) = List.intercalate new (cutAll pats ps) := by
  induction pats generalizing ps with
  | nil => rfl
  | cons pat pats ih =>
    have hcut : ps.flatMap (splitSeq pat) ≠ [] := by
      obtain ⟨piece, rest, rfl⟩ := List.exists_cons_of_ne_nil hps
      rw [List.flatMap_cons]
      exact List.append_ne_nil_of_left_ne_nil (splitSeq_ne_nil pat piece) _
    show replaceAll new pats (replace pat new (List.intercalate new ps)) = _
    rw [replace_intercalate_of_not_overlap (h pat List.mem_cons_self) hps]
    show replaceAll new pats (List.intercalate new (ps.map fun p =>
      List.intercalate new (splitSeq pat p))) = _
    rw [← intercalate_flatMap (splitSeq_ne_nil pat),
      ih (fun p hp => h p (List.mem_cons_of_mem _ hp)) hcut]
    rfl

/-- A replaced text is the pieces between the patterns, with the new text in between. -/
theorem replaceAll_eq_intercalate {pats : List (List α)} (h : ∀ p ∈ pats, ¬ Overlap p new)
    (t : List α) : replaceAll new pats t = List.intercalate new (cutAll pats [t]) := by
  rw [← replaceAll_intercalate h (List.cons_ne_nil _ _), List.intercalate_singleton]

/-- The same for replacing. -/
theorem replaceAll_of_absent {pats : List (List α)} {t : List α} (h : ∀ p ∈ pats, ¬ p <:+: t) :
    replaceAll new pats t = t := by
  induction pats with
  | nil => rfl
  | cons pat pats ih =>
    show replaceAll new pats (replace pat new t) = t
    rw [replace_of_absent (h pat List.mem_cons_self)]
    exact ih fun p hp => h p (List.mem_cons_of_mem _ hp)

end Text
