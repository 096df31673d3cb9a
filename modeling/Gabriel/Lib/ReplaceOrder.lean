import Gabriel.Lib.Replace

/-!
# `Gabriel.Lib.ReplaceOrder`: the order of replacements

Replacing several patterns by one text, one after the other, can depend on the order. It does
exactly when two of the occurrences that the patterns would take on their own share characters.
The theorems:

* `replaceAll_apart`: where no two patterns collide, every order gives the same text. The earliest
  occurrence of any pattern is replaced in every order (`replaceAll_first`), and the rest of the
  text is one where no two patterns collide.
* `eq_of_shown_eq`: two ways of marking occurrences in a text that show the same are the same, when
  one of them marks patterns that hold no others. What the other one marks at the same place is
  longer, and it never falls back.
* `sameInAnyOrder_iff`: every order gives the same text, if and only if no two patterns collide.

Here no pattern overlaps the new text, and the first character of the new text is in it once.
-/

set_option autoImplicit false

namespace Text

variable {α : Type*}

/-! ### The occurrences that are taken -/

/-- The search for a pattern, occurrence after occurrence, comes to the end of `a`: where the
pattern stands behind `a`, it is replaced there. -/
inductive Reaches (pat : List α) : List α → Prop where
  | first {a : List α} (h : ¬ pat <:+: a ++ pat.dropLast) : Reaches pat a
  | next {a b : List α} (h : ¬ pat <:+: a ++ pat.dropLast) (hb : Reaches pat b) :
    Reaches pat (a ++ pat ++ b)

/-- Replacing `v` alone takes an occurrence that shares characters with one that replacing `w` alone
takes. -/
def Collide (v w t : List α) : Prop :=
  ∃ a b c d, t = a ++ v ++ b ∧ t = c ++ w ++ d ∧ Reaches v a ∧ Reaches w c ∧
    a.length < c.length + w.length ∧ c.length < a.length + v.length

/-- No two different patterns collide. -/
def Apart (pats : List (List α)) (t : List α) : Prop :=
  ∀ v ∈ pats, ∀ w ∈ pats, v ≠ w → ¬ Collide v w t

/-- Patterns collide only where both of them stand. -/
theorem Collide.infix {v w t : List α} (h : Collide v w t) : v <:+: t ∧ w <:+: t := by
  obtain ⟨a, b, c, d, hv, hw, -⟩ := h
  exact ⟨⟨a, b, hv.symm⟩, ⟨c, d, hw.symm⟩⟩

/-! ### The earliest occurrence -/

/-- In `a ++ p ++ b` the pattern `p` is found behind `a`, and no other pattern begins before it
ends. -/
structure FirstAt (pats : List (List α)) (p a b : List α) : Prop where
  mem : p ∈ pats
  first : ¬ p <:+: a ++ p.dropLast
  others : ∀ q ∈ pats, q ≠ p → ∀ x y, a ++ p ++ b = x ++ q ++ y → a.length + p.length ≤ x.length

namespace FirstAt

variable {pats : List (List α)} {p a b : List α}

/-- Nothing is found in front of it. -/
theorem absent (h : FirstAt pats p a b) (hp : p ≠ []) {q : List α} (hq : q ∈ pats) :
    ¬ q <:+: a := by
  by_cases heq : q = p
  · rw [heq]
    exact fun hin => h.first (hin.trans (List.prefix_append a _).isInfix)
  · rintro ⟨x, y, rfl⟩
    have hle := h.others q hq heq x (y ++ p ++ b) (by simp)
    have hpos := List.length_pos_iff.mpr hp
    simp only [List.length_append] at hle
    omega

/-- What another pattern reaches in the rest, it reaches in the whole. -/
theorem reaches (h : FirstAt pats p a b) {q c d : List α} (hq : q ∈ pats) (hne : q ≠ [])
    (hb : b = c ++ q ++ d) (hc : Reaches q c) : Reaches q (a ++ p ++ c) := by
  by_cases heq : q = p
  · rw [heq] at hc ⊢
    exact .next h.first hc
  · -- An occurrence in front of the first one in the rest would begin before `p` ends.
    have hclean : ∀ e f, b = e ++ q ++ f → ¬ q <:+: e ++ q.dropLast →
        ¬ q <:+: a ++ p ++ e ++ q.dropLast := by
      rintro e f rfl hno ⟨x, y, hxy⟩
      obtain ⟨z, hz⟩ : ∃ z, q = q.dropLast ++ [z] :=
        ⟨q.getLast hne, (List.dropLast_append_getLast hne).symm⟩
      have hocc : a ++ p ++ (e ++ q ++ f) = x ++ q ++ (y ++ [z] ++ f) := by
        calc a ++ p ++ (e ++ q ++ f)
            = a ++ p ++ e ++ (q.dropLast ++ [z]) ++ f := by rw [← hz]; simp
          _ = (a ++ p ++ e ++ q.dropLast) ++ [z] ++ f := by simp
          _ = x ++ q ++ (y ++ [z] ++ f) := by rw [← hxy]; simp
      have hle := h.others q hq heq x _ hocc
      obtain ⟨x', rfl⟩ : a ++ p <+: x := by
        have hx : x <+: a ++ p ++ e ++ q.dropLast := ⟨q ++ y, by rw [← hxy]; simp⟩
        have hfront : a ++ p <+: a ++ p ++ e ++ q.dropLast := ⟨e ++ q.dropLast, by simp⟩
        exact List.prefix_of_prefix_length_le hfront hx (by rwa [List.length_append])
      refine hno ⟨x', y, ?_⟩
      simpa only [List.append_assoc, List.append_cancel_left_eq] using hxy
    -- By induction on how the pattern reaches: no occurrence in front, or one more.
    cases hc with
    | first hno => exact .first (hclean c d hb hno)
    | @next e c' hno hc' =>
      have hwhole : a ++ p ++ (e ++ q ++ c') = a ++ p ++ e ++ q ++ c' := by simp
      rw [hwhole]
      exact .next (hclean e (c' ++ q ++ d) (by rw [hb]; simp) hno) hc'

end FirstAt

/-- Where no two patterns collide, one of them is earliest, and none collide in the rest. -/
theorem Apart.exists_first {pats : List (List α)} {t : List α} (h : Apart pats t)
    (hne : ∀ p ∈ pats, p ≠ []) (hin : ∃ p ∈ pats, p <:+: t) :
    ∃ p a b, t = a ++ p ++ b ∧ FirstAt pats p a b ∧ Apart pats b := by
  classical
  have hstart : ∃ n, ∃ p ∈ pats, ∃ a b, t = a ++ p ++ b ∧ a.length = n := by
    obtain ⟨p, hp, a, b, hab⟩ := hin
    exact ⟨a.length, p, hp, a, b, hab.symm, rfl⟩
  obtain ⟨p, hp, a, b, rfl, hlen⟩ := Nat.find_spec hstart
  have hearly : ∀ q ∈ pats, ∀ x y, a ++ p ++ b = x ++ q ++ y → a.length ≤ x.length := by
    intro q hq x y hxy
    rw [hlen]
    exact Nat.find_min' hstart ⟨q, hq, x, y, hxy, rfl⟩
  have hpne := hne p hp
  have hfirst : ¬ p <:+: a ++ p.dropLast := by
    rintro ⟨x, y, hxy⟩
    obtain ⟨z, hz⟩ : ∃ z, p = p.dropLast ++ [z] :=
      ⟨p.getLast hpne, (List.dropLast_append_getLast hpne).symm⟩
    have hocc : a ++ p ++ b = x ++ p ++ (y ++ [z] ++ b) := by
      calc a ++ p ++ b = a ++ (p.dropLast ++ [z]) ++ b := by rw [← hz]
        _ = (a ++ p.dropLast) ++ [z] ++ b := by simp
        _ = x ++ p ++ (y ++ [z] ++ b) := by rw [← hxy]; simp
    have hle := hearly p hp x _ hocc
    have hcount := congrArg List.length hxy
    have hpos := List.length_pos_iff.mpr hpne
    simp only [List.length_append, List.length_dropLast] at hcount
    omega
  have hat : FirstAt pats p a b := by
    refine ⟨hp, hfirst, fun q hq hqp x y hxy => ?_⟩
    obtain ⟨c, d, hcd, hc⟩ := Text.exists_first (hne q hq) ⟨x, y, hxy.symm⟩
    -- Its first occurrence does not share characters with this one.
    have hcx : c.length ≤ x.length := by
      by_contra hlong
      have hpre : x ++ q <+: c ++ q.dropLast := by
        have hx : x ++ q <+: a ++ p ++ b := ⟨y, hxy.symm⟩
        have hcut : c ++ q.dropLast <+: a ++ p ++ b := by
          rw [hcd, List.append_assoc]
          exact (List.prefix_append_right_inj c).mpr
            ((List.dropLast_prefix q).trans (List.prefix_append q d))
        refine List.prefix_of_prefix_length_le hx hcut ?_
        have hpos := List.length_pos_iff.mpr (hne q hq)
        simp only [List.length_append, List.length_dropLast]
        omega
      exact hc ((List.suffix_append x q).isInfix.trans hpre.isInfix)
    have hac := hearly q hq c d hcd
    have hapart := h q hq p hp hqp
    by_contra hshort
    refine hapart ⟨c, d, a, b, hcd, rfl, .first hc, .first hfirst, ?_, ?_⟩
    · omega
    · have hpos := List.length_pos_iff.mpr (hne q hq)
      omega
  refine ⟨p, a, b, rfl, hat, fun v hv w hw hvw hmeet => h v hv w hw hvw ?_⟩
  obtain ⟨c, d, e, f, hc, he, hrc, hre, hlow, hhigh⟩ := hmeet
  refine ⟨a ++ p ++ c, d, a ++ p ++ e, f, by rw [hc]; simp, by rw [he]; simp,
    hat.reaches hv (hne v hv) hc hrc, hat.reaches hw (hne w hw) he hre, ?_, ?_⟩
  · simp only [List.length_append]
    omega
  · simp only [List.length_append]
    omega

section Replace

variable [DecidableEq α] {new : List α} {pats : List (List α)}

/-- The earliest pattern stays the earliest one when another one is replaced behind it. -/
theorem FirstAt.replace {p a b q : List α} (h : FirstAt pats p a b) (hq : q ≠ [])
    (hnew : ∀ p ∈ pats, ¬ Overlap p new) : FirstAt pats p a (replace q new b) := by
  refine ⟨h.mem, h.first, fun v hv hvp x y hxy => ?_⟩
  by_cases hin : q <:+: b
  · obtain ⟨e, f, rfl, hfirst⟩ := exists_first hq hin
    rw [replace_append hq hfirst] at hxy
    have hsides : a ++ p ++ e ++ new ++ Text.replace q new f = x ++ v ++ y := by
      rw [← hxy]
      simp
    rcases side_of_not_overlap (hnew v hv) hsides with ⟨y', hy'⟩ | ⟨x', -, rfl⟩
    · refine h.others v hv hvp x (y' ++ q ++ f) ?_
      calc a ++ p ++ (e ++ q ++ f) = (a ++ p ++ e) ++ q ++ f := by simp
        _ = x ++ v ++ (y' ++ q ++ f) := by rw [hy']; simp
    · simp only [List.length_append]
      omega
  · rw [replace_of_absent hin] at hxy
    exact h.others v hv hvp x y hxy

/-- In every order the earliest occurrence is replaced, and the rest goes on as if it were alone. -/
theorem replaceAll_first {p a b : List α} (h : FirstAt pats p a b)
    (hnew : ∀ p ∈ pats, ¬ Overlap p new) {order : List (List α)} (horder : ∀ q ∈ order, q ∈ pats)
    (hp : p ∈ order) :
    replaceAll new order (a ++ p ++ b) = a ++ new ++ replaceAll new order b := by
  have hpne := ne_nil_of_not_overlap (hnew p h.mem)
  induction order generalizing b with
  | nil => exact absurd hp List.not_mem_nil
  | cons q order ih =>
    have hq := horder q List.mem_cons_self
    have horder' : ∀ r ∈ order, r ∈ pats := fun r hr => horder r (List.mem_cons_of_mem q hr)
    have hqne := ne_nil_of_not_overlap (hnew q hq)
    show replaceAll new order (Text.replace q new (a ++ p ++ b))
      = a ++ new ++ replaceAll new order (Text.replace q new b)
    by_cases heq : q = p
    · rw [heq, replace_append hpne h.first,
        replaceAll_fixed fun r hr => hnew r (horder' r hr),
        replaceAll_of_absent fun r hr => h.absent hpne (horder' r hr)]
    · have hapart : ∀ x y, a ++ p ++ b = x ++ q ++ y →
          x.length + q.length ≤ a.length ∨ a.length + p.length ≤ x.length :=
        fun x y hxy => Or.inr (h.others q hq heq x y hxy)
      rw [replace_between hqne hapart, replace_of_absent (h.absent hpne hq)]
      exact ih (h.replace hqne hnew) horder'
        ((List.mem_cons.mp hp).resolve_left (Ne.symm heq))

/-- Patterns that do not collide can be replaced in any order. -/
theorem replaceAll_apart (hnew : ∀ p ∈ pats, ¬ Overlap p new) {t : List α} (h : Apart pats t)
    {order : List (List α)} (horder : ∀ q, q ∈ order ↔ q ∈ pats) :
    replaceAll new order t = replaceAll new pats t := by
  have hne : ∀ p ∈ pats, p ≠ [] := fun p hp => ne_nil_of_not_overlap (hnew p hp)
  induction hn : t.length using Nat.strong_induction_on generalizing t with
  | _ n ih =>
    by_cases hin : ∃ p ∈ pats, p <:+: t
    · obtain ⟨p, a, b, rfl, hat, hrest⟩ := h.exists_first hne hin
      have hpos := List.length_pos_iff.mpr (hne p hat.mem)
      have hlen : b.length < n := by
        rw [← hn, List.length_append, List.length_append]
        omega
      rw [replaceAll_first hat hnew (fun q hq => (horder q).mp hq) ((horder p).mpr hat.mem),
        replaceAll_first hat hnew (fun q hq => hq) hat.mem, ih _ hlen hrest rfl]
    · have hno : ∀ p ∈ pats, ¬ p <:+: t := fun p hp hpt => hin ⟨p, hp, hpt⟩
      rw [replaceAll_of_absent fun q hq => hno q ((horder q).mp hq), replaceAll_of_absent hno]

end Replace

/-! ### Marked occurrences -/

/-- What is shown of a text some of whose occurrences are marked: the new text stands in their
place. -/
def shown (new : List α) (marked : List (α ⊕ List α)) : List α :=
  marked.flatMap (Sum.elim (fun c => [c]) fun _ => new)

/-- The occurrence of a pattern behind `a` is marked. -/
def MarkedAt (marked : List (α ⊕ List α)) (a p : List α) : Prop :=
  ∃ front back, marked = front ++ Sum.inr p :: back ∧ unmark front = a

/-- What is shown of two marked texts, one after the other. -/
@[simp] theorem shown_append (new : List α) (s t : List (α ⊕ List α)) :
    shown new (s ++ t) = shown new s ++ shown new t := List.flatMap_append

/-- Nothing is shown of nothing. -/
@[simp] theorem shown_nil (new : List α) : shown new [] = [] := rfl

/-- A character that is not marked is shown. -/
@[simp] theorem shown_inl (new : List α) (c : α) (t : List (α ⊕ List α)) :
    shown new (Sum.inl c :: t) = c :: shown new t := rfl

/-- The new text is shown for a marked part. -/
@[simp] theorem shown_inr (new p : List α) (t : List (α ⊕ List α)) :
    shown new (Sum.inr p :: t) = new ++ shown new t := rfl

/-- A text without marks is shown as it is. -/
@[simp] theorem shown_map_inl (new t : List α) : shown new (t.map Sum.inl) = t := by
  induction t with
  | nil => rfl
  | cons c t ih => rw [List.map_cons, shown_inl, ih]

/-- A marked part stays marked with other texts around it, further behind. -/
theorem MarkedAt.append {marked : List (α ⊕ List α)} {a p : List α} (h : MarkedAt marked a p)
    (front back : List (α ⊕ List α)) :
    MarkedAt (front ++ marked ++ back) (unmark front ++ a) p := by
  obtain ⟨s, t, rfl, rfl⟩ := h
  exact ⟨front ++ s, t ++ back, by simp, unmark_append front s⟩

/-- Two marked occurrences do not share characters. -/
theorem MarkedAt.apart {marked : List (α ⊕ List α)} {a p c q : List α} (hp : MarkedAt marked a p)
    (hq : MarkedAt marked c q) (hne : p ≠ q) :
    a.length + p.length ≤ c.length ∨ c.length + q.length ≤ a.length := by
  obtain ⟨s, t, rfl, rfl⟩ := hp
  obtain ⟨u, v, huv, rfl⟩ := hq
  rcases List.append_eq_append_iff.mp huv with ⟨m, rfl, hm⟩ | ⟨m, rfl, hm⟩
  · cases m with
    | nil =>
      rw [List.nil_append] at hm
      exact absurd (Sum.inr.inj (List.cons.inj hm).1) hne
    | cons x m =>
      obtain ⟨rfl, -⟩ := List.cons.inj hm
      rw [unmark_append, unmark_inr, List.length_append, List.length_append]
      exact Or.inl (by omega)
  · cases m with
    | nil =>
      rw [List.nil_append] at hm
      exact absurd (Sum.inr.inj (List.cons.inj hm).1).symm hne
    | cons x m =>
      obtain ⟨rfl, -⟩ := List.cons.inj hm
      rw [unmark_append, unmark_inr, List.length_append, List.length_append]
      exact Or.inr (by omega)

/-- A marked text begins with characters up to its first mark. -/
theorem exists_run (marked : List (α ⊕ List α)) :
    (∃ run : List α, marked = run.map Sum.inl) ∨
      ∃ (run p : List α) (back : List (α ⊕ List α)),
        marked = run.map Sum.inl ++ Sum.inr p :: back := by
  induction marked with
  | nil => exact Or.inl ⟨[], rfl⟩
  | cons x marked ih =>
    rcases x with c | p
    · rcases ih with ⟨run, rfl⟩ | ⟨run, p, back, rfl⟩
      · exact Or.inl ⟨c :: run, rfl⟩
      · exact Or.inr ⟨c :: run, p, back, rfl⟩
    · exact Or.inr ⟨[], p, marked, rfl⟩

section Mark

variable [DecidableEq α] {new : List α}

/-- There is only one first occurrence. -/
theorem first_unique {pat a b x y : List α} (hpat : pat ≠ []) (ha : ¬ pat <:+: a ++ pat.dropLast)
    (hx : ¬ pat <:+: x ++ pat.dropLast) (h : a ++ pat ++ b = x ++ pat ++ y) : a = x ∧ b = y := by
  have hsplit : splitOnce pat (a ++ pat ++ b) = some (a, b) :=
    (splitOnce_eq_some_iff_absent hpat).mpr ⟨rfl, ha⟩
  rw [(splitOnce_eq_some_iff_absent hpat).mpr ⟨h, hx⟩] at hsplit
  obtain ⟨rfl, rfl⟩ := Prod.mk.inj (Option.some.inj hsplit)
  exact ⟨rfl, rfl⟩

variable (new) in
/-- What replacing takes in a text is marked in it. -/
theorem exists_marked_replace {pat : List α} (hpat : pat ≠ []) (t : List α) :
    ∃ marked, unmark marked = t ∧ shown new marked = replace pat new t ∧
      (∀ p, Sum.inr p ∈ marked → p = pat) ∧
      ∀ a b, t = a ++ pat ++ b → Reaches pat a → MarkedAt marked a pat := by
  -- By induction on the occurrences that are taken, from the left.
  induction t using split_induction hpat with
  | clean t ht =>
    refine ⟨t.map Sum.inl, unmark_map_inl t, ?_, fun p hp => ?_, fun a b hab _ => ?_⟩
    · rw [shown_map_inl, replace_of_absent ht]
    · exact absurd hp (inr_not_mem_map_inl p t)
    · exact absurd ⟨a, b, hab.symm⟩ ht
  | cut a b hfirst ih =>
    obtain ⟨marked, hsource, hshown, honly, hmarks⟩ := ih
    refine ⟨a.map Sum.inl ++ Sum.inr pat :: marked, ?_, ?_, fun p hp => ?_, fun x y hxy hx => ?_⟩
    · rw [unmark_append, unmark_map_inl, unmark_inr, hsource, List.append_assoc]
    · rw [shown_append, shown_map_inl, shown_inr, hshown, replace_append hpat hfirst,
        List.append_assoc]
    · rcases List.mem_append.mp hp with hp | hp
      · exact absurd hp (inr_not_mem_map_inl p a)
      · rcases List.mem_cons.mp hp with hp | hp
        · exact Sum.inr.inj hp
        · exact honly p hp
    -- The occurrence is the first one, which is marked, or it stands behind it.
    · cases hx with
      | first hno =>
        obtain ⟨rfl, -⟩ := first_unique hpat hfirst hno hxy
        exact ⟨a.map Sum.inl, marked, rfl, unmark_map_inl a⟩
      | @next e c hno hc =>
        have hsplit : a ++ pat ++ b = e ++ pat ++ (c ++ pat ++ y) := by
          rw [hxy]
          simp
        obtain ⟨rfl, rfl⟩ := first_unique hpat hfirst hno hsplit
        obtain ⟨s, u, rfl, rfl⟩ := hmarks c y rfl hc
        exact ⟨a.map Sum.inl ++ Sum.inr pat :: s, u, by simp, by simp⟩

/-- Replacing another pattern in what is shown marks more, and keeps the marks. -/
theorem exists_marked_more {pat : List α} (hpat : ¬ Overlap pat new)
    (marked : List (α ⊕ List α)) :
    ∃ marked', unmark marked' = unmark marked ∧
      shown new marked' = replace pat new (shown new marked) ∧
      (∀ p, Sum.inr p ∈ marked' → p = pat ∨ Sum.inr p ∈ marked) ∧
      ∀ a p, MarkedAt marked a p → MarkedAt marked' a p := by
  have hne := ne_nil_of_not_overlap hpat
  -- By induction on the length: a run without marks up to the first mark, and what is behind it.
  induction hn : marked.length using Nat.strong_induction_on generalizing marked with
  | _ n ih =>
    rcases exists_run marked with ⟨run, rfl⟩ | ⟨run, p, back, rfl⟩
    · obtain ⟨marked', hsource, hshown, honly, -⟩ := exists_marked_replace new hne run
      refine ⟨marked', by rw [hsource, unmark_map_inl], by rw [hshown, shown_map_inl],
        fun p hp => Or.inl (honly p hp), ?_⟩
      rintro a p ⟨s, u, hsu, -⟩
      have hmem : Sum.inr p ∈ run.map (Sum.inl : α → α ⊕ List α) := by
        rw [hsu]
        exact List.mem_append_right s List.mem_cons_self
      exact absurd hmem (inr_not_mem_map_inl p run)
    -- In the run replacing marks more; behind the mark it goes on, and it never reaches over the
    -- mark.
    · obtain ⟨front', hsource, hshown, honly, -⟩ := exists_marked_replace new hne run
      obtain ⟨back', hsource', hshown', honly', hkeeps⟩ :=
        ih back.length (by simp at hn; omega) back rfl
      refine ⟨front' ++ Sum.inr p :: back', ?_, ?_, ?_, ?_⟩
      · simp [hsource, hsource']
      · rw [shown_append, shown_inr, hshown, hshown', shown_append, shown_map_inl, shown_inr,
          ← List.append_assoc run, replace_fixed hpat, List.append_assoc]
      · intro q hq
        rcases List.mem_append.mp hq with hq | hq
        · exact Or.inl (honly q hq)
        · rcases List.mem_cons.mp hq with hq | hq
          · rw [hq]
            exact Or.inr (List.mem_append_right _ List.mem_cons_self)
          · exact (honly' q hq).imp_right fun hq =>
              List.mem_append_right _ (List.mem_cons_of_mem _ hq)
      · rintro a q ⟨s, u, hsu, rfl⟩
        -- The mark that was there is the first one, or one behind it, or would be in the run.
        rcases List.append_eq_append_iff.mp hsu with ⟨m, rfl, hm⟩ | ⟨m, hm, -⟩
        · cases m with
          | nil =>
            rw [List.nil_append] at hm
            obtain ⟨hpq, -⟩ := List.cons.inj hm
            rw [Sum.inr.inj hpq]
            exact ⟨front', back', rfl, by simp [hsource]⟩
          | cons x m =>
            obtain ⟨rfl, hback⟩ := List.cons.inj hm
            obtain ⟨s', u', hs', hsource''⟩ := hkeeps (unmark m) q ⟨m, u, hback, rfl⟩
            exact ⟨front' ++ Sum.inr p :: s', u', by rw [hs']; simp, by simp [hsource, hsource'']⟩
        · cases m with
          | nil =>
            rw [List.append_nil] at hm
            rw [← hm] at hsu
            obtain ⟨hpq, -⟩ := List.cons.inj (List.append_cancel_left hsu)
            rw [← Sum.inr.inj hpq, ← hm, unmark_map_inl]
            exact ⟨front', back', rfl, hsource⟩
          | cons x m =>
            have hmem : x ∈ run.map (Sum.inl : α → α ⊕ List α) := by
              rw [hm]
              exact List.mem_append_right s List.mem_cons_self
            have hx : Sum.inr q = x := by
              rw [hm, List.append_assoc] at hsu
              exact (List.cons.inj (List.append_cancel_left hsu)).1.symm
            exact absurd (hx ▸ hmem) (inr_not_mem_map_inl q run)

/-- What some replacements show is a marked text. -/
theorem exists_marked_replaceAll {pats : List (List α)} (h : ∀ p ∈ pats, ¬ Overlap p new)
    (marked : List (α ⊕ List α)) :
    ∃ marked', unmark marked' = unmark marked ∧
      shown new marked' = replaceAll new pats (shown new marked) ∧
      (∀ p, Sum.inr p ∈ marked' → p ∈ pats ∨ Sum.inr p ∈ marked) ∧
      ∀ a p, MarkedAt marked a p → MarkedAt marked' a p := by
  induction pats generalizing marked with
  | nil => exact ⟨marked, rfl, rfl, fun p hp => Or.inr hp, fun a p hp => hp⟩
  | cons pat pats ih =>
    obtain ⟨first, hsource, hshown, honly, hkeeps⟩ :=
      exists_marked_more (h pat List.mem_cons_self) marked
    obtain ⟨all, hsource', hshown', honly', hkeeps'⟩ :=
      ih (fun p hp => h p (List.mem_cons_of_mem pat hp)) first
    refine ⟨all, hsource'.trans hsource, by rw [hshown', hshown]; rfl, fun p hp => ?_,
      fun a p hp => hkeeps' a p (hkeeps a p hp)⟩
    rcases honly' p hp with hp | hp
    · exact Or.inl (List.mem_cons_of_mem pat hp)
    · refine (honly p hp).imp_left ?_
      rintro rfl
      exact List.mem_cons_self

/-- The first pattern of an order marks all that it takes. -/
theorem exists_marked_order {pat : List α} {order : List (List α)}
    (h : ∀ p ∈ pat :: order, ¬ Overlap p new) (t : List α) :
    ∃ marked, unmark marked = t ∧ shown new marked = replaceAll new (pat :: order) t ∧
      (∀ p, Sum.inr p ∈ marked → p ∈ pat :: order) ∧
      ∀ a b, t = a ++ pat ++ b → Reaches pat a → MarkedAt marked a pat := by
  have hne := ne_nil_of_not_overlap (h pat List.mem_cons_self)
  obtain ⟨first, hsource, hshown, honly, hmarks⟩ := exists_marked_replace new hne t
  obtain ⟨all, hsource', hshown', honly', hkeeps⟩ :=
    exists_marked_replaceAll (fun p hp => h p (List.mem_cons_of_mem pat hp)) first
  refine ⟨all, hsource'.trans hsource, by rw [hshown', hshown]; rfl, fun p hp => ?_,
    fun a b hab ha => hkeeps a pat (hmarks a b hab ha)⟩
  rcases honly' p hp with hp | hp
  · exact List.mem_cons_of_mem pat hp
  · rw [honly p hp]
    exact List.mem_cons_self

end Mark

/-! ### Marks that show the same -/

section Shown

variable {m : α} {rest : List α}

/-- Where the new text is shown and no mark begins, it stands in the source. -/
theorem exists_native (hm : m ∉ rest) {c : α} {marked : List (α ⊕ List α)} {tail : List α}
    (h : shown (m :: rest) (Sum.inl c :: marked) = m :: rest ++ tail) :
    ∃ back, Sum.inl c :: marked = (m :: rest).map Sum.inl ++ back ∧
      shown (m :: rest) back = tail := by
  -- The rest of the new text does not have its first character, so no mark begins in it.
  have key : ∀ (part : List α) (marked : List (α ⊕ List α)), m ∉ part →
      shown (m :: rest) marked = part ++ tail →
      ∃ back, marked = part.map Sum.inl ++ back ∧ shown (m :: rest) back = tail := by
    intro part
    induction part with
    | nil => exact fun marked _ h => ⟨marked, rfl, h⟩
    | cons d part ih =>
      intro marked hd h
      rw [List.mem_cons, not_or] at hd
      rcases marked with - | ⟨c | p, marked⟩
      · exact absurd h (by simp)
      · rw [shown_inl, List.cons_append] at h
        obtain ⟨rfl, htail⟩ := List.cons.inj h
        obtain ⟨back, rfl, hback⟩ := ih marked hd.2 htail
        exact ⟨back, rfl, hback⟩
      · rw [shown_inr, List.cons_append, List.cons_append] at h
        exact absurd (List.cons.inj h).1 hd.1
  rw [shown_inl, List.cons_append] at h
  obtain ⟨rfl, htail⟩ := List.cons.inj h
  obtain ⟨back, rfl, hback⟩ := key rest marked hm htail
  exact ⟨back, rfl, hback⟩

/-- Marked texts that show the same, where the second one is ahead by `z`: it stays ahead, so this
is not how both of them end. The first one marks patterns that hold none of the second one. -/
theorem not_shown_eq_of_ahead (hm : m ∉ rest) {s t : List (α ⊕ List α)} {z : List α}
    (hs : ∀ p, Sum.inr p ∈ s → ¬ Overlap p (m :: rest))
    (ht : ∀ p, Sum.inr p ∈ t → ¬ Overlap p (m :: rest))
    (hleast : ∀ p, Sum.inr p ∈ s → ∀ q, Sum.inr q ∈ t → q <:+: p → q = p)
    (hz : z ≠ []) (hsource : unmark s = z ++ unmark t) :
    shown (m :: rest) s ≠ shown (m :: rest) t := by
  induction hn : s.length + t.length using Nat.strong_induction_on generalizing s t z with
  | _ n ih =>
    intro hshown
    rcases s with - | ⟨x, s⟩
    · exact hz (List.append_eq_nil_iff.mp hsource.symm).1
    · have hs' : ∀ {u}, u <:+ s → ∀ p, Sum.inr p ∈ u → Sum.inr p ∈ x :: s :=
        fun hu p hp => List.mem_cons_of_mem x (hu.subset hp)
      rcases t with - | ⟨y, t⟩
      · rcases x with c | p
        · exact absurd hshown (by simp)
        · exact absurd hshown (by simp)
      · have ht' : ∀ {u}, u <:+ t → ∀ p, Sum.inr p ∈ u → Sum.inr p ∈ y :: t :=
          fun hu p hp => List.mem_cons_of_mem y (hu.subset hp)
        -- Both go on, and the second one is still ahead.
        have hgo : ∀ {u v : List (α ⊕ List α)} (z' : List α), u <:+ s → v <:+ t → z' ≠ [] →
            unmark u = z' ++ unmark v → shown (m :: rest) u ≠ shown (m :: rest) v := by
          intro u v z' hu hv hz' hsource'
          refine ih (u.length + v.length) ?_ (fun p hp => hs p (hs' hu p hp))
            (fun p hp => ht p (ht' hv p hp))
            (fun p hp q hq => hleast p (hs' hu p hp) q (ht' hv q hq)) hz' hsource' rfl
          have hlu := hu.length_le
          have hlv := hv.length_le
          rw [← hn, List.length_cons, List.length_cons]
          omega
        rcases x with c | p
        · rcases y with d | q
          · rw [shown_inl, shown_inl] at hshown
            obtain ⟨rfl, hshown'⟩ := List.cons.inj hshown
            obtain ⟨e, z, rfl⟩ := List.exists_cons_of_ne_nil hz
            rw [unmark_inl, unmark_inl, List.cons_append] at hsource
            refine hgo (z ++ [c]) (List.suffix_refl s) (List.suffix_refl t) (by simp) ?_
              hshown'
            rw [(List.cons.inj hsource).2]
            simp
          · -- The new text stands in the first source, so the pattern is behind it.
            rw [shown_inr] at hshown
            obtain ⟨back, hback, hrest⟩ := exists_native hm hshown
            have hq := ht q List.mem_cons_self
            rw [hback, unmark_append, unmark_map_inl, unmark_inr, ← List.append_assoc] at hsource
            have hsides : [] ++ (m :: rest) ++ unmark back = z ++ q ++ unmark t := hsource
            rcases side_of_not_overlap hq hsides with ⟨b, hb⟩ | ⟨a, ha, -⟩
            · simp only [List.append_assoc, List.nil_eq, List.append_eq_nil_iff] at hb
              exact hz hb.1
            · have hsuf : back <:+ s := by
                rw [List.map_cons, List.cons_append] at hback
                exact ⟨rest.map Sum.inl, (List.cons.inj hback).2.symm⟩
              have hne := ne_nil_of_not_overlap hq
              exact hgo _ hsuf (List.suffix_refl t) (by simp [hne]) ha hrest
        · rcases y with d | q
          · -- The new text stands in the second source, so the pattern is in front of it.
            rw [shown_inr] at hshown
            obtain ⟨back, hback, hrest⟩ := exists_native hm hshown.symm
            have hp := hs p List.mem_cons_self
            rw [hback, unmark_append, unmark_map_inl, unmark_inr, ← List.append_assoc] at hsource
            have hsides : z ++ (m :: rest) ++ unmark back = [] ++ p ++ unmark s := by
              rw [← hsource, List.nil_append]
            rcases side_of_not_overlap hp hsides with ⟨b, rfl⟩ | ⟨a, -, ha⟩
            · have hsuf : back <:+ t := by
                rw [List.map_cons, List.cons_append] at hback
                exact ⟨rest.map Sum.inl, (List.cons.inj hback).2.symm⟩
              refine hgo (b ++ (m :: rest)) (List.suffix_refl s) hsuf (by simp) ?_ hrest.symm
              simpa only [List.nil_append, List.append_assoc, List.append_cancel_left_eq]
                using hsource
            · exact absurd ha (by simp)
          · rw [shown_inr, shown_inr] at hshown
            rw [unmark_inr, unmark_inr, ← List.append_assoc] at hsource
            rcases List.append_eq_append_iff.mp hsource with ⟨e, he, hrest⟩ | ⟨e, he, hrest⟩
            · by_cases hnil : e = []
              · -- Both end at the same place, so the first one holds the second one.
                rw [hnil, List.append_nil] at he
                have hqp := hleast p List.mem_cons_self q List.mem_cons_self
                  ⟨z, [], by rw [List.append_nil, he]⟩
                rw [hqp] at he
                exact hz (List.append_left_eq_self.mp he)
              · exact hgo _ (List.suffix_refl s) (List.suffix_refl t) hnil hrest
                  (List.append_cancel_left hshown)
            · have hqp := hleast p List.mem_cons_self q List.mem_cons_self
                ⟨z, e, he.symm⟩
              rw [hqp] at he
              have hlen := congrArg List.length he
              have hpos := List.length_pos_iff.mpr hz
              simp only [List.length_append] at hlen
              omega

/-- Marked texts that show the same are the same, when the first one marks patterns that hold none
of the second one. -/
theorem eq_of_shown_eq (hm : m ∉ rest) {s t : List (α ⊕ List α)}
    (hs : ∀ p, Sum.inr p ∈ s → ¬ Overlap p (m :: rest))
    (ht : ∀ p, Sum.inr p ∈ t → ¬ Overlap p (m :: rest))
    (hleast : ∀ p, Sum.inr p ∈ s → ∀ q, Sum.inr q ∈ t → q <:+: p → q = p)
    (hsource : unmark s = unmark t) (hshown : shown (m :: rest) s = shown (m :: rest) t) :
    s = t := by
  induction s generalizing t with
  | nil =>
    rcases t with - | ⟨c | q, t⟩
    · rfl
    · exact absurd hshown (by simp)
    · exact absurd hshown (by simp)
  -- Both texts are walked together, a character or a mark at a time.
  | cons x s ih =>
    have hs' : ∀ p, Sum.inr p ∈ s → Sum.inr p ∈ x :: s := fun p hp => List.mem_cons_of_mem x hp
    rcases t with - | ⟨y, t⟩
    · rcases x with c | p
      · exact absurd hshown (by simp)
      · exact absurd hshown (by simp)
    · have ht' : ∀ p, Sum.inr p ∈ t → Sum.inr p ∈ y :: t := fun p hp => List.mem_cons_of_mem y hp
      have hgo : unmark s = unmark t → shown (m :: rest) s = shown (m :: rest) t → s = t :=
        ih (fun p hp => hs p (hs' p hp)) (fun p hp => ht p (ht' p hp))
          fun p hp q hq => hleast p (hs' p hp) q (ht' q hq)
      rcases x with c | p
      -- Two characters are the same one; a character and a mark would put the mark's text into the
      -- source.
      · rcases y with d | q
        · rw [shown_inl, shown_inl] at hshown
          rw [unmark_inl, unmark_inl] at hsource
          obtain ⟨rfl, hshown'⟩ := List.cons.inj hshown
          rw [hgo (List.cons.inj hsource).2 hshown']
        · rw [shown_inr] at hshown
          obtain ⟨back, hback, -⟩ := exists_native hm hshown
          have hq := ht q List.mem_cons_self
          rw [hback, unmark_append, unmark_map_inl, unmark_inr] at hsource
          have hsides : [] ++ (m :: rest) ++ unmark back = [] ++ q ++ unmark t := hsource
          rcases side_of_not_overlap hq hsides with ⟨b, hb⟩ | ⟨a, -, ha⟩
          · exact absurd hb (by simp [ne_nil_of_not_overlap hq])
          · exact absurd ha (by simp)
      · rcases y with d | q
        · rw [shown_inr] at hshown
          obtain ⟨back, hback, -⟩ := exists_native hm hshown.symm
          have hp := hs p List.mem_cons_self
          rw [hback, unmark_append, unmark_map_inl, unmark_inr] at hsource
          have hsides : [] ++ (m :: rest) ++ unmark back = [] ++ p ++ unmark s := hsource.symm
          rcases side_of_not_overlap hp hsides with ⟨b, hb⟩ | ⟨a, -, ha⟩
          · exact absurd hb (by simp [ne_nil_of_not_overlap hp])
          · exact absurd ha (by simp)
        -- Two marks show the same, and of their patterns one begins the other.
        · rw [shown_inr, shown_inr] at hshown
          rw [unmark_inr, unmark_inr] at hsource
          have hshown' := List.append_cancel_left hshown
          rcases List.append_eq_append_iff.mp hsource with ⟨e, he, hrest⟩ | ⟨e, he, hrest⟩
          · by_cases hnil : e = []
            · rw [hnil, List.append_nil] at he
              rw [hnil, List.nil_append] at hrest
              rw [he, hgo hrest hshown']
            · -- The second one is ahead.
              exact absurd hshown' (not_shown_eq_of_ahead hm (fun p hp => hs p (hs' p hp))
                (fun p hp => ht p (ht' p hp))
                (fun p hp q hq => hleast p (hs' p hp) q (ht' q hq)) hnil hrest)
          -- The shorter one is contained in the other, so that they are equal.
          · have hqp := hleast p List.mem_cons_self q List.mem_cons_self
              (he ▸ (List.prefix_append q e).isInfix)
            rw [hqp] at he
            have hnil : e = [] := List.append_right_eq_self.mp he.symm
            rw [hnil, List.nil_append] at hrest
            rw [hqp, hgo hrest.symm hshown']

end Shown

/-! ### Every order -/

section Order

variable [DecidableEq α] {m : α} {rest : List α} {pats : List (List α)}

/-- A pattern that holds no other one. -/
def Least (pats : List (List α)) (p : List α) : Prop := ∀ q ∈ pats, q <:+: p → q = p

instance (pats : List (List α)) : DecidablePred (Least pats) :=
  fun _ => inferInstanceAs (Decidable (∀ q ∈ pats, _ → _))

/-- Every pattern holds one that holds no other one. -/
theorem exists_least {p : List α} (hp : p ∈ pats) : ∃ q ∈ pats, Least pats q ∧ q <:+: p := by
  induction hn : p.length using Nat.strong_induction_on generalizing p with
  | _ n ih =>
    by_cases hleast : Least pats p
    · exact ⟨p, hp, hleast, List.infix_refl p⟩
    · simp only [Least, not_forall] at hleast
      obtain ⟨q, hq, hqp, hne⟩ := hleast
      have hlen : q.length < n := by
        rw [← hn]
        exact lt_of_le_of_ne hqp.length_le fun heq => hne (hqp.eq_of_length heq)
      obtain ⟨r, hr, hleast, hrq⟩ := ih _ hlen hq rfl
      exact ⟨r, hr, hleast, hrq.trans hqp⟩

/-- One order of the patterns marks only those that hold no others. -/
theorem exists_least_order {new : List α} (hnew : ∀ p ∈ pats, ¬ Overlap p new) (t : List α) :
    ∃ order, order.Perm pats ∧ ∃ marked, unmark marked = t ∧
      shown new marked = replaceAll new order t ∧
      ∀ p, Sum.inr p ∈ marked → p ∈ pats ∧ Least pats p := by
  -- First the patterns that hold no others, then the rest.
  let least := pats.filter (Least pats)
  let others := pats.filter fun p => !decide (Least pats p)
  have hmem : ∀ {p}, p ∈ least ↔ p ∈ pats ∧ Least pats p := by
    intro p
    simp [least, List.mem_filter]
  have hleast : ∀ p ∈ least, ¬ Overlap p new := fun p hp => hnew p (hmem.mp hp).1
  refine ⟨least ++ others, List.filter_append_perm _ pats, ?_⟩
  obtain ⟨marked, hsource, hshown, honly, -⟩ := exists_marked_replaceAll hleast (t.map Sum.inl)
  rw [unmark_map_inl] at hsource
  rw [shown_map_inl] at hshown
  refine ⟨marked, hsource, ?_, fun p hp => ?_⟩
  · -- When these are replaced, nothing is left of the others.
    have habsent : ∀ p ∈ others, ¬ p <:+: replaceAll new least t := by
      intro p hp hin
      obtain ⟨q, hq, hqleast, hqp⟩ := exists_least (List.mem_of_mem_filter hp)
      exact not_infix_replaceAll (fun p hp => ne_nil_of_not_overlap (hleast p hp)) (hnew q hq)
        (Or.inl (hmem.mpr ⟨hq, hqleast⟩)) (hqp.trans hin)
    have hsplit : replaceAll new (least ++ others) t
        = replaceAll new others (replaceAll new least t) := List.foldl_append
    rw [hshown, hsplit, replaceAll_of_absent habsent]
  · rcases honly p hp with hp | hp
    · exact hmem.mp hp
    · exact absurd hp (inr_not_mem_map_inl p t)

/-- **Every order of replacing gives the same text, if and only if no two patterns collide in it.**
The new text begins with a character that is in it once. -/
theorem sameInAnyOrder_iff (hm : m ∉ rest) (hnew : ∀ p ∈ pats, ¬ Overlap p (m :: rest))
    (t : List α) :
    (∀ order, order.Perm pats →
      replaceAll (m :: rest) order t = replaceAll (m :: rest) pats t) ↔ Apart pats t := by
  constructor
  · intro hsame v hv w hw hvw hcollide
    obtain ⟨order, hperm, marked, hsource, hshown, hleast⟩ := exists_least_order hnew t
    -- The order that begins with a pattern marks what it takes, and shows the same.
    have hfirst : ∀ p ∈ pats, ∀ a b, t = a ++ p ++ b → Reaches p a → MarkedAt marked a p := by
      intro p hp a b hab ha
      have hbegins : (p :: pats.erase p).Perm pats := (List.perm_cons_erase hp).symm
      have hnew' : ∀ q ∈ p :: pats.erase p, ¬ Overlap q (m :: rest) := fun q hq =>
        hnew q (hbegins.mem_iff.mp hq)
      obtain ⟨marked', hsource', hshown', honly, hmarks⟩ := exists_marked_order hnew' t
      have heq : marked = marked' := by
        refine eq_of_shown_eq hm (fun q hq => hnew q (hleast q hq).1)
          (fun q hq => hnew' q (honly q hq))
          (fun q hq r hr => (hleast q hq).2 r (hbegins.mem_iff.mp (honly r hr))) ?_ ?_
        · rw [hsource, hsource']
        · rw [hshown, hshown', hsame order hperm, hsame _ hbegins]
      rw [heq]
      exact hmarks a b hab ha
    obtain ⟨a, b, c, d, hab, hcd, ha, hc, hlow, hhigh⟩ := hcollide
    rcases (hfirst v hv a b hab ha).apart (hfirst w hw c d hcd hc) hvw with hle | hle
    · omega
    · omega
  · intro h order hperm
    exact replaceAll_apart hnew h fun q => hperm.mem_iff

end Order

end Text
