import Gabriel.Lib.Text

/-!
# `Gabriel.Lib.Template`: references between delimiters

A template is cut at its references: `parse opn cls t` lists, for each one, the literal text
before it and the name between the delimiters, and the text after the last one. A template
whose last reference is not closed is marked.

For values that are not themselves templates, filling the references with texts that hold no opening
delimiter never gives a text that ends in the template, unless there was no reference: the
delimiters are counted. The theorems:

* `parseFuel_eq`: more fuel than the length of the template changes nothing.
* `parse_of_clean`, `parse_of_unterminated`, `parse_of_ref`: what a template begins with.
* `parse_induction`: induction along the references of a template.
* `render_parse`: the references and the tail make up the template.
* `count_fill`: a character that stands in no delimiter is counted in the literals and the values.
* `refs_eq_nil_of_fill_eq`: values without the opening delimiter never bring the references back.
-/

set_option autoImplicit false

namespace Template

open Text

variable {α : Type}

/-- A template cut at its references. -/
structure Parsed (α : Type) where
  /-- The literal text before each reference, and the name inside it. -/
  refs : List (List α × List α)
  /-- What follows the last reference. -/
  tail : List α
  /-- Whether every opening delimiter has its closing one. -/
  terminated : Bool
  deriving DecidableEq

/-- The scanner, for at most `fuel` references. -/
def parseFuel [DecidableEq α] (opn cls : List α) : Nat → List α → Parsed α
  | 0, t => ⟨[], t, true⟩
  | fuel + 1, t =>
    match splitOnce opn t with
    | none => ⟨[], t, true⟩
    | some (lit, after) =>
      match splitOnce cls after with
      | none => ⟨[], t, false⟩
      | some (name, rest) =>
        let parsed := parseFuel opn cls fuel rest
        { parsed with refs := (lit, name) :: parsed.refs }

/-- Cut a template at its references. A reference is a character long at least, so the length
of the template bounds their number. -/
def parse [DecidableEq α] (opn cls : List α) (t : List α) : Parsed α := parseFuel opn cls t.length t

/-- Write the references back. -/
def renderRefs (opn cls : List α) (refs : List (List α × List α)) : List α :=
  refs.flatMap fun ref => ref.1 ++ opn ++ ref.2 ++ cls

/-- Write a value in place of each reference. -/
def fill : List (List α × List α) → List (List α) → List α
  | (lit, _) :: refs, value :: values => lit ++ value ++ fill refs values
  | _, _ => []

/-- A template without references has no values to fill in. -/
@[simp] theorem fill_nil (values : List (List α)) : fill [] values = [] := rfl

/-- A first reference is filled with the first value. -/
@[simp] theorem fill_cons (lit name value : List α) (refs : List (List α × List α))
    (values : List (List α)) :
    fill ((lit, name) :: refs) (value :: values) = lit ++ value ++ fill refs values := rfl

/-! ### The scanner -/

section Scan

variable [DecidableEq α] {opn cls : List α}

/-- The part after a reference is shorter. -/
theorem length_lt_of_ref (hopn : opn ≠ []) {t lit after name rest : List α}
    (hlit : splitOnce opn t = some (lit, after))
    (hname : splitOnce cls after = some (name, rest)) : rest.length < t.length := by
  have hpos : 0 < opn.length := List.length_pos_iff.mpr hopn
  rw [eq_of_splitOnce hlit, eq_of_splitOnce hname]
  simp only [List.length_append]
  omega

/-- More fuel than the length of the template changes nothing. -/
theorem parseFuel_eq (hopn : opn ≠ []) (fuel : Nat) (t : List α) (h : t.length ≤ fuel) :
    parseFuel opn cls fuel t = parse opn cls t := by
  -- Any two amounts of fuel that are enough agree.
  suffices hgen : ∀ n (t : List α), t.length ≤ n → ∀ m, t.length ≤ m →
      parseFuel opn cls n t = parseFuel opn cls m t from hgen _ _ h _ (Nat.le_refl _)
  intro n
  -- Induction on the fuel; the text behind a reference is shorter.
  induction n with
  | zero =>
    -- Without fuel the text is empty, and then nothing is read.
    intro t hn m hm
    obtain rfl : t = [] := List.eq_nil_of_length_eq_zero (by omega)
    have hnone : splitOnce opn ([] : List α) = none := by simp [splitOnce, hopn]
    cases m with
    | zero => rfl
    | succ m => rw [parseFuel, parseFuel, hnone]
  | succ n ih =>
    intro t hn m hm
    cases m with
    | zero =>
      obtain rfl : t = [] := List.eq_nil_of_length_eq_zero (by omega)
      have hnone : splitOnce opn ([] : List α) = none := by simp [splitOnce, hopn]
      rw [parseFuel, parseFuel, hnone]
    | succ m =>
      rw [parseFuel, parseFuel]
      -- Both split at the same places, so they differ in the rest only.
      cases hlit : splitOnce opn t with
      | none => rfl
      | some cut =>
        cases hname : splitOnce cls cut.2 with
        | none => simp only [hname]
        | some cut' =>
          have hlt := length_lt_of_ref hopn hlit hname
          simp only [hname, ih cut'.2 (by omega) m (by omega)]

/-- A text without the opening delimiter has no reference. -/
theorem parse_of_clean {t : List α} (h : ¬ opn <:+: t) : parse opn cls t = ⟨[], t, true⟩ := by
  have hnone := splitOnce_eq_none_iff.mpr h
  unfold parse
  cases t.length with
  | zero => rfl
  | succ n => rw [parseFuel, hnone]

/-- An opening delimiter that is never closed. -/
theorem parse_of_unterminated {t lit after : List α} (hopn : opn ≠ [])
    (hlit : splitOnce opn t = some (lit, after)) (hname : splitOnce cls after = none) :
    parse opn cls t = ⟨[], t, false⟩ := by
  rw [← parseFuel_eq hopn (t.length + 1) t (Nat.le_succ _), parseFuel, hlit]
  simp only [hname]

/-- The first reference, and then the rest. -/
theorem parse_of_ref {t lit after name rest : List α} (hopn : opn ≠ [])
    (hlit : splitOnce opn t = some (lit, after))
    (hname : splitOnce cls after = some (name, rest)) :
    parse opn cls t
      = { parse opn cls rest with refs := (lit, name) :: (parse opn cls rest).refs } := by
  have hlt := length_lt_of_ref hopn hlit hname
  rw [← parseFuel_eq hopn (t.length + 1) t (Nat.le_succ _), parseFuel, hlit]
  simp only [hname, parseFuel_eq hopn t.length rest (by omega)]

/-- Induction along the references of a template. -/
theorem parse_induction (cls : List α) (hopn : opn ≠ []) {motive : List α → Prop}
    (clean : ∀ t, ¬ opn <:+: t → motive t)
    (unterminated : ∀ t lit after, splitOnce opn t = some (lit, after) →
      splitOnce cls after = none → motive t)
    (ref : ∀ t lit after name rest, splitOnce opn t = some (lit, after) →
      splitOnce cls after = some (name, rest) → motive rest → motive t) (t : List α) :
    motive t := by
  induction hn : t.length using Nat.strong_induction_on generalizing t with
  | _ n ih =>
    cases hlit : splitOnce opn t with
    | none => exact clean t (splitOnce_eq_none_iff.mp hlit)
    | some cut =>
      cases hname : splitOnce cls cut.2 with
      | none => exact unterminated t cut.1 cut.2 hlit hname
      | some cut' =>
        have hlt := length_lt_of_ref hopn hlit hname
        exact ref t cut.1 cut.2 cut'.1 cut'.2 hlit hname (ih _ (by omega) cut'.2 rfl)

/-- The references and the tail make up the template. -/
theorem render_parse (hopn : opn ≠ []) (t : List α) :
    renderRefs opn cls (parse opn cls t).refs ++ (parse opn cls t).tail = t := by
  induction t using parse_induction cls hopn with
  | clean t h => rw [parse_of_clean h]; rfl
  | unterminated t lit after hlit hname => rw [parse_of_unterminated hopn hlit hname]; rfl
  | ref t lit after name rest hlit hname ih =>
    rw [parse_of_ref hopn hlit hname, renderRefs, List.flatMap_cons]
    rw [renderRefs] at ih
    rw [List.append_assoc, ih]
    rw [eq_of_splitOnce hlit, eq_of_splitOnce hname]
    simp only [List.append_assoc]

/-- A name between the delimiters does not hold the closing one. -/
theorem not_closing_of_ref (hopn : opn ≠ []) (hcls : cls ≠ []) (t : List α) :
    ∀ ref ∈ (parse opn cls t).refs, ¬ cls <:+: ref.2 := by
  induction t using parse_induction cls hopn with
  | clean t h => rw [parse_of_clean h]; simp
  | unterminated t lit after hlit hname => rw [parse_of_unterminated hopn hlit hname]; simp
  | ref t lit after name rest hlit hname ih =>
    rw [parse_of_ref hopn hlit hname]
    intro ref href
    rcases List.mem_cons.mp href with rfl | href
    · exact not_infix_of_splitOnce hcls hname
    · exact ih ref href

/-- A template that holds the opening delimiter has a reference, or is not terminated. -/
theorem refs_ne_nil (hopn : opn ≠ []) {t : List α} (h : opn <:+: t)
    (hterm : (parse opn cls t).terminated = true) : (parse opn cls t).refs ≠ [] := by
  obtain ⟨⟨lit, after⟩, hlit⟩ := Option.isSome_iff_exists.mp (splitOnce_isSome_iff.mpr h)
  cases hname : splitOnce cls after with
  | none =>
    rw [parse_of_unterminated hopn hlit hname] at hterm
    exact absurd hterm (by simp)
  | some cut => simp [parse_of_ref hopn hlit hname]

end Scan

/-! ### Filling -/

/-- A character that stands in no delimiter is counted in the literals and the values. -/
theorem count_fill [DecidableEq α] {opn cls : List α} {c : α} (hopn : c ∉ opn) (hcls : c ∉ cls)
    (refs : List (List α × List α)) (values : List (List α)) (hlen : values.length = refs.length) :
    (fill refs values).count c + (refs.map fun ref => ref.2.count c).sum
      = (renderRefs opn cls refs).count c + (values.map (List.count c)).sum := by
  induction refs generalizing values with
  | nil =>
    obtain rfl : values = [] := List.eq_nil_of_length_eq_zero hlen
    simp [fill, renderRefs]
  | cons ref refs ih =>
    cases values with
    | nil => simp at hlen
    | cons value values =>
      have hrec := ih values (by simpa using hlen)
      have hopn0 : opn.count c = 0 := List.count_eq_zero.mpr hopn
      have hcls0 : cls.count c = 0 := List.count_eq_zero.mpr hcls
      simp only [fill, renderRefs, List.flatMap_cons, List.count_append, List.map_cons,
        List.sum_cons, hopn0, hcls0] at hrec ⊢
      omega

/-- Values without a character take the place of the ones in the delimiters. -/
theorem count_fill_le [DecidableEq α] {opn cls : List α} (c : α) (refs : List (List α × List α))
    (values : List (List α)) (hlen : values.length = refs.length)
    (hclean : ∀ value ∈ values, c ∉ value) :
    (fill refs values).count c + refs.length * opn.count c
      ≤ (renderRefs opn cls refs).count c := by
  induction refs generalizing values with
  | nil => simp [fill]
  | cons ref refs ih =>
    cases values with
    | nil => simp at hlen
    | cons value values =>
      have hvalue : value.count c = 0 :=
        List.count_eq_zero.mpr (hclean value List.mem_cons_self)
      have hrec := ih values (by simpa using hlen) fun v hv => hclean v (List.mem_cons_of_mem _ hv)
      simp only [fill, renderRefs, List.flatMap_cons, List.count_append, List.length_cons,
        hvalue, Nat.add_mul, Nat.one_mul] at hrec ⊢
      omega

/-- Values without the opening delimiter never bring the references back: a filled template
ends in the template itself only when it has no reference. -/
theorem refs_eq_nil_of_fill_eq {opn cls : List α} (refs : List (List α × List α))
    (values : List (List α)) (hlen : values.length = refs.length)
    (hclean : ∀ value ∈ values, ¬ opn <:+: value) (x tail : List α)
    (h : fill refs values ++ tail = x ++ (renderRefs opn cls refs ++ tail)) : refs = [] := by
  induction refs generalizing values x with
  | nil => rfl
  | cons ref refs ih =>
    obtain ⟨lit, name⟩ := ref
    cases values with
    | nil => simp at hlen
    | cons value values =>
      have hshape : (lit ++ value) ++ (fill refs values ++ tail)
          = (x ++ lit ++ opn ++ name ++ cls) ++ (renderRefs opn cls refs ++ tail) := by
        simpa [fill, renderRefs, List.append_assoc] using h
      -- The value is too short to reach over the opening delimiter of its own reference.
      have hshort : (lit ++ value).length < (x ++ lit ++ opn).length := by
        by_contra hge
        rw [not_lt] at hge
        have hleft : x ++ lit ++ opn <+: lit ++ value ++ (fill refs values ++ tail) := by
          rw [hshape]
          exact ⟨name ++ cls ++ (renderRefs opn cls refs ++ tail), by simp only [List.append_assoc]⟩
        have hpre : x ++ lit ++ opn <+: lit ++ value :=
          List.prefix_of_prefix_length_le hleft (List.prefix_append _ _) hge
        have hdrop : opn <:+: (lit ++ value).drop lit.length := by
          obtain ⟨r, hr⟩ := hpre
          rw [← hr]
          have hle : lit.length ≤ (x ++ lit).length := by simp
          rw [List.append_assoc, List.drop_append_of_le_length hle, ← List.append_assoc]
          exact ⟨(x ++ lit).drop lit.length, r, rfl⟩
        rw [List.drop_left] at hdrop
        exact hclean value List.mem_cons_self hdrop
      obtain ⟨y, hy, hrest⟩ : ∃ y, x ++ lit ++ opn ++ name ++ cls = (lit ++ value) ++ y ∧
          fill refs values ++ tail = y ++ (renderRefs opn cls refs ++ tail) := by
        rcases List.append_eq_append_iff.mp hshape with ⟨y, hy, hrest⟩ | ⟨y, hy, -⟩
        · exact ⟨y, hy, hrest⟩
        · have hlong := congrArg List.length hy
          simp only [List.length_append] at hlong hshort
          omega
      have hnil := ih values (by simpa using hlen)
        (fun v hv => hclean v (List.mem_cons_of_mem _ hv)) y hrest
      subst hnil
      have hylen := congrArg List.length hrest
      have hxlen := congrArg List.length hy
      simp only [fill, renderRefs, List.flatMap_nil, List.nil_append, List.length_append]
        at hylen hxlen hshort
      omega

end Template
