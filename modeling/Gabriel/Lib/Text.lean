import Mathlib

/-!
# `Gabriel.Lib.Text`: text as a list of scalar values

A `Text` is the sequence of Unicode scalar values a UTF-8 string decodes to. The scanning
functions the models call live here: the split at the first occurrence of a pattern, the
white-space trim, and the ASCII case fold. Each comes with the lemma its callers rewrite with,
so no proof above this module unfolds a scan. The theorems:

* `eqIgnoreAsciiCase_iff`, `asciiLower_idem`: the comparison up to letter case.
* `trim_of_forall`, `trim_trim`, `trim_eq_self_iff`: the trim.
* `splitOnce_eq_some_iff`: `splitOnce pat t = some (a, b)` exactly when `t = a ++ pat ++ b` and the
  pattern starts nowhere before.
* `splitOnce_eq_none_iff`: there is no split exactly when the pattern does not occur.
* `splitSeq_intercalate`, `splitOnP_intercalate`: a join of pieces is split into these pieces.
* `splitOn_append`: splitting a text that goes on.
* `splitWhitespace_append`: white space between two texts ends the words of the first one.
-/

set_option autoImplicit false

/-- A string of Unicode scalar values. -/
abbrev Text := List Char

/-- The equality test of two texts is equality. -/
instance : LawfulBEq Text := List.instLawfulBEq

namespace Text

/-! ### White space and letter case -/

/-- The Unicode `White_Space` property. -/
def isWhitespace (c : Char) : Bool :=
  let n := c.toNat
  (0x09 ≤ n && n ≤ 0x0D) || n == 0x20 || n == 0x85 || n == 0xA0 || n == 0x1680
    || (0x2000 ≤ n && n ≤ 0x200A) || n == 0x2028 || n == 0x2029 || n == 0x202F
    || n == 0x205F || n == 0x3000

/-- Drop the leading and the trailing white space. -/
def trim (t : Text) : Text :=
  (t.dropWhile isWhitespace).rdropWhile isWhitespace

/-- The words of a text, split at runs of white space; no word is empty. -/
def splitWhitespace (t : Text) : List Text :=
  (t.splitOnP isWhitespace).filter (· ≠ [])

/-- ASCII lower case: letters `A` to `Z` change, every other character stays. -/
def asciiLower (t : Text) : Text := t.map Char.toLower

/-- ASCII upper case: letters `a` to `z` change, every other character stays. -/
def asciiUpper (t : Text) : Text := t.map Char.toUpper

/-- Equality up to ASCII letter case. -/
def eqIgnoreAsciiCase (s t : Text) : Bool := asciiLower s == asciiLower t

/-- The length of the UTF-8 form in bytes. -/
def utf8Len (t : Text) : Nat := (t.map Char.utf8Size).sum

/-- ASCII characters are one byte each. -/
theorem utf8Len_of_ascii {t : Text} (h : ∀ c ∈ t, c.toNat ≤ 127) : utf8Len t = t.length := by
  induction t with
  | nil => rfl
  | cons c t ih =>
    rw [List.forall_mem_cons] at h
    have hsize : c.utf8Size = 1 :=
      Char.utf8Size_eq_one_iff.mpr (UInt32.le_iff_toNat_le.mpr h.1)
    show c.utf8Size + utf8Len t = t.length + 1
    rw [hsize, ih h.2, Nat.add_comm]

/-- The empty text in lower case. -/
@[simp] theorem asciiLower_nil : asciiLower [] = [] := rfl

/-- Two texts in lower case, one after the other. -/
@[simp] theorem asciiLower_append (s t : Text) :
    asciiLower (s ++ t) = asciiLower s ++ asciiLower t := List.map_append

/-- The case-insensitive comparison is equality of the lower-case forms. -/
theorem eqIgnoreAsciiCase_iff {s t : Text} :
    eqIgnoreAsciiCase s t = true ↔ asciiLower s = asciiLower t := by
  simp [eqIgnoreAsciiCase]

/-- Lower case is stable under a second application. -/
@[simp] theorem asciiLower_idem (t : Text) : asciiLower (asciiLower t) = asciiLower t := by
  unfold asciiLower
  rw [List.map_map]
  refine List.map_congr_left fun c _ => ?_
  show c.toLower.toLower = c.toLower
  by_cases h : c.val ≥ 'A'.val ∧ c.val ≤ 'Z'.val
  · have hlow : c.toLower.val = c.val + ('a'.val - 'A'.val) := by
      rw [Char.toLower, dif_pos h]
    rw [Char.toLower.eq_1 c.toLower, dif_neg]
    rw [hlow]
    simp only [ge_iff_le, UInt32.le_iff_toNat_le, UInt32.toNat_add, not_and, not_le] at h ⊢
    have : ('A'.val).toNat = 65 := rfl
    have : ('Z'.val).toNat = 90 := rfl
    have : ('a'.val - 'A'.val).toNat = 32 := rfl
    omega
  · have hsame : c.toLower = c := by simp only [Char.toLower, h, dite_false]
    rw [hsame, hsame]

/-- Letter case does not change what is white space. -/
theorem isWhitespace_toLower (c : Char) : isWhitespace c.toLower = isWhitespace c := by
  by_cases h : c.val ≥ 'A'.val ∧ c.val ≤ 'Z'.val
  · have hlow : c.toLower.val = c.val + ('a'.val - 'A'.val) := by
      rw [Char.toLower, dif_pos h]
    have hnat : c.toLower.toNat = c.toNat + 32 ∧ 65 ≤ c.toNat ∧ c.toNat ≤ 90 := by
      simp only [ge_iff_le, UInt32.le_iff_toNat_le] at h
      have hsum := congrArg UInt32.toNat hlow
      rw [UInt32.toNat_add] at hsum
      have : ('A'.val).toNat = 65 := rfl
      have : ('Z'.val).toNat = 90 := rfl
      have : ('a'.val - 'A'.val).toNat = 32 := rfl
      show c.toLower.val.toNat = c.val.toNat + 32 ∧ 65 ≤ c.val.toNat ∧ c.val.toNat ≤ 90
      omega
    -- Neither the letters `A` to `Z` nor the letters `a` to `z` are white space.
    have hno : ∀ n, 65 ≤ n → n ≤ 122 → ((0x09 ≤ n && n ≤ 0x0D) || n == 0x20 || n == 0x85
        || n == 0xA0 || n == 0x1680 || (0x2000 ≤ n && n ≤ 0x200A) || n == 0x2028 || n == 0x2029
        || n == 0x202F || n == 0x205F || n == 0x3000) = false := by
      intro n h1 h2
      simp only [Bool.or_eq_false_iff, Bool.and_eq_false_iff, decide_eq_false_iff_not,
        beq_eq_false_iff_ne]
      omega
    have hboth : isWhitespace c = false ∧ isWhitespace c.toLower = false :=
      ⟨hno _ (by omega) (by omega), hno _ (by omega) (by omega)⟩
    rw [hboth.1, hboth.2]
  · have hsame : c.toLower = c := by simp only [Char.toLower, h, dite_false]
    rw [hsame]

/-- A text without white space is its own trim. -/
theorem trim_of_forall {t : Text} (h : ∀ c ∈ t, isWhitespace c = false) : trim t = t := by
  have hdrop : t.dropWhile isWhitespace = t := by
    cases t with
    | nil => rfl
    | cons c t => rw [List.dropWhile_cons, h c List.mem_cons_self]; rfl
  rw [trim, hdrop, List.rdropWhile_eq_self_iff]
  intro hne hlast
  rw [h _ (List.getLast_mem hne)] at hlast
  exact absurd hlast (by simp)

/-- A character of a text is white space or stands in its trim. -/
theorem isWhitespace_or_mem_trim {t : Text} {c : Char} (hc : c ∈ t) :
    isWhitespace c = true ∨ c ∈ trim t := by
  have hside : ∀ s : Text, c ∈ s → isWhitespace c = true ∨ c ∈ s.dropWhile isWhitespace := by
    intro s hs
    rw [← List.takeWhile_append_dropWhile (p := isWhitespace) (l := s), List.mem_append] at hs
    exact hs.imp_left List.mem_takeWhile_imp
  rcases hside t hc with h | h
  · exact Or.inl h
  · rcases hside _ (List.mem_reverse.mpr h) with h | h
    · exact Or.inl h
    · exact Or.inr (List.mem_reverse.mpr h)

/-- A second trim changes nothing. -/
@[simp] theorem trim_trim (t : Text) : trim (trim t) = trim t := by
  have hdrop : (trim t).dropWhile isWhitespace = trim t := by
    cases htrim : trim t with
    | nil => rfl
    | cons c rest =>
      -- The first character of the trim is the first one that is not white space.
      have hpre : c :: rest <+: t.dropWhile isWhitespace := by
        rw [← htrim]
        exact List.rdropWhile_prefix _ _
      obtain ⟨rest', hrest⟩ := hpre
      have hc : isWhitespace c = false := by
        have hhead := List.head?_dropWhile_not isWhitespace t
        rw [← hrest] at hhead
        simpa using hhead
      rw [List.dropWhile_cons, hc]
      rfl
  show (((trim t).dropWhile isWhitespace).rdropWhile isWhitespace) = trim t
  rw [hdrop]
  exact List.rdropWhile_idempotent _ _

/-- A text is its own trim when there is no white space at its ends. -/
theorem trim_eq_self_iff {t : Text} :
    trim t = t ↔ (∀ c, t.head? = some c → isWhitespace c = false) ∧
      ∀ c, t.getLast? = some c → isWhitespace c = false := by
  constructor
  · intro h
    -- The trim is a prefix of what is left after the front is cut, so nothing was cut at the front.
    have hdrop : t.dropWhile isWhitespace = t := by
      have hsuffix : t.dropWhile isWhitespace <:+ t := List.dropWhile_suffix _
      have hlen : t.length ≤ (t.dropWhile isWhitespace).length := by
        conv_lhs => rw [← h]
        exact (List.rdropWhile_prefix _ _).length_le
      exact hsuffix.eq_of_length (Nat.le_antisymm hsuffix.length_le hlen)
    have hrdrop : t.rdropWhile isWhitespace = t := by
      rw [trim, hdrop] at h
      exact h
    constructor
    · intro c hc
      have hhead := List.head?_dropWhile_not isWhitespace t
      rw [hdrop, hc] at hhead
      simpa using hhead
    · intro c hc
      have hne : t ≠ [] := by
        rintro rfl
        simp at hc
      have hlast := List.rdropWhile_eq_self_iff.mp hrdrop hne
      rw [List.getLast?_eq_some_getLast hne, Option.some.injEq] at hc
      rw [← hc]
      simpa using hlast
  · rintro ⟨hhead, hlast⟩
    -- No white space at the front, so the first cut is empty, and none at the end either.
    have hdrop : t.dropWhile isWhitespace = t := by
      cases t with
      | nil => rfl
      | cons c t => rw [List.dropWhile_cons, hhead c rfl]; rfl
    rw [trim, hdrop, List.rdropWhile_eq_self_iff]
    intro hne
    rw [hlast _ (List.getLast?_eq_some_getLast hne)]
    exact Bool.false_ne_true

/-- A space on both sides is trimmed off. -/
theorem trim_pad (t : Text) : trim (' ' :: t ++ [' ']) = trim t := by
  have hspace : isWhitespace ' ' = true := by decide
  show ((' ' :: (t ++ [' '])).dropWhile isWhitespace).rdropWhile isWhitespace = trim t
  rw [List.dropWhile_cons, hspace, if_pos rfl, List.dropWhile_append]
  split
  · rename_i hempty
    rw [trim, List.isEmpty_iff.mp hempty]
    rfl
  · rw [List.rdropWhile_concat_pos _ _ _ hspace]
    rfl

/-- The trim is a part of the text. -/
theorem isInfix_trim (t : Text) : trim t <:+: t :=
  (List.rdropWhile_prefix _ _).isInfix.trans (List.dropWhile_suffix _).isInfix

/-- A test of every item of a list. -/
theorem forall_mem_of_all {α : Type*} {p : α → Prop} [DecidablePred p] {l : List α}
    (h : (l.all fun a => decide (p a)) = true) : ∀ a ∈ l, p a :=
  fun a ha => of_decide_eq_true (List.all_eq_true.mp h a ha)

/-! ### The first occurrence of a pattern -/

section Split

variable {α : Type*} [DecidableEq α]

/-- Split at the first occurrence of `pat`: what stands before it and what stands after it. -/
def splitOnce (pat : List α) : List α → Option (List α × List α)
  | [] => if pat = [] then some ([], []) else none
  | c :: cs =>
    if pat <+: c :: cs then some ([], (c :: cs).drop pat.length)
    else (splitOnce pat cs).map fun (before, after) => (c :: before, after)

/-- The pieces between the occurrences of `pat`, at most `fuel` of them cut off. -/
def splitSeqFuel (pat : List α) : Nat → List α → List (List α)
  | 0, t => [t]
  | fuel + 1, t =>
    match splitOnce pat t with
    | some (before, after) => before :: splitSeqFuel pat fuel after
    | none => [t]

/-- The pieces between the occurrences of a nonempty pattern. -/
def splitSeq (pat t : List α) : List (List α) := splitSeqFuel pat t.length t

/-- A split puts the text back together. -/
theorem eq_of_splitOnce {pat t a b : List α} (h : splitOnce pat t = some (a, b)) :
    t = a ++ pat ++ b := by
  induction t generalizing a b with
  | nil =>
    simp only [splitOnce] at h
    split at h <;> simp_all
  | cons c cs ih =>
    simp only [splitOnce] at h
    split at h
    · rename_i hpre
      obtain ⟨rfl, rfl⟩ := by simpa using h
      obtain ⟨r, hr⟩ := hpre
      rw [← hr]
      simp
    · obtain ⟨a', hrec, rfl⟩ : ∃ a', splitOnce pat cs = some (a', b) ∧ c :: a' = a := by
        simpa [Option.map_eq_some_iff] using h
      rw [ih hrec]
      simp

/-- There is no split exactly when the pattern does not occur. -/
theorem splitOnce_eq_none_iff {pat t : List α} : splitOnce pat t = none ↔ ¬ pat <:+: t := by
  induction t with
  | nil => by_cases h : pat = [] <;> simp [splitOnce, h]
  | cons c cs ih =>
    simp only [splitOnce]
    split
    · rename_i h
      simpa using h.isInfix
    · rename_i h
      rw [Option.map_eq_none_iff, ih, List.infix_cons_iff, not_or]
      exact ⟨fun h' => ⟨h, h'⟩, fun h' => h'.2⟩

/-- The pattern occurs exactly when there is a split. -/
theorem splitOnce_isSome_iff {pat t : List α} : (splitOnce pat t).isSome ↔ pat <:+: t := by
  rw [← not_iff_not, ← splitOnce_eq_none_iff]
  simp

/-- The split is at the first occurrence: the pattern starts nowhere inside `a`. -/
theorem not_prefix_of_splitOnce {pat t a b : List α} (h : splitOnce pat t = some (a, b)) :
    ∀ p s, a = p ++ s → s ≠ [] → ¬ pat <+: s ++ pat ++ b := by
  induction t generalizing a b with
  | nil =>
    simp only [splitOnce] at h
    split at h
    · obtain ⟨rfl, -⟩ := by simpa using h
      intro p s hps hs
      simp_all
    · simp at h
  | cons c cs ih =>
    have hcat := eq_of_splitOnce h
    -- Either the pattern starts here, with nothing before it, or the split is in the rest.
    simp only [splitOnce] at h
    split at h
    · obtain ⟨rfl, -⟩ := by simpa using h
      intro p s hps hs
      simp_all
    · rename_i hpre
      obtain ⟨a', hrec, rfl⟩ : ∃ a', splitOnce pat cs = some (a', b) ∧ c :: a' = a := by
        simpa [Option.map_eq_some_iff] using h
      intro p s hps hs
      -- The pattern does not start at the first character, and the hypothesis covers the rest.
      cases p with
      | nil =>
        rw [List.nil_append] at hps
        rwa [← hps, ← hcat]
      | cons d p =>
        exact ih hrec p s (List.cons.inj hps).2 hs

/-- A text cut at a place before which the pattern starts nowhere splits there. -/
theorem splitOnce_append {pat a b : List α}
    (h : ∀ p s, a = p ++ s → s ≠ [] → ¬ pat <+: s ++ pat ++ b) :
    splitOnce pat (a ++ pat ++ b) = some (a, b) := by
  induction a with
  | nil =>
    cases hp : pat ++ b with
    | nil =>
      obtain ⟨rfl, rfl⟩ := List.append_eq_nil_iff.mp hp
      simp [splitOnce]
    | cons c cs =>
      have hpre : pat <+: c :: cs := hp ▸ List.prefix_append pat b
      rw [List.nil_append, hp, splitOnce, if_pos hpre, ← hp, List.drop_left]
  | cons c a ih =>
    have hne : ¬ pat <+: c :: (a ++ pat ++ b) := h [] (c :: a) rfl (by simp)
    have hrec := ih fun p s hps hs => h (c :: p) s (by rw [hps]; rfl) hs
    rw [List.cons_append, List.cons_append, splitOnce, if_neg hne, hrec]
    rfl

/-- `splitOnce` cuts at the first occurrence and nowhere else. -/
theorem splitOnce_eq_some_iff {pat t a b : List α} :
    splitOnce pat t = some (a, b) ↔
      t = a ++ pat ++ b ∧ ∀ p s, a = p ++ s → s ≠ [] → ¬ pat <+: s ++ pat ++ b := by
  constructor
  · exact fun h => ⟨eq_of_splitOnce h, not_prefix_of_splitOnce h⟩
  · rintro ⟨rfl, h⟩
    exact splitOnce_append h

/-- The pattern does not occur in the part before it. -/
theorem not_infix_of_splitOnce {pat t a b : List α} (hpat : pat ≠ [])
    (h : splitOnce pat t = some (a, b)) : ¬ pat <:+: a := by
  rintro ⟨p, s, rfl⟩
  have hno := not_prefix_of_splitOnce h p (pat ++ s) (by simp) (by simp [hpat])
  exact hno ⟨s ++ pat ++ b, by simp⟩

/-- A one-character pattern: the part before holds no such character. -/
theorem splitOnce_singleton_iff {c : α} {t a b : List α} :
    splitOnce [c] t = some (a, b) ↔ t = a ++ c :: b ∧ c ∉ a := by
  rw [splitOnce_eq_some_iff]
  constructor
  · rintro ⟨rfl, h⟩
    refine ⟨by simp, fun hc => ?_⟩
    obtain ⟨p, s, rfl⟩ := List.append_of_mem hc
    exact h p (c :: s) rfl (by simp) (by simp)
  · rintro ⟨rfl, h⟩
    refine ⟨by simp, ?_⟩
    rintro p s rfl hs
    cases s with
    | nil => exact absurd rfl hs
    | cons d s =>
      rw [List.cons_append, List.cons_append, List.cons_prefix_cons]
      rintro ⟨rfl, -⟩
      exact h (by simp)

/-- A text without the character does not split. -/
theorem splitOnce_singleton_eq_none {c : α} {t : List α} :
    splitOnce [c] t = none ↔ c ∉ t := by
  rw [splitOnce_eq_none_iff, List.singleton_infix_iff]

/-- A pattern does not reach over a character it does not hold. -/
theorem infix_append_cons_iff {α : Type*} {pat a b : List α} {c : α} (hc : c ∉ pat) :
    pat <:+: a ++ c :: b ↔ pat <:+: a ∨ pat <:+: b := by
  -- A prefix of the pattern that starts at the character is empty.
  have hstart : ∀ l, l <+: c :: b → (∀ x ∈ l, x ∈ pat) → l = [] := by
    intro l hl hsub
    cases l with
    | nil => rfl
    | cons x l =>
      obtain ⟨rfl, -⟩ := List.cons_prefix_cons.mp hl
      exact absurd (hsub x List.mem_cons_self) hc
  constructor
  · intro h
    rcases List.infix_append_iff.mp h with h | h | ⟨l, l', rfl, hl, hl'⟩
    · exact Or.inl h
    · rcases List.infix_cons_iff.mp h with h | h
      · rw [hstart pat h fun x hx => hx]
        exact Or.inl List.nil_infix
      · exact Or.inr h
    · rw [hstart l' hl' fun x hx => List.mem_append_right _ hx, List.append_nil]
      exact Or.inl hl.isInfix
  · rintro (h | h)
    · exact List.infix_append_of_infix_left h
    · exact List.infix_append_of_infix_right (h.trans (List.suffix_cons c b).isInfix)

/-- Pieces that do not hold the pattern's first character, joined by the pattern, split again. -/
theorem splitSeqFuel_intercalate {c : α} {pat : List α} {l : List (List α)} (hl : l ≠ [])
    (h : ∀ piece ∈ l, c ∉ piece) {fuel : Nat}
    (hfuel : (List.intercalate (c :: pat) l).length ≤ fuel) :
    splitSeqFuel (c :: pat) fuel (List.intercalate (c :: pat) l) = l := by
  induction l generalizing fuel with
  | nil => exact absurd rfl hl
  | cons piece l ih =>
    have hpiece : c ∉ piece := h piece List.mem_cons_self
    cases l with
    | nil =>
      have hwhole : List.intercalate (c :: pat) [piece] = piece := by simp [List.intercalate]
      rw [hwhole]
      cases fuel with
      | zero => rfl
      | succ fuel =>
        have hnone : splitOnce (c :: pat) piece = none := by
          rw [splitOnce_eq_none_iff]
          intro hpre
          exact hpiece (hpre.subset List.mem_cons_self)
        rw [splitSeqFuel, hnone]
    | cons next l =>
      have hjoin : List.intercalate (c :: pat) (piece :: next :: l)
          = piece ++ (c :: pat) ++ List.intercalate (c :: pat) (next :: l) := by
        simp [List.intercalate]
      rw [hjoin] at hfuel ⊢
      simp only [List.length_append, List.length_cons] at hfuel
      cases fuel with
      | zero => omega
      | succ fuel =>
        -- The pattern starts nowhere in the piece, since its first character is not there.
        have hcut : splitOnce (c :: pat) (piece ++ (c :: pat)
            ++ List.intercalate (c :: pat) (next :: l))
              = some (piece, List.intercalate (c :: pat) (next :: l)) := by
          refine splitOnce_append ?_
          intro p s hps hs hpre
          cases s with
          | nil => exact hs rfl
          | cons d s =>
            rw [List.cons_append, List.cons_append, List.cons_prefix_cons] at hpre
            rw [hps, hpre.1] at hpiece
            exact hpiece (List.mem_append_right p List.mem_cons_self)
        rw [splitSeqFuel, hcut]
        dsimp only
        rw [ih (by simp) (fun q hq => h q (List.mem_cons_of_mem _ hq)) (by omega)]

/-- The same, with the fuel of `splitSeq`. -/
theorem splitSeq_intercalate {c : α} {pat : List α} {l : List (List α)} (hl : l ≠ [])
    (h : ∀ piece ∈ l, c ∉ piece) :
    splitSeq (c :: pat) (List.intercalate (c :: pat) l) = l :=
  splitSeqFuel_intercalate hl h (Nat.le_refl _)

end Split

/-! ### Pieces between separators -/

/-- A piece between separators has none of them. -/
theorem not_of_mem_splitOnP {α : Type*} {p : α → Bool} {t piece : List α}
    (h : piece ∈ t.splitOnP p) {x : α}
    (hx : x ∈ piece) : p x = false := by
  induction t generalizing piece with
  | nil =>
    rw [List.splitOnP_nil, List.mem_singleton] at h
    rw [h] at hx
    exact absurd hx List.not_mem_nil
  | cons y ys ih =>
    rw [List.splitOnP_cons_eq_if_modifyHead] at h
    -- A separator starts a new piece; any other character joins the first piece of the rest.
    by_cases hy : p y = true
    · rw [if_pos hy, List.mem_cons] at h
      rcases h with rfl | h
      · exact absurd hx List.not_mem_nil
      · exact ih h hx
    · rw [if_neg hy] at h
      cases hpieces : List.splitOnP p ys with
      | nil => exact absurd hpieces (List.splitOnP_ne_nil _ _)
      | cons first rest =>
        rw [hpieces] at ih h
        rw [List.modifyHead_cons, List.mem_cons] at h
        rcases h with rfl | h
        · rcases List.mem_cons.mp hx with rfl | hx
          · simpa using hy
          · exact ih List.mem_cons_self hx
        · exact ih (List.mem_cons_of_mem first h) hx

/-- A piece between the occurrences of `c` has none of them. -/
theorem not_mem_of_mem_splitOn {α : Type*} [DecidableEq α] {c : α} {t piece : List α}
    (h : piece ∈ t.splitOn c) : c ∉ piece := by
  intro hc
  rw [List.splitOn_eq_splitOnP] at h
  have hno := not_of_mem_splitOnP h hc
  simp at hno

/-- A piece between separators is a part of the text. -/
theorem infix_of_mem_splitOn {α : Type*} [DecidableEq α] {c : α} {t piece : List α}
    (h : piece ∈ t.splitOn c) : piece <:+: t := by
  have key : ∀ pieces : List (List α), piece ∈ pieces → piece <:+: List.intercalate [c] pieces := by
    intro pieces hmem
    induction pieces with
    | nil => exact absurd hmem List.not_mem_nil
    | cons first rest ih =>
      by_cases hrest : rest = []
      · rw [hrest] at hmem ⊢
        rw [List.intercalate_singleton, ← List.mem_singleton.mp hmem]
      · rw [List.intercalate_cons_of_ne_nil hrest]
        rcases List.mem_cons.mp hmem with rfl | hmem
        · rw [List.append_assoc]
          exact (List.prefix_append _ _).isInfix
        · exact (ih hmem).trans (List.suffix_append _ _).isInfix
  have hpart := key _ h
  rwa [List.intercalate_splitOn] at hpart

/-- The pieces of a text hold its characters only. -/
theorem mem_of_mem_splitOn {α : Type*} [DecidableEq α] {c x : α} {t piece : List α}
    (h : piece ∈ t.splitOn c) (hx : x ∈ piece) : x ∈ t :=
  (infix_of_mem_splitOn h).subset hx

/-- A character that is no separator is in one of the pieces. -/
theorem exists_mem_splitOn {α : Type*} [DecidableEq α] {c x : α} {t : List α} (hx : x ∈ t)
    (hne : x ≠ c) : ∃ piece ∈ t.splitOn c, x ∈ piece := by
  have key : ∀ pieces : List (List α), x ∈ List.intercalate [c] pieces →
      ∃ piece ∈ pieces, x ∈ piece := by
    intro pieces hmem
    induction pieces with
    | nil => exact absurd hmem List.not_mem_nil
    | cons first rest ih =>
      by_cases hrest : rest = []
      · rw [hrest, List.intercalate_singleton] at hmem
        exact ⟨first, List.mem_cons_self, hmem⟩
      · rw [List.intercalate_cons_of_ne_nil hrest, List.append_assoc] at hmem
        rcases List.mem_append.mp hmem with hfirst | hmem
        · exact ⟨first, List.mem_cons_self, hfirst⟩
        · rcases List.mem_cons.mp hmem with hsep | hmem
          · exact absurd hsep hne
          · obtain ⟨piece, hpiece, hin⟩ := ih hmem
            exact ⟨piece, List.mem_cons_of_mem _ hpiece, hin⟩
  exact key _ (by rwa [List.intercalate_splitOn])

/-- Splitting a text that goes on: all pieces but the last stay, and the last one goes on. -/
theorem splitOn_append {α : Type*} [DecidableEq α] (c : α) (s t : List α) :
    (s ++ t).splitOn c
      = (s.splitOn c).dropLast ++ ((s.splitOn c).getLastD [] ++ t).splitOn c := by
  induction s with
  | nil => rfl
  | cons x s ih =>
    rw [List.cons_append, List.splitOn_cons_eq_if_modifyHead, List.splitOn_cons_eq_if_modifyHead,
      ih]
    obtain ⟨piece, rest, hpieces⟩ := List.exists_cons_of_ne_nil (List.splitOn_ne_nil c s)
    rw [hpieces]
    by_cases hx : (x == c) = true
    · rw [if_pos hx, if_pos hx]
      rfl
    · rw [if_neg hx, if_neg hx, List.modifyHead_cons]
      cases rest with
      | nil =>
        show List.modifyHead (x :: ·) ((piece ++ t).splitOn c) = (x :: piece ++ t).splitOn c
        rw [List.cons_append, List.splitOn_cons_eq_if_modifyHead, if_neg hx]
      | cons next rest => rfl

/-- A word is its own only word. -/
theorem splitWhitespace_word {w : Text} (hne : w ≠ []) (h : ∀ c ∈ w, isWhitespace c = false) :
    splitWhitespace w = [w] := by
  rw [splitWhitespace, List.splitOnP_eq_singleton h, List.filter_singleton]
  simp [hne]

/-- White space between two texts ends the words of the first one. -/
theorem splitWhitespace_append {c : Char} (hc : isWhitespace c = true) (s t : Text) :
    splitWhitespace (s ++ c :: t) = splitWhitespace s ++ splitWhitespace t := by
  rw [splitWhitespace, List.splitOnP_append_cons _ _ hc, List.filter_append]
  rfl

/-- A join of pieces without separators is split into these pieces. -/
theorem splitOnP_intercalate {α : Type*} {p : α → Bool} {c : α} (hc : p c = true)
    {pieces : List (List α)}
    (hne : pieces ≠ []) (h : ∀ piece ∈ pieces, ∀ x ∈ piece, p x = false) :
    (List.intercalate [c] pieces).splitOnP p = pieces := by
  induction pieces with
  | nil => exact absurd rfl hne
  | cons piece rest ih =>
    have hpiece := h piece List.mem_cons_self
    cases rest with
    | nil =>
      rw [List.intercalate_singleton]
      exact List.splitOnP_eq_singleton hpiece
    | cons next rest =>
      rw [List.intercalate_cons_cons, List.append_assoc, List.singleton_append,
        List.splitOnP_append_cons_of_forall_mem hpiece c hc,
        ih (List.cons_ne_nil _ _) fun q hq => h q (List.mem_cons_of_mem _ hq)]

/-- Fewer pieces have a shorter join. -/
theorem length_intercalate_le_of_sublist {α : Type*} {sep : List α} {l m : List (List α)}
    (h : l.Sublist m) :
    (List.intercalate sep l).length ≤ (List.intercalate sep m).length := by
  induction h with
  -- Induction on the sublist: a dropped piece takes its separator along.
  | slnil => exact Nat.le_refl _
  | @cons l m piece hsub ih =>
    cases m with
    | nil => simp_all
    | cons next rest =>
      rw [List.intercalate_cons_cons, List.length_append]
      omega
  | @cons_cons l m piece hsub ih =>
    cases l with
    | nil =>
      cases m with
      | nil => exact Nat.le_refl _
      | cons next rest =>
        rw [List.intercalate_cons_cons, List.intercalate_singleton, List.length_append,
          List.length_append]
        omega
    | cons first l =>
      cases m with
      | nil => exact absurd hsub (by simp)
      | cons next rest =>
        rw [List.intercalate_cons_cons, List.intercalate_cons_cons, List.length_append,
          List.length_append, List.length_append, List.length_append]
        omega

end Text
