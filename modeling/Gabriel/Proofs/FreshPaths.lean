import Gabriel.Cli.Collection
import Gabriel.Proofs.RequestPath
import Gabriel.Proofs.VaultNames

/-!
# `Gabriel.Proofs.FreshPaths`: the paths that are made up for requests

`slugify` makes a path of any text. `SlugShaped` is the shape of the result: letters, digits, and
single dashes between them. The loop keeps it but for one dash at the end (`SlugLoop`), which the
trim takes off. A text of that shape is its own slug, and a request path that nothing has to be done
to, on every platform.

`uniqueRequestPath` counts up until a path is free. The paths it tries are different, and there are
more of them than requests, so the search ends. The theorems:

* `slugShaped_slugify`: a slug has its shape, by the invariant of the loop.
* `SlugShaped.slugify_eq_self`: a text of the shape is its own slug.
* `sanitizeRequestPath_of_plain`: a text of plain characters is accepted as it is.
* `firstFree_uniqueRequestPath`: the search ends, at the first free path (`FirstFree`).
* `generatedPaths`: a generated request path is valid and free.
-/

set_option autoImplicit false

namespace Gabriel.Cli

open Gabriel.Core Text

/-- A character of a slug. -/
def SlugChar (c : Char) : Prop := c.isLower = true ∨ c.isDigit = true ∨ c = '-'

instance : DecidablePred SlugChar := fun _ => inferInstanceAs (Decidable (_ ∨ _ ∨ _))

/-- Small letters, digits and dashes, with no dash at the ends and no two in a row. -/
structure SlugShaped (t : Text) : Prop where
  nonempty : t ≠ []
  chars : ∀ c ∈ t, SlugChar c
  start : t.head? ≠ some '-'
  finish : t.getLast? ≠ some '-'
  single : t.IsChain fun a b => ¬ (a = '-' ∧ b = '-')

/-! ### The loop -/

/-- One turn of the loop over the characters. -/
def slugStep (out : Text × Bool) (ch : Char) : Text × Bool :=
  if ch.isAlphanum then (out.1 ++ [ch.toLower], false)
  else if out.2 then out
  else (out.1 ++ ['-'], true)

/-- `slugify` as one fold. -/
theorem slugify_eq (input : Text) : slugify input
    = if trimMatches '-' (input.foldl slugStep ([], true)).1 = [] then "request".toList
      else trimMatches '-' (input.foldl slugStep ([], true)).1 := rfl

/-- The lower case of an ASCII letter or digit is a small letter or a digit. -/
theorem lower_or_digit {c : Char} (h : c.isAlphanum = true) :
    (c.toLower.isLower = true ∨ c.toLower.isDigit = true) ∧ c.toLower ≠ '-' :=
  forall_ascii (p := fun c => c.isAlphanum = true →
    (c.toLower.isLower = true ∨ c.toLower.isDigit = true) ∧ c.toLower ≠ '-') (by decide +kernel)
    (ascii_of_isAlphanum h) h

/-- A small letter or a digit is kept as it is. -/
theorem slugChar_kept {c : Char} (h : c.isLower = true ∨ c.isDigit = true) :
    c.isAlphanum = true ∧ c.toLower = c := by
  have hal : c.isAlphanum = true := by
    unfold Char.isAlphanum Char.isAlpha
    rcases h with h | h <;> simp [h]
  exact ⟨hal, forall_ascii (p := fun c => c.isLower = true ∨ c.isDigit = true → c.toLower = c)
    (by decide +kernel) (ascii_of_isAlphanum hal) h⟩

/-- What holds of the text so far: it is a slug but for the dash at its end, which the flag tells
of. -/
structure SlugLoop (out : Text × Bool) : Prop where
  chars : ∀ c ∈ out.1, SlugChar c
  start : out.1.head? ≠ some '-'
  single : out.1.IsChain fun a b => ¬ (a = '-' ∧ b = '-')
  flag : out.2 = true ↔ out.1 = [] ∨ out.1.getLast? = some '-'

/-- One turn keeps the shape. -/
theorem SlugLoop.step {out : Text × Bool} (h : SlugLoop out) (ch : Char) :
    SlugLoop (slugStep out ch) := by
  obtain ⟨text, dash⟩ := out
  obtain ⟨hchars, hstart, hsingle, hflag⟩ := h
  dsimp only at hchars hstart hsingle hflag
  -- What a turn adds stands behind the text.
  have hadd : ∀ c, SlugChar c → (text = [] → c ≠ '-') → (text.getLast? = some '-' → c ≠ '-') →
      (∀ d ∈ text ++ [c], SlugChar d) ∧ (text ++ [c]).head? ≠ some '-' ∧
        (text ++ [c]).IsChain fun a b => ¬ (a = '-' ∧ b = '-') := by
    intro c hc hfirst hnext
    refine ⟨?_, ?_, ?_⟩
    · intro d hd
      rcases List.mem_append.mp hd with hd | hd
      · exact hchars d hd
      · rw [List.mem_singleton.mp hd]
        exact hc
    · cases text with
      | nil => simpa using hfirst rfl
      | cons d text => simpa using hstart
    · refine List.isChain_append.mpr ⟨hsingle, List.isChain_singleton c, ?_⟩
      rintro a ha b hb ⟨rfl, rfl⟩
      rw [List.head?_cons, Option.mem_some_iff] at hb
      exact hnext ha hb
  unfold slugStep
  dsimp only
  by_cases hch : ch.isAlphanum = true
  · obtain ⟨hlow, hne⟩ := lower_or_digit hch
    obtain ⟨h1, h2, h3⟩ := hadd ch.toLower (hlow.imp_right Or.inl) (fun _ => hne) (fun _ => hne)
    rw [if_pos hch]
    refine ⟨h1, h2, h3, ?_⟩
    simp [hne]
  · rw [if_neg hch]
    cases dash with
    | true => exact ⟨hchars, hstart, hsingle, hflag⟩
    | false =>
      have hno : ¬ (text = [] ∨ text.getLast? = some '-') := fun h =>
        absurd (hflag.mpr h) Bool.false_ne_true
      obtain ⟨h1, h2, h3⟩ := hadd '-' (Or.inr (Or.inr rfl)) (fun hnil => absurd (Or.inl hnil) hno)
        (fun hlast => absurd (Or.inr hlast) hno)
      refine ⟨h1, h2, h3, ?_⟩
      simp

/-- The whole loop keeps it. -/
theorem SlugLoop.foldl (input : Text) {out : Text × Bool} (h : SlugLoop out) :
    SlugLoop (input.foldl slugStep out) := by
  induction input generalizing out with
  | nil => exact h
  | cons ch input ih => exact ih (h.step ch)

/-- **A slug has its shape.** -/
theorem slugShaped_slugify (input : Text) : SlugShaped (slugify input) := by
  -- The loop starts with nothing written and the flag set.
  have hinit : SlugLoop ([], true) := by
    refine ⟨fun c hc => absurd hc List.not_mem_nil, by decide, List.IsChain.nil, ?_⟩
    simp
  obtain ⟨hchars, hstart, hsingle, -⟩ := hinit.foldl input
  -- What the loop leaves has no dash at its front, so only the end is trimmed.
  rw [slugify_eq]
  generalize (input.foldl slugStep ([], true)).1 = out at *
  have hdrop : out.dropWhile (· == '-') = out := by
    cases out with
    | nil => rfl
    | cons c out => exact List.dropWhile_cons_of_neg (by simpa using hstart)
  have htrim : trimMatches '-' out = out.rdropWhile (· == '-') := by
    unfold trimMatches
    rw [hdrop]
  have hfront : trimMatches '-' out <+: out := htrim ▸ List.rdropWhile_prefix _ _
  by_cases hnil : trimMatches '-' out = []
  -- An empty slug is replaced by the literal of the source.
  · rw [if_pos hnil]
    exact ⟨by decide, forall_mem_of_all (by decide), by decide, by decide, by decide⟩
  · rw [if_neg hnil]
    refine ⟨hnil, fun c hc => hchars c (hfront.subset hc), ?_, ?_, hsingle.prefix hfront⟩
    -- The front of the loop's text is the front of the slug, and its end was trimmed.
    · intro hhead
      obtain ⟨rest, hrest⟩ := hfront
      rw [← hrest, List.head?_append_of_ne_nil _ hnil] at hstart
      exact hstart hhead
    · intro hlast
      rw [htrim] at hnil hlast
      have hnot := List.rdropWhile_last_not (· == '-') out hnil
      rw [List.getLast?_eq_some_getLast hnil, Option.some.injEq] at hlast
      exact hnot (by simpa using hlast)

/-! ### A slug is its own slug -/

/-- The loop copies a text of the shape. -/
theorem foldl_slugStep (t : Text) {out : Text × Bool} (hchars : ∀ c ∈ t, SlugChar c)
    (hsingle : t.IsChain fun a b => ¬ (a = '-' ∧ b = '-'))
    (hflag : out.2 = true → t.head? ≠ some '-') : (t.foldl slugStep out).1 = out.1 ++ t := by
  induction t generalizing out with
  | nil => simp
  | cons c t ih =>
    -- Induction on the text; the flag says that the last character was a dash.
    have hrest : ∀ d ∈ t, SlugChar d := fun d hd => hchars d (List.mem_cons_of_mem _ hd)
    rw [List.foldl_cons]
    by_cases hdash : c = '-'
    -- Two dashes in a row are excluded, so the flag is off here.
    · have hfalse : out.2 = false := by
        by_contra hflagged
        exact hflag (by simpa using hflagged) (by simp [hdash])
      have hstep : slugStep out c = (out.1 ++ [c], true) := by
        unfold slugStep
        rw [hdash, hfalse]
        rfl
      have hnext : t.head? ≠ some '-' := by
        intro hhead
        obtain ⟨t', rfl⟩ := List.head?_eq_some_iff.mp hhead
        exact (List.isChain_cons_cons.mp hsingle).1 ⟨hdash, rfl⟩
      rw [hstep, ih hrest hsingle.tail fun _ => hnext]
      simp
    -- Any other character of the shape is copied and clears the flag.
    · have hstep : slugStep out c = (out.1 ++ [c], false) := by
        have hc : c.isLower = true ∨ c.isDigit = true :=
          (hchars c List.mem_cons_self).imp_right fun h => h.resolve_right hdash
        have hsame : c.isAlphanum = true ∧ c.toLower = c := slugChar_kept hc
        unfold slugStep
        rw [if_pos hsame.1, hsame.2]
      rw [hstep, ih hrest hsingle.tail fun h => absurd h Bool.false_ne_true]
      simp

/-- A text of the shape is its own slug. -/
theorem SlugShaped.slugify_eq_self {t : Text} (h : SlugShaped t) : slugify t = t := by
  have hloop : (t.foldl slugStep ([], true)).1 = t :=
    foldl_slugStep t h.chars h.single fun _ => h.start
  have htrim : trimMatches '-' t = t := by
    unfold trimMatches
    have hdrop : t.dropWhile (· == '-') = t := by
      cases t with
      | nil => rfl
      | cons c t => exact List.dropWhile_cons_of_neg (by simpa using h.start)
    rw [hdrop, List.rdropWhile_eq_self_iff]
    intro hne hlast
    have hfinish := h.finish
    rw [List.getLast?_eq_some_getLast hne] at hfinish
    exact hfinish (congrArg some (by simpa using hlast))
  rw [slugify_eq, hloop, htrim, if_neg h.nonempty]

/-! ### Nothing has to be done to a slug -/

/-- What a request path with plain characters does not have. -/
theorem SlugChar.plain {c : Char} (h : SlugChar c) :
    isWhitespace c = false ∧ c ≠ '/' ∧ c ≠ '\\' ∧ c ≠ ':' ∧ c ≠ '.' := by
  have hascii : c.toNat < 128 := by
    rcases h with h | h | rfl
    · exact ascii_of_isAlphanum (slugChar_kept (Or.inl h)).1
    · exact ascii_of_isAlphanum (slugChar_kept (Or.inr h)).1
    · decide
  exact forall_ascii (p := fun c => SlugChar c →
    isWhitespace c = false ∧ c ≠ '/' ∧ c ≠ '\\' ∧ c ≠ ':' ∧ c ≠ '.') (by decide +kernel) hascii h

/-- The extension is not at the end of a text without a dot. -/
theorem trimEndMatches_toml {t : Text} (h : '.' ∉ t) : trimEndMatches tomlSuffix t = t := by
  unfold trimEndMatches
  cases hlen : t.length with
  | zero => rw [trimStartMatches, List.reverse_reverse]
  | succ fuel =>
    have hno : ¬ tomlSuffix.reverse <+: t.reverse := by
      intro hfront
      have hmem : '.' ∈ t.reverse := hfront.subset (by decide)
      exact h (List.mem_reverse.mp hmem)
    rw [trimStartMatches, if_neg hno, List.reverse_reverse]

/-- A text of plain characters is accepted as it is, on every platform: it is a path of one part. -/
theorem sanitizeRequestPath_of_plain {t : Text} (hne : t ≠ []) (h : ∀ c ∈ t, SlugChar c)
    (rules : PathRules) : sanitizeRequestPath rules t = .ok t := by
  -- Plain characters exclude everything the check refuses.
  have hdot : '.' ∉ t := fun hc => (h _ hc).plain.2.2.2.2 rfl
  have hcolon : ':' ∉ t := fun hc => (h _ hc).plain.2.2.2.1 rfl
  have htoml : trimEndMatches tomlSuffix t = t := trimEndMatches_toml hdot
  have hparts : ∀ part ∈ [t], Harmless part := by
    intro part hpart
    rw [List.mem_singleton.mp hpart]
    refine ⟨hne, ?_, ?_, fun hc => (h _ hc).plain.2.1 rfl, fun hc => (h _ hc).plain.2.2.1 rfl⟩
    · rintro rfl
      exact hdot (by decide)
    · rintro rfl
      exact hdot (by decide)
  -- The one part is its own first and last part, so both ends are plain.
  have hplain : PlainEnds [t] := by
    constructor
    · intro part hpart
      obtain rfl : t = part := Option.some.inj hpart
      refine ⟨fun c hc => (h c (List.mem_of_head? hc)).plain.1, ?_⟩
      match t, hcolon with
      | [], _ => rfl
      | [c], _ => rfl
      | c :: d :: rest, hcolon =>
        have hd : d ≠ ':' := fun heq => hcolon (by simp [heq])
        simp [PathRules.hasDrive, hd]
    · intro part hpart
      obtain rfl : t = part := Option.some.inj hpart
      refine ⟨fun c hc => (h c (List.mem_of_getLast? hc)).plain.1, ?_⟩
      rw [htoml]
      have hpart := hparts t List.mem_cons_self
      simp only [List.mem_cons, List.not_mem_nil, or_false, not_or]
      exact ⟨hpart.nonempty, hpart.dot, hpart.dots⟩
  have hagain := (staysInside_of_plainEnds (List.cons_ne_nil _ _) hparts hplain).again rules
  have hone : joinParts [t] = t := List.intercalate_singleton
  rw [hone, htoml] at hagain
  exact hagain

/-! ### A free path -/

/-- The path with a number behind it. -/
def numberedPath (base : Text) (n : Nat) : Text := base ++ '-' :: natText n

/-- Different numbers make different paths. -/
theorem numberedPath_injective (base : Text) : Function.Injective (numberedPath base) := by
  intro m n h
  have hrest := List.append_cancel_left h
  exact natText_injective (List.cons.inj hrest).2

/-- A finite list does not hold all the first values of an injective sequence, when there are more
of them. -/
theorem exists_notMem {α : Type*} [DecidableEq α] {f : Nat → α} (hf : Function.Injective f)
    (used : List α) : ∃ n, n ≤ used.length ∧ f n ∉ used := by
  by_contra hnone
  have hall : ∀ n, n ≤ used.length → f n ∈ used := fun n hn =>
    by_contra fun h => hnone ⟨n, hn, h⟩
  have hsub : (Finset.range (used.length + 1)).image f ⊆ used.toFinset := by
    intro x hx
    obtain ⟨n, hn, rfl⟩ := Finset.mem_image.mp hx
    rw [List.mem_toFinset]
    exact hall n (Nat.lt_succ_iff.mp (Finset.mem_range.mp hn))
  have hcard := Finset.card_le_card hsub
  rw [Finset.card_image_of_injective _ hf, Finset.card_range] at hcard
  have hle := used.toFinset_card_le
  omega

/-- Whether a request of a collection has an id. -/
def Taken (collection : Collection) (id : Text) : Prop := ∃ r ∈ collection.requests, r.id = id

/-- What the search is after: the base, or the base with the first number from 2 on that makes a
free path of it. -/
inductive FirstFree (collection : Collection) (base : Text) : Text → Prop where
  | base (h : ¬ Taken collection base) : FirstFree collection base base
  | numbered (n : Nat) (htaken : Taken collection base) (hlow : 2 ≤ n)
      (hhigh : n ≤ collection.requests.length + 2)
      (hfree : ¬ Taken collection (numberedPath base n))
      (hfirst : ∀ k, 2 ≤ k → k < n → Taken collection (numberedPath base k)) :
      FirstFree collection base (numberedPath base n)

/-- One of the numbers is free: there are more of them than requests. -/
theorem exists_free (collection : Collection) (base : Text) :
    ∃ n, n ≤ collection.requests.length ∧ ¬ Taken collection (numberedPath base (n + 2)) := by
  have hinj : Function.Injective fun n => numberedPath base (n + 2) := fun m n h =>
    Nat.add_right_cancel (numberedPath_injective base h)
  obtain ⟨n, hn, hfree⟩ := exists_notMem hinj (collection.requests.map (·.id))
  refine ⟨n, by simpa using hn, ?_⟩
  rintro ⟨r, hr, hid⟩
  exact hfree (List.mem_map.mpr ⟨r, hr, hid⟩)

/-- The search ends, at the first free path. -/
theorem firstFree_uniqueRequestPath (collection : Collection) (preferred : Text) :
    FirstFree collection (slugify preferred) (collection.uniqueRequestPath preferred) := by
  -- The list is asked for the id, as `Taken` is.
  have htaken : ∀ id, collection.requests.any (·.id = id) = true ↔ Taken collection id := by
    intro id
    simp [Taken]
  unfold Collection.uniqueRequestPath
  dsimp only
  generalize slugify preferred = base
  by_cases hbase : Taken collection base
  · have hfree : ∀ n, (!collection.requests.any (·.id = base ++ '-' :: natText (n + 2))) = true ↔
        ¬ Taken collection (numberedPath base (n + 2)) := by
      intro n
      rw [Bool.not_eq_true', ← Bool.not_eq_true, htaken]
      rfl
    rw [if_pos ((htaken base).mpr hbase), List.find?_map]
    -- The search over one number more than there are requests.
    cases hfind : (List.range (collection.requests.length + 1)).find?
        ((fun candidate => !collection.requests.any (·.id = candidate)) ∘
          fun n => base ++ '-' :: natText (n + 2)) with
    | none =>
      -- Not all of the numbered ids can be taken.
      obtain ⟨n, hn, hn'⟩ := exists_free collection base
      have hmem := List.mem_range.mpr (Nat.lt_succ_of_le hn)
      exact absurd ((hfree n).mpr hn') (List.find?_eq_none.mp hfind n hmem)
    | some n =>
      -- The first number that is found has only taken ids before it.
      obtain ⟨hn, hmem, hbefore⟩ := List.find?_range_eq_some.mp hfind
      have hlt := List.mem_range.mp hmem
      refine .numbered (n + 2) hbase (by omega) (by omega) ((hfree n).mp hn) ?_
      intro k hk hkn
      obtain ⟨j, rfl⟩ : ∃ j, k = j + 2 := ⟨k - 2, by omega⟩
      by_contra hnot
      have hj := hbefore j (by omega)
      rw [Bool.not_eq_true', ← Bool.not_eq_true] at hj
      exact hj ((hfree j).mpr hnot)
  · rw [if_neg fun h => hbase ((htaken base).mp h)]
    exact .base hbase

/-- A first free path is free, and made of the characters of a slug. -/
theorem FirstFree.fresh {collection : Collection} {base path : Text}
    (h : FirstFree collection base path) (hbase : SlugShaped base) :
    ¬ Taken collection path ∧ path ≠ [] ∧ ∀ c ∈ path, SlugChar c := by
  cases h with
  | base h => exact ⟨h, hbase.nonempty, hbase.chars⟩
  | numbered n htaken hlow hhigh hfree hfirst =>
    refine ⟨hfree, by simp [numberedPath], ?_⟩
    intro c hc
    rcases List.mem_append.mp hc with hc | hc
    · exact hbase.chars c hc
    · rcases List.mem_cons.mp hc with rfl | hc
      · exact Or.inr (Or.inr rfl)
      · exact Or.inr (Or.inl (isDigit_of_mem_natText hc))

/-- **A generated request path is valid and free.** A slug has its shape, is its own slug, and is
accepted unchanged as a request path, on every platform. The search for a path that no request has
ends at the first free one, with a number of at most two more than there are requests; this path is
accepted unchanged too, and is the id of no request. -/
theorem generatedPaths :
    (∀ s, SlugShaped (slugify s) ∧ slugify (slugify s) = slugify s ∧
      ∀ rules, sanitizeRequestPath rules (slugify s) = .ok (slugify s)) ∧
      ∀ (collection : Collection) (s : Text),
        FirstFree collection (slugify s) (collection.uniqueRequestPath s) ∧
          (∀ r ∈ collection.requests, r.id ≠ collection.uniqueRequestPath s) ∧
          ∀ rules, sanitizeRequestPath rules (collection.uniqueRequestPath s)
            = .ok (collection.uniqueRequestPath s) := by
  constructor
  · intro s
    have hshape := slugShaped_slugify s
    exact ⟨hshape, hshape.slugify_eq_self,
      sanitizeRequestPath_of_plain hshape.nonempty hshape.chars⟩
  · intro collection s
    have hfirst := firstFree_uniqueRequestPath collection s
    obtain ⟨hfree, hne, hchars⟩ := hfirst.fresh (slugShaped_slugify s)
    exact ⟨hfirst, fun r hr hid => hfree ⟨r, hr, hid⟩, sanitizeRequestPath_of_plain hne hchars⟩

end Gabriel.Cli
