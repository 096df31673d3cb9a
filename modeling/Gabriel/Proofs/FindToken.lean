import Gabriel.Proofs.JwtExpiry

/-!
# `Gabriel.Proofs.FindToken`: a token in a text

A token travels in a text between characters that it does not hold itself. `tokenRuns` cuts a text
at all of these, and the token to find is the first run that is one (`firstToken`). `findIn` cuts at
white space, quotes and commas only, so what it looks at are words of runs and other characters.

The runs of a text are the runs of its words, so the two searches go over the same words. They agree
up to the first word that is not skipped by both (`skipped`). There `findIn` is right exactly
when the word is a run itself, or when the token is missed but stands alone further on. Of the
decoders only sizes are used (`Sizes`). The theorems:

* `tokenRuns_eq`: the runs of a text are the runs of its words.
* `looksLikeJwt_of_forall`: on token characters the test of `findIn` is the one for a token.
* `find_of_looks`, `find_of_held`: the word at which one of the searches stops.
* `find_words_iff`: the searches agree on words exactly when these are `Readable`.
* `Jwt.findIn_eq_iff`: `findIn` gives the first token exactly on texts whose words are.
-/

set_option autoImplicit false

namespace Gabriel.Core

open Text

/-- A character of a token. -/
def isJwtChar (c : Char) : Bool := c.isAlphanum || c == '-' || c == '_' || c == '.'

/-- The maximal runs of token characters of a text: the pieces between all others. -/
def tokenRuns (text : Text) : List Text := text.splitOnP fun c => !isJwtChar c

/-- A segment decodes to an object with `alg` or `typ`. -/
def isHeader (tools : JwtTools) (segment : Text) : Bool :=
  match tools.decodeUrl segment with
  | .error _ => false
  | .ok bytes =>
    match tools.parseJson bytes with
    | .error _ => false
    | .ok json => (json.get? "alg".toList).isSome || (json.get? "typ".toList).isSome

/-- A run is a token: three segments, the first one a header, and the second one of two characters
or more. -/
def isToken (tools : JwtTools) (run : Text) : Bool :=
  match run.splitOn '.' with
  | [header, payload, _] => isHeader tools header && decide (2 ≤ payload.length)
  | _ => false

/-- The first run of a text that is a token. -/
def firstToken (tools : JwtTools) (text : Text) : Option Text :=
  (tokenRuns text).find? (isToken tools)

/-- What the decoders say about sizes: base64 takes four characters for three bytes, and an object
with a member is longer than two bytes. -/
structure JwtTools.Sizes (tools : JwtTools) : Prop where
  decoded : ∀ t bytes, tools.decodeUrl t = .ok bytes → 4 * bytes.length ≤ 3 * t.length
  member : ∀ bytes json key, tools.parseJson bytes = .ok json → (json.get? key).isSome = true →
    2 < bytes.length

namespace Jwt

/-- The characters at which `findIn` cuts. -/
def isDelimiter (c : Char) : Bool := isWhitespace c || c == '"' || c == '\'' || c == ','

/-- The words between the delimiters. -/
def words (text : Text) : List Text := text.splitOnP isDelimiter

end Jwt

/-! ### Words and their runs -/

/-- Pieces between the separators of a wider set, from the pieces between those of a narrow one. -/
theorem splitOnP_flatMap {α : Type*} {p q : α → Bool} (hpq : ∀ c, p c = true → q c = true)
    (t : List α) : t.splitOnP q = (t.splitOnP p).flatMap (List.splitOnP q) := by
  induction t with
  | nil => rfl
  | cons c t ih =>
    obtain ⟨first, rest, hfirst⟩ := List.exists_cons_of_ne_nil (List.splitOnP_ne_nil p t)
    rw [List.splitOnP_cons_eq_if_modifyHead (p := p), hfirst]
    rw [hfirst, List.flatMap_cons] at ih
    by_cases hp : p c = true
    · rw [if_pos hp, List.splitOnP_cons_eq_if_modifyHead, if_pos (hpq c hp), List.flatMap_cons,
        List.flatMap_cons, ih]
      rfl
    · rw [if_neg hp, List.modifyHead_cons, List.flatMap_cons,
        List.splitOnP_cons_eq_if_modifyHead, List.splitOnP_cons_eq_if_modifyHead, ih]
      obtain ⟨piece, pieces, hpieces⟩ := List.exists_cons_of_ne_nil (List.splitOnP_ne_nil q first)
      rw [hpieces]
      by_cases hq : q c = true
      · rw [if_pos hq, if_pos hq]
        rfl
      · rw [if_neg hq, if_neg hq]
        rfl

/-- The code points of token characters. -/
theorem isJwtChar_range {c : Char} (h : isJwtChar c = true) : 45 ≤ c.toNat ∧ c.toNat ≤ 122 := by
  simp only [isJwtChar, Char.isAlphanum, Char.isAlpha, Char.isUpper, Char.isLower, Char.isDigit,
    Bool.or_eq_true, Bool.and_eq_true, decide_eq_true_eq, beq_iff_eq, ge_iff_le,
    UInt32.le_iff_toNat_le] at h
  have hrange : ∀ {low high : ℕ}, 45 ≤ low → high ≤ 122 → low ≤ c.toNat ∧ c.toNat ≤ high →
      45 ≤ c.toNat ∧ c.toNat ≤ 122 := fun hlow hhigh hc => ⟨hlow.trans hc.1, hc.2.trans hhigh⟩
  rcases h with ((((h | h) | h) | h) | h) | h
  · exact hrange (by decide) (by decide) h
  · exact hrange (by decide) (by decide) h
  · exact hrange (by decide) (by decide) h
  · rw [h]
    decide
  · rw [h]
    decide
  · rw [h]
    decide

/-- A delimiter is no character of a token. -/
theorem isJwtChar_of_isDelimiter (c : Char) (h : Jwt.isDelimiter c = true) :
    (!isJwtChar c) = true := by
  by_contra hchar
  obtain ⟨hlow, hhigh⟩ := isJwtChar_range (by simpa using hchar)
  have hnot : isWhitespace c = false := by
    simp only [isWhitespace, Bool.or_eq_false_iff, Bool.and_eq_false_iff, decide_eq_false_iff_not,
      beq_eq_false_iff_ne]
    omega
  rw [Jwt.isDelimiter, hnot, Bool.false_or, Bool.or_eq_true, Bool.or_eq_true, beq_iff_eq,
    beq_iff_eq, beq_iff_eq] at h
  rcases h with (rfl | rfl) | rfl
  · exact absurd hlow (by decide)
  · exact absurd hlow (by decide)
  · exact absurd hlow (by decide)

/-- The runs of a text are the runs of its words. -/
theorem tokenRuns_eq (text : Text) : tokenRuns text = (Jwt.words text).flatMap tokenRuns :=
  splitOnP_flatMap isJwtChar_of_isDelimiter text

/-- The first token of a text is that of the first word that holds one. -/
theorem firstToken_eq (tools : JwtTools) (text : Text) :
    firstToken tools text = (Jwt.words text).findSome? (firstToken tools) := by
  unfold firstToken
  rw [tokenRuns_eq, List.find?_flatMap]

/-- A run holds token characters only. -/
theorem isJwtChar_of_mem_run {text run : Text} (h : run ∈ tokenRuns text) :
    ∀ c ∈ run, isJwtChar c = true := by
  intro c hc
  simpa using not_of_mem_splitOnP h hc

/-- A word of token characters is its only run. -/
theorem tokenRuns_of_forall {word : Text} (h : ∀ c ∈ word, isJwtChar c = true) :
    tokenRuns word = [word] :=
  List.splitOnP_eq_singleton fun c hc => by rw [h c hc]; rfl

/-- A header has four characters or more. -/
theorem length_of_isHeader {tools : JwtTools} (hsizes : tools.Sizes) {segment : Text}
    (h : isHeader tools segment = true) : 4 ≤ segment.length := by
  unfold isHeader at h
  cases hbytes : tools.decodeUrl segment with
  | error e =>
    rw [hbytes] at h
    exact absurd h Bool.false_ne_true
  | ok bytes =>
    rw [hbytes] at h
    dsimp only at h
    cases hjson : tools.parseJson bytes with
    | error e =>
      rw [hjson] at h
      exact absurd h Bool.false_ne_true
    | ok json =>
      rw [hjson] at h
      dsimp only at h
      have hdecoded := hsizes.decoded segment bytes hbytes
      rcases Bool.or_eq_true_iff.mp h with hmember | hmember
      · have hlong := hsizes.member bytes json _ hjson hmember
        omega
      · have hlong := hsizes.member bytes json _ hjson hmember
        omega

/-- On token characters the test of `findIn` is the one for a token. -/
theorem looksLikeJwt_of_forall {tools : JwtTools} (hsizes : tools.Sizes) {word : Text}
    (h : ∀ c ∈ word, isJwtChar c = true) : Jwt.looksLikeJwt tools word = isToken tools word := by
  have hsplit : ∀ part ∈ word.splitOn '.', ∀ c ∈ part, isJwtChar c = true :=
    fun part hpart c hc => h c (mem_of_mem_splitOn hpart hc)
  have hascii : ∀ {part : Text}, (∀ c ∈ part, isJwtChar c = true) → utf8Len part = part.length :=
    fun hpart => utf8Len_of_ascii fun c hc => (isJwtChar_range (hpart c hc)).2.trans (by decide)
  unfold Jwt.looksLikeJwt isToken
  -- A token has three segments; with any other number both tests fail.
  generalize word.splitOn '.' = parts at hsplit ⊢
  rcases parts with _ | ⟨header, _ | ⟨payload, _ | ⟨signature, _ | ⟨more, rest⟩⟩⟩⟩
  · rfl
  · rfl
  · rfl
  · -- Three segments; a run holds no padding.
    have hheader := hsplit header List.mem_cons_self
    have hpayload := hsplit payload (List.mem_cons_of_mem _ List.mem_cons_self)
    have hpadding : header.rdropWhile (· == '=') = header := by
      refine List.rdropWhile_eq_self_iff.mpr fun hne hlast => ?_
      have hchar := hheader _ (List.getLast_mem hne)
      rw [beq_iff_eq.mp hlast] at hchar
      exact absurd hchar (by decide)
    -- Both sides ask for the length of the payload, in bytes and in characters.
    show (if utf8Len header < 4 ∨ utf8Len payload < 2 then false
        else isHeader tools (header.rdropWhile (· == '=')))
      = (isHeader tools header && decide (2 ≤ payload.length))
    rw [hascii hheader, hascii hpayload, hpadding]
    cases hfirst : isHeader tools header with
    | false =>
      rw [Bool.false_and]
      split_ifs <;> rfl
    -- A header is long enough, so the test for its length adds nothing.
    | true =>
      have hlong := length_of_isHeader hsizes hfirst
      by_cases hshort : payload.length < 2
      · rw [if_pos (Or.inr hshort), decide_eq_false (by omega)]
        rfl
      · rw [if_neg (by omega), decide_eq_true (by omega)]
        rfl
  · rfl

/-! ### The two searches -/

section Search

variable {tools : JwtTools} {word run : Text}

/-- What is found is a token and a run. -/
theorem firstToken_some (h : firstToken tools word = some run) :
    (∀ c ∈ run, isJwtChar c = true) ∧ isToken tools run = true :=
  ⟨isJwtChar_of_mem_run (List.mem_of_find?_eq_some h), List.find?_some h⟩

/-- A word of token characters is found when it is a token. -/
theorem firstToken_of_forall (h : ∀ c ∈ word, isJwtChar c = true) :
    firstToken tools word = if isToken tools word then some word else none := by
  unfold firstToken
  rw [tokenRuns_of_forall h, List.find?_singleton]

/-- Neither search stops at a word: it does not look like a token, and it holds none. -/
def skipped (tools : JwtTools) (word : Text) : Bool :=
  !Jwt.looksLikeJwt tools word && (firstToken tools word).isNone

/-- The words of a text are read rightly: the first one that is not skipped is a run itself, or it
is not taken for a token and the token that it holds is also the next word to be taken for one. -/
def Readable (tools : JwtTools) (words : List Text) : Prop :=
  ∀ word rest, words.dropWhile (skipped tools) = word :: rest →
    (∀ c ∈ word, isJwtChar c = true) ∨
      Jwt.looksLikeJwt tools word = false ∧ ∃ run front back, firstToken tools word = some run ∧
        rest = front ++ run :: back ∧ ∀ w ∈ front, Jwt.looksLikeJwt tools w = false

/-- At a word that is taken for a token the searches agree exactly when it is a run. -/
theorem find_of_looks (hsizes : tools.Sizes) {words : List Text}
    (hlooks : Jwt.looksLikeJwt tools word = true) :
    some word = (word :: words).findSome? (firstToken tools) ↔ ∀ c ∈ word, isJwtChar c = true := by
  constructor
  · intro h
    obtain ⟨w, -, hw⟩ := List.exists_of_findSome?_eq_some h.symm
    exact (firstToken_some hw).1
  · intro h
    have htoken : isToken tools word = true := (looksLikeJwt_of_forall hsizes h) ▸ hlooks
    rw [List.findSome?_cons, firstToken_of_forall h, if_pos htoken]

/-- At a word that holds a token and is not taken for one, the searches agree exactly when this
token is the next word to be taken for one. -/
theorem find_of_held (hsizes : tools.Sizes) {words : List Text}
    (hfirst : firstToken tools word = some run) :
    words.find? (Jwt.looksLikeJwt tools) = some run ↔
      ∃ front back, words = front ++ run :: back ∧
        ∀ w ∈ front, Jwt.looksLikeJwt tools w = false := by
  obtain ⟨hchars, htoken⟩ := firstToken_some hfirst
  rw [List.find?_eq_some_iff_append, looksLikeJwt_of_forall hsizes hchars, and_iff_right htoken]
  simp only [Bool.not_eq_true']

/-- The two searches agree on words exactly when these are read rightly. -/
theorem find_words_iff (hsizes : tools.Sizes) (words : List Text) :
    words.find? (Jwt.looksLikeJwt tools) = words.findSome? (firstToken tools) ↔
      Readable tools words := by
  induction words with
  | nil => exact iff_of_true rfl fun word rest h => absurd h.symm (List.cons_ne_nil _ _)
  | cons word words ih =>
    unfold Readable at ih ⊢
    cases hlooks : Jwt.looksLikeJwt tools word with
    | true =>
      have hstop : skipped tools word = false := by rw [skipped, hlooks]; rfl
      rw [List.find?_cons_of_pos hlooks, find_of_looks hsizes hlooks,
        List.dropWhile_cons_of_neg (by rw [hstop]; exact Bool.false_ne_true)]
      constructor
      · intro h w rest heq
        obtain ⟨rfl, -⟩ := List.cons.inj heq
        exact Or.inl h
      · intro h
        rcases h word words rfl with h | ⟨h, -⟩
        · exact h
        · exact absurd (hlooks.symm.trans h).symm Bool.false_ne_true
    | false =>
      rw [List.find?_cons_of_neg (by rw [hlooks]; exact Bool.false_ne_true)]
      cases hfirst : firstToken tools word with
      | none =>
        -- Both searches go on.
        have hskip : skipped tools word = true := by rw [skipped, hlooks, hfirst]; rfl
        rw [List.findSome?_cons, hfirst, List.dropWhile_cons_of_pos hskip]
        exact ih
      | some run =>
        have hstop : skipped tools word = false := by rw [skipped, hlooks, hfirst]; rfl
        rw [List.findSome?_cons, hfirst, find_of_held hsizes hfirst,
          List.dropWhile_cons_of_neg (by rw [hstop]; exact Bool.false_ne_true)]
        constructor
        · rintro ⟨front, back, hwords, hfront⟩ w rest heq
          obtain ⟨rfl, rfl⟩ := List.cons.inj heq
          exact Or.inr ⟨hlooks, run, front, back, hfirst, hwords, hfront⟩
        · intro h
          rcases h word words rfl with hchars | ⟨-, run', front, back, hrun, hwords, hfront⟩
          · -- A run that holds a token would be taken for one.
            have htoken := looksLikeJwt_of_forall hsizes hchars
            rw [hlooks] at htoken
            rw [firstToken_of_forall hchars, if_neg (by rw [← htoken]; exact Bool.false_ne_true)]
              at hfirst
            exact absurd hfirst.symm (Option.some_ne_none _)
          · rw [hfirst, Option.some.injEq] at hrun
            exact ⟨front, back, hrun ▸ hwords, hfront⟩

end Search

/-- **`findIn` gives the first token exactly on texts whose words are read rightly.** -/
theorem Jwt.findIn_eq_iff (tools : JwtTools) (hsizes : tools.Sizes) (text : Text) :
    Jwt.findIn tools text = firstToken tools text ↔ Readable tools (Jwt.words text) := by
  rw [firstToken_eq, ← find_words_iff hsizes]
  rfl

/-- The decoders of a few segments have the documented sizes. -/
theorem expiryTools_sizes : expiryTools.Sizes where
  decoded t bytes h := by
    unfold expiryTools at h
    dsimp only at h
    -- The segments are a short list, so the sizes are looked up in it.
    cases hfind : expirySegments.find? (·.1 = t) with
    | none =>
      rw [hfind] at h
      exact absurd h (by simp)
    | some segment =>
      rw [hfind] at h
      have hbytes : segment.2.1 = bytes := by simpa using h
      have htext : segment.1 = t := by simpa using List.find?_some hfind
      have hall : ∀ s ∈ expirySegments, 4 * s.2.1.length ≤ 3 * s.1.length := by decide
      rw [← hbytes, ← htext]
      exact hall segment (List.mem_of_find?_eq_some hfind)
  member bytes json key h _ := by
    unfold expiryTools at h
    dsimp only at h
    cases hfind : expirySegments.find? (·.2.1 = bytes) with
    | none =>
      rw [hfind] at h
      exact absurd h (by simp)
    | some segment =>
      have hbytes : segment.2.1 = bytes := by simpa using List.find?_some hfind
      have hall : ∀ s ∈ expirySegments, 2 < s.2.1.length := by decide
      rw [← hbytes]
      exact hall segment (List.mem_of_find?_eq_some hfind)

/-- In an `Authorization` header the token is a word of its own. -/
theorem findIn_eq_bearer :
    Jwt.findIn expiryTools ("Bearer ".toList ++ expiryToken "eyJleHAiOjB9")
      = firstToken expiryTools ("Bearer ".toList ++ expiryToken "eyJleHAiOjB9") := by
  refine (Jwt.findIn_eq_iff expiryTools expiryTools_sizes _).mpr fun word rest h => Or.inl ?_
  have hwords : (Jwt.words ("Bearer ".toList ++ expiryToken "eyJleHAiOjB9")).dropWhile
      (skipped expiryTools) = [expiryToken "eyJleHAiOjB9"] := by decide +kernel
  obtain ⟨rfl, -⟩ := List.cons.inj (hwords.symm.trans h)
  exact forall_mem_of_all (by decide +kernel)

/-- In a cookie the token is not found: it is one word with the name and the semicolon. -/
theorem not_findIn_eq_cookie :
    Jwt.findIn expiryTools
        ("access_token=".toList ++ expiryToken "eyJleHAiOjB9" ++ "; Path=/".toList)
      ≠ firstToken expiryTools
        ("access_token=".toList ++ expiryToken "eyJleHAiOjB9" ++ "; Path=/".toList) := by
  decide +kernel

end Gabriel.Core
