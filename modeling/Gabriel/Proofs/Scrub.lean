import Gabriel.Cli.Scrub

/-!
# `Gabriel.Proofs.Scrub`: what the passes leave

Each pass of `scrub` reads a text turn by turn. A turn copies what it reads, or covers a stretch of
it with its mask (`CopiesOrCovers`), and it reads at least one character. So a pass is a scan of
`Lib/Scan`, and what it leaves is the text with some stretches covered by one of the two
`scrubMasks`.

The third pass works line by line. No turn of it looks past a `Barrier`, a character that is in no
word, gap or value, and a line break is one: so the pass might as well read the whole text. The
theorems:

* `covered_passes`: what each of the four passes leaves is its text with stretches covered.
* `of_scrub`: a property that covering keeps comes back from the result of all four to the text.
* `redactKeyed_eq_scan`: the third pass is a scan of the whole text.
* `scan_keyed_barrier`: it looks at one side of a barrier at a time.
* `scrub_eq_mask_iff`: the texts that become the mask alone are the mask itself and a single long
  run of letters and digits with no label in it (`IsKey`).
-/

set_option autoImplicit false

namespace Gabriel.Cli

open Gabriel.Core Text

/-- The masks of the passes. -/
def scrubMasks : List Text := [redactedMask, jwtMask]

/-! ### The turns -/

/-- The front of a text that begins with what a predicate holds of. -/
theorem one_le_takeWhile {p : Char → Bool} {t : Text} (h : t.head?.any p = true) :
    1 ≤ (t.takeWhile p).length := by
  cases t with
  | nil => exact absurd h Bool.false_ne_true
  | cons c t =>
    rw [List.takeWhile_cons_of_pos (by simpa using h), List.length_cons]
    omega

/-- The characters that a predicate holds of are the front of the text. -/
theorem take_length_takeWhile (p : Char → Bool) (t : Text) :
    t.take (t.takeWhile p).length = t.takeWhile p :=
  List.prefix_iff_eq_take.mp (List.takeWhile_prefix p) |>.symm

/-- The mask of a value is one of the two. -/
theorem redactedMask_mem : redactedMask ∈ scrubMasks := List.mem_cons_self

/-- The mask of a JWT is the other one. -/
theorem jwtMask_mem : jwtMask ∈ scrubMasks := List.mem_cons_of_mem _ List.mem_cons_self

/-- A turn of the first pass reads a character. -/
theorem userinfoTurn_read (before : Option Char) (t : Text) (_ : t ≠ []) :
    1 ≤ (userinfoTurn before t).2 := by
  unfold userinfoTurn
  dsimp only
  split_ifs
  · omega
  · omega
  · exact Nat.le_refl 1

/-- A turn of the second pass reads a character. -/
theorem jwtTurn_read (before : Option Char) (t : Text) (_ : t ≠ []) :
    1 ≤ (jwtTurn before t).2 := by
  unfold jwtTurn
  dsimp only
  split_ifs with hstart hdots
  · -- Two dots are two characters.
    have hcount := List.count_le_length (a := '.') (l := t.takeWhile isValueChar)
    show 1 ≤ (t.takeWhile isValueChar).length
    omega
  · exact Nat.le_refl 1
  · exact Nat.le_refl 1

/-- Letters stand in words. -/
theorem isWordChar_of_isAlpha {c : Char} (h : c.isAlpha = true) : isWordChar c = true := by
  simp [isWordChar, Char.isAlphanum, h]

/-- A turn of the third pass reads a character. -/
theorem keyedTurn_read (before : Option Char) (t : Text) (_ : t ≠ []) :
    1 ≤ (keyedTurn before t).2 := by
  unfold keyedTurn
  by_cases hword : t.head?.any Char.isAlpha = true
  · have hone : 1 ≤ (t.takeWhile isWordChar).length := by
      refine one_le_takeWhile ?_
      rw [Option.any_eq_true] at hword ⊢
      obtain ⟨c, hc, halpha⟩ := hword
      exact ⟨c, hc, isWordChar_of_isAlpha halpha⟩
    rw [if_pos hword]
    unfold wordTurn
    dsimp only
    split_ifs
    all_goals simp only [List.length_append]; omega
  · rw [if_neg hword]

/-- A turn of the fourth pass reads a character. -/
theorem opaqueTurn_read (before : Option Char) (t : Text) (_ : t ≠ []) :
    1 ≤ (opaqueTurn before t).2 := by
  unfold opaqueTurn
  dsimp only
  split_ifs with hstart hkey
  · exact one_le_takeWhile hstart.1
  · exact Nat.le_refl 1
  · exact Nat.le_refl 1

/-! ### What a turn writes -/

/-- A turn copies what it reads, or covers a stretch of it with its mask. -/
def CopiesOrCovers (mask t : Text) (done : Text × Nat) : Prop :=
  done.1 = t.take done.2 ∨ ∃ kept stretch tail,
    t.take done.2 = kept ++ stretch ++ tail ∧ done.1 = kept ++ mask ++ tail

/-- What a turn has read is covered by what it has written. -/
theorem CopiesOrCovers.covered {mask t : Text} {done : Text × Nat} (h : CopiesOrCovers mask t done)
    {masks : List Text} (hmask : mask ∈ masks) : Covered masks (t.take done.2) done.1 := by
  rcases h with hcopy | ⟨kept, stretch, tail, htake, hwritten⟩
  · rw [hcopy]
    exact .refl _ _
  · rw [htake, hwritten]
    exact ((Covered.refl _ kept).append (.stretch stretch hmask)).append (.refl _ tail)

/-- Both masks begin with a bracket. -/
theorem CopiesOrCovers.bracket {mask t : Text} {done : Text × Nat} (h : CopiesOrCovers mask t done)
    (hmask : mask ∈ scrubMasks) : done.1 = t.take done.2 ∨ '[' ∈ done.1 := by
  refine h.imp_right ?_
  rintro ⟨kept, stretch, tail, -, hwritten⟩
  have hall : ∀ mask ∈ scrubMasks, '[' ∈ mask := by decide
  rw [hwritten]
  exact List.mem_append_left _ (List.mem_append_right _ (hall mask hmask))

/-- A text with an `@` in it ends with the last one and what comes after it. -/
theorem exists_user {authority : Text} (h : '@' ∈ authority) :
    ∃ user, authority = user ++ '@' :: authority.rtakeWhile (· ≠ '@') := by
  have hsplit := List.rdropWhile_append_rtakeWhile (p := (· ≠ '@')) (l := authority)
  have hne : authority.rdropWhile (· ≠ '@') ≠ [] := by
    intro hnil
    have hall := List.rdropWhile_eq_nil_iff.mp hnil '@' h
    exact absurd hall (by decide)
  have hlast := List.rdropWhile_last_not (· ≠ '@') authority hne
  refine ⟨(authority.rdropWhile (· ≠ '@')).dropLast, ?_⟩
  have hat : (authority.rdropWhile (· ≠ '@')).getLast hne = '@' := by simpa using hlast
  conv_lhs => rw [← hsplit, ← List.dropLast_append_getLast hne, hat, List.append_assoc]
  rfl

/-- The first pass copies, or puts its mask behind what it copies. -/
theorem userinfoTurn_shape (before : Option Char) (t : Text) :
    CopiesOrCovers redactedMask t (userinfoTurn before t) := by
  unfold userinfoTurn
  dsimp only
  -- Only at `://` does the first pass look further.
  by_cases hstart : "://".toList <+: t
  · rw [if_pos hstart]
    obtain ⟨rest, rfl⟩ := hstart
    have hdrop : ("://".toList ++ rest).drop "://".toList.length = rest := List.drop_left
    change ("://".toList ++ rest).drop 3 = rest at hdrop
    rw [hdrop]
    have htake : ("://".toList ++ rest).take (3 + (rest.takeWhile fun c => !endsAuthority c).length)
        = "://".toList ++ rest.takeWhile fun c => !endsAuthority c := by
      rw [show (3 : Nat) = "://".toList.length from rfl, List.take_length_add_append,
        take_length_takeWhile]
    -- What stands in front of the last `@` of the authority is covered, up to the end of the
    -- authority nothing else.
    by_cases hat : '@' ∈ rest.takeWhile fun c => !endsAuthority c
    · obtain ⟨user, huser⟩ := exists_user hat
      rw [if_pos hat]
      refine Or.inr ⟨"://".toList, user, _, ?_, rfl⟩
      dsimp only
      rw [htake, List.append_assoc]
      conv_lhs => rw [huser]
    · rw [if_neg hat]
      exact Or.inl htake.symm
  · rw [if_neg hstart]
    exact Or.inl rfl

/-- The second pass copies a character, or puts the mask of a JWT. -/
theorem jwtTurn_shape (before : Option Char) (t : Text) :
    CopiesOrCovers jwtMask t (jwtTurn before t) := by
  unfold jwtTurn
  dsimp only
  split_ifs
  · exact Or.inr ⟨[], t.takeWhile isValueChar, [],
      by simp [take_length_takeWhile], by simp⟩
  · exact Or.inl rfl
  · exact Or.inl rfl

/-- A turn at a word copies it with its separator, and puts the mask for the value. -/
theorem wordTurn_shape (t : Text) : CopiesOrCovers redactedMask t (wordTurn t) := by
  -- The text falls into the word, the gap behind it, the token, the blanks and the run.
  have hparts : t = t.takeWhile isWordChar ++ ((t.dropWhile isWordChar).takeWhile isGapChar
      ++ (t.dropWhile isWordChar).dropWhile isGapChar) := by
    rw [List.takeWhile_append_dropWhile, List.takeWhile_append_dropWhile]
  unfold wordTurn
  dsimp only
  generalize t.takeWhile isWordChar = word at *
  generalize (t.dropWhile isWordChar).takeWhile isGapChar = gap at *
  generalize (t.dropWhile isWordChar).dropWhile isGapChar = next at *
  have htoken : next = next.takeWhile isValueChar ++ next.dropWhile isValueChar :=
    List.takeWhile_append_dropWhile.symm
  generalize next.takeWhile isValueChar = token at *
  generalize next.dropWhile isValueChar = after at *
  have hblanks : after = (after.takeWhile fun c => c == ' ' || c == '\t')
      ++ after.dropWhile fun c => c == ' ' || c == '\t' := List.takeWhile_append_dropWhile.symm
  generalize (after.takeWhile fun c => c == ' ' || c == '\t') = blanks at *
  generalize (after.dropWhile fun c => c == ' ' || c == '\t') = value at *
  have hvalue : value = value.takeWhile isValueChar ++ value.dropWhile isValueChar :=
    List.takeWhile_append_dropWhile.symm
  generalize value.takeWhile isValueChar = run at *
  generalize value.dropWhile isValueChar = rest at *
  -- The word is a label that takes a value, or it is copied.
  by_cases hlabel : ((isScheme word || keyIsSecret word) && takesValue word gap next) = true
  · rw [if_pos hlabel]
    -- The token is a scheme, and the value is the run behind it; or the token is the value.
    by_cases hscheme : isScheme token = true
    · rw [if_pos hscheme]
      by_cases hrun : value.head?.any isTokenChar = true
      · rw [if_pos hrun]
        refine Or.inr ⟨word ++ gap ++ token ++ blanks, run, [], ?_, by simp⟩
        have hwhole : t = (word ++ gap ++ token ++ blanks ++ run) ++ rest := by
          rw [hparts, htoken, hblanks, hvalue]
          simp
        have hlen : (word ++ gap ++ token).length + blanks.length + run.length
            = (word ++ gap ++ token ++ blanks ++ run).length := by
          simp only [List.length_append]
        dsimp only
        rw [hwhole, hlen, List.take_left, List.append_nil]
      · rw [if_neg hrun]
        have hwhole : t = (word ++ gap ++ token ++ blanks) ++ value := by
          rw [hparts, htoken, hblanks]
          simp
        have hlen : (word ++ gap ++ token).length + blanks.length
            = (word ++ gap ++ token ++ blanks).length := by
          simp only [List.length_append]
        refine Or.inl ?_
        dsimp only
        rw [hlen]
        conv_rhs => rw [hwhole]
        rw [List.take_left]
    · rw [if_neg hscheme]
      refine Or.inr ⟨word ++ gap, token, [], ?_, by simp⟩
      have hwhole : t = (word ++ gap ++ token) ++ after := by
        rw [hparts, htoken]
        simp
      dsimp only
      rw [hwhole, List.take_left, List.append_nil]
  · rw [if_neg hlabel]
    refine Or.inl ?_
    dsimp only
    rw [hparts, List.take_left]

/-- So does the third pass. -/
theorem keyedTurn_shape (before : Option Char) (t : Text) :
    CopiesOrCovers redactedMask t (keyedTurn before t) := by
  unfold keyedTurn
  split_ifs
  · exact wordTurn_shape t
  · exact Or.inl rfl

/-- The fourth pass copies, or puts its mask for the whole run. -/
theorem opaqueTurn_shape (before : Option Char) (t : Text) :
    CopiesOrCovers redactedMask t (opaqueTurn before t) := by
  unfold opaqueTurn
  dsimp only
  split_ifs
  · exact Or.inr ⟨[], t.takeWhile isOpaqueChar, [],
      by simp [take_length_takeWhile], by simp⟩
  · exact Or.inl rfl
  · exact Or.inl rfl

/-! ### The passes -/

/-- The parts of a pass that works on lines: they are read one after the other. -/
theorem splitInclusive_append {line : Text} (h : '\n' ∉ line) (rest : Text) :
    splitInclusive (line ++ '\n' :: rest) = (line ++ ['\n']) :: splitInclusive rest := by
  have hsplit : (line ++ '\n' :: rest).splitOn '\n' = line :: rest.splitOn '\n' := by
    rw [List.splitOn_eq_splitOnP, List.splitOnP_append_cons_of_forall_mem _ '\n' (by simp),
      ← List.splitOn_eq_splitOnP]
    intro c hc
    simpa using fun heq : c = '\n' => h (heq ▸ hc)
  obtain ⟨piece, pieces, hpieces⟩ := List.exists_cons_of_ne_nil (List.splitOn_ne_nil '\n' rest)
  unfold splitInclusive
  dsimp only
  rw [hsplit, hpieces]
  rfl

/-- A text without a line break is one line. -/
theorem splitInclusive_line {line : Text} (h : '\n' ∉ line) :
    splitInclusive line = if line = [] then [] else [line] := by
  have hsplit : line.splitOn '\n' = [line] := by
    rw [List.splitOn_eq_splitOnP]
    refine List.splitOnP_eq_singleton ?_
    intro c hc
    simpa using fun heq : c = '\n' => h (heq ▸ hc)
  unfold splitInclusive
  dsimp only
  rw [hsplit]
  rfl

/-- No turn at a label looks past a character that is in no word, gap or value. -/
theorem takeWhile_append_barrier {p : Char → Bool} {c : Char} (hc : p c = false) (s t : Text) :
    (s ++ c :: t).takeWhile p = s.takeWhile p ∧
      (s ++ c :: t).dropWhile p = s.dropWhile p ++ c :: t := by
  induction s with
  | nil =>
    rw [List.nil_append, List.takeWhile_cons_of_neg (by simpa using hc),
      List.dropWhile_cons_of_neg (by simpa using hc)]
    exact ⟨rfl, rfl⟩
  | cons d s ih =>
    rw [List.cons_append, List.takeWhile_cons, List.takeWhile_cons, List.dropWhile_cons,
      List.dropWhile_cons]
    by_cases hd : p d = true
    · rw [if_pos hd, if_pos hd, if_pos hd, if_pos hd, ih.1, ih.2]
      exact ⟨rfl, rfl⟩
    · rw [if_neg hd, if_neg hd, if_neg hd, if_neg hd]
      exact ⟨rfl, rfl⟩

/-- A character that is in no word, gap or value. -/
structure Barrier (c : Char) : Prop where
  word : isWordChar c = false
  gap : isGapChar c = false
  value : isValueChar c = false

/-- A barrier stands in no token. -/
theorem Barrier.token {c : Char} (h : Barrier c) : isTokenChar c = false :=
  (Bool.or_eq_false_iff.mp h.value).1

/-- A barrier is no blank. -/
theorem Barrier.blank {c : Char} (h : Barrier c) : (c == ' ' || c == '\t') = false := by
  have hgap := h.gap
  simp only [isGapChar, decide_eq_false_iff_not, List.mem_cons, not_or] at hgap
  simp [hgap.1, hgap.2.1]

/-- The first character of a text that goes on behind a barrier. -/
theorem head_append_barrier {c : Char} (h : Barrier c) (s t : Text) :
    (s ++ c :: t).head?.any isTokenChar = s.head?.any isTokenChar := by
  cases s with
  | nil => exact h.token
  | cons d s => rfl

/-- A turn at a word does not look behind a barrier. -/
theorem wordTurn_append {c : Char} (h : Barrier c) (s t : Text) :
    wordTurn (s ++ c :: t) = wordTurn s ∧ (wordTurn s).2 ≤ s.length := by
  have hlen : ∀ (p : Char → Bool) (u : Text),
      (u.takeWhile p).length + (u.dropWhile p).length = u.length := fun p u => by
    rw [← List.length_append, List.takeWhile_append_dropWhile]
  -- Each run ends at the barrier at the latest, so that what stands behind it is not looked at.
  constructor
  · unfold wordTurn takesValue
    dsimp only
    rw [(takeWhile_append_barrier h.word s t).1, (takeWhile_append_barrier h.word s t).2]
    generalize s.dropWhile isWordChar = behind
    rw [(takeWhile_append_barrier h.gap behind t).1, (takeWhile_append_barrier h.gap behind t).2]
    generalize behind.dropWhile isGapChar = next
    rw [head_append_barrier h, (takeWhile_append_barrier h.value next t).1,
      (takeWhile_append_barrier h.value next t).2]
    generalize next.dropWhile isValueChar = after
    rw [(takeWhile_append_barrier (p := fun c => c == ' ' || c == '\t') h.blank after t).1,
      (takeWhile_append_barrier (p := fun c => c == ' ' || c == '\t') h.blank after t).2,
      head_append_barrier h, (takeWhile_append_barrier h.value _ t).1]
  -- The turn is no longer than the runs together.
  · have h1 := hlen isWordChar s
    have h2 := hlen isGapChar (s.dropWhile isWordChar)
    have h3 := hlen isValueChar ((s.dropWhile isWordChar).dropWhile isGapChar)
    have h4 := hlen (fun c => c == ' ' || c == '\t')
      (((s.dropWhile isWordChar).dropWhile isGapChar).dropWhile isValueChar)
    have h5 := hlen isValueChar
      ((((s.dropWhile isWordChar).dropWhile isGapChar).dropWhile isValueChar).dropWhile
        fun c => c == ' ' || c == '\t')
    unfold wordTurn
    dsimp only
    split_ifs <;> simp only [List.length_append] <;> omega

/-- A turn of the third pass does not look behind a barrier. -/
theorem keyedTurn_append {c : Char} (h : Barrier c) (before : Option Char) (s : Text) (hs : s ≠ [])
    (t : Text) : keyedTurn before (s ++ c :: t) = keyedTurn before s ∧
      (keyedTurn before s).2 ≤ s.length := by
  obtain ⟨d, s, rfl⟩ := List.exists_cons_of_ne_nil hs
  unfold keyedTurn
  by_cases hword : (d :: s).head?.any Char.isAlpha = true
  · rw [if_pos hword, if_pos (by simpa using hword)]
    exact wordTurn_append h (d :: s) t
  · rw [if_neg hword, if_neg (by simpa using hword)]
    exact ⟨rfl, by simp⟩

/-- The pass at labels copies a barrier. -/
theorem keyedTurn_barrier {c : Char} (h : Barrier c) (before : Option Char) (t : Text) :
    keyedTurn before (c :: t) = ([c], 1) := by
  have halpha : c.isAlpha = false := by
    by_contra hpos
    have hword := isWordChar_of_isAlpha (by simpa using hpos : c.isAlpha = true)
    rw [h.word] at hword
    exact absurd hword Bool.false_ne_true
  unfold keyedTurn
  rw [List.head?_cons, Option.any_some, if_neg (by simp [halpha])]
  rfl

/-- The pass at labels looks at one side of a barrier at a time. -/
theorem scan_keyed_barrier {c : Char} (h : Barrier c) (s t : Text) :
    scan keyedTurn none (s ++ c :: t)
      = scan keyedTurn none s ++ c :: scan keyedTurn none t := by
  rw [scan_append keyedTurn_read (fun before u hu => keyedTurn_append h before u hu t),
    scan_copy (keyedTurn_barrier h _ t),
    scan_before keyedTurn_read (fun _ _ _ => rfl) (some c) none]

/-- A line break is a barrier. -/
theorem barrier_newline : Barrier '\n' := ⟨by decide, by decide, by decide⟩

/-- An opening bracket is a barrier. -/
theorem barrier_bracket : Barrier '[' := ⟨by decide, by decide, by decide⟩

/-- A closing bracket is a barrier. -/
theorem barrier_closing : Barrier ']' := ⟨by decide, by decide, by decide⟩

/-- The third pass reads line by line, and might as well read the whole text. -/
theorem redactKeyed_eq_scan (t : Text) : redactKeyed t = scan keyedTurn none t := by
  induction hn : t.length using Nat.strong_induction_on generalizing t with
  | _ n ih =>
    unfold redactKeyed
    by_cases hline : '\n' ∈ t
    · obtain ⟨line, rest, rfl, hno⟩ := List.eq_append_cons_of_mem hline
      have hrest := ih rest.length (by simp at hn; omega) rest rfl
      unfold redactKeyed at hrest
      rw [splitInclusive_append hno, List.flatMap_cons, hrest, scan_keyed_barrier barrier_newline,
        redactKeyedInLine, scan_keyed_barrier barrier_newline, scan_nil, List.append_assoc]
      rfl
    · rw [splitInclusive_line hline]
      by_cases hnil : t = []
      · rw [if_pos hnil, hnil, scan_nil]
        rfl
      · rw [if_neg hnil, List.flatMap_singleton]
        rfl

/-- What each pass copies and covers. -/
theorem covered_passes (t : Text) :
    Covered scrubMasks t (redactUserinfo t) ∧ Covered scrubMasks t (redactJwts t) ∧
      Covered scrubMasks t (redactKeyed t) ∧ Covered scrubMasks t (redactOpaqueRuns t) := by
  rw [redactKeyed_eq_scan]
  have hred := redactedMask_mem
  exact ⟨covered_scan userinfoTurn_read (fun b u _ => (userinfoTurn_shape b u).covered hred) none t,
    covered_scan jwtTurn_read (fun b u _ => (jwtTurn_shape b u).covered jwtMask_mem) none t,
    covered_scan keyedTurn_read (fun b u _ => (keyedTurn_shape b u).covered hred) none t,
    covered_scan opaqueTurn_read (fun b u _ => (opaqueTurn_shape b u).covered hred) none t⟩

/-- What holds of a text whenever it holds of it with stretches covered, holds of it when it holds
of the result. -/
theorem of_scrub {motive : Text → Prop}
    (hcovered : ∀ t out, Covered scrubMasks t out → motive out → motive t) {t : Text}
    (h : motive (scrub t)) : motive t := by
  unfold scrub at h
  have h3 := hcovered _ _ (covered_passes _).2.2.2 h
  have h2 := hcovered _ _ (covered_passes _).2.2.1 h3
  have h1 := hcovered _ _ (covered_passes _).2.1 h2
  exact hcovered _ _ (covered_passes _).1 h1

/-! ### What becomes the mask alone -/

/-- A text that is one long run of letters and digits, with no label in it. -/
def IsKey (t : Text) : Prop :=
  (∀ c ∈ t, isOpaqueChar c = true) ∧ isKeyLike t = true ∧ redactKeyed t = t

instance : DecidablePred IsKey := fun _ => inferInstanceAs (Decidable (_ ∧ _ ∧ _))

section Pass

variable {turn : Option Char → Text → Text × Nat} {mask : Text}

/-- A pass that wrote no bracket has copied. -/
theorem scan_eq_of_bracket (hmask : mask ∈ scrubMasks)
    (hread : ∀ before t, t ≠ [] → 1 ≤ (turn before t).2)
    (hshape : ∀ before t, CopiesOrCovers mask t (turn before t)) {before : Option Char} {t : Text}
    (h : '[' ∉ scan turn before t) : scan turn before t = t :=
  scan_eq_self hread (fun before t _ => (hshape before t).bracket hmask) h

/-- A pass whose first turn copies a character, or writes what the mask does not begin with, makes
the mask of nothing else. -/
theorem eq_mask_of_scan (hmask : mask ∈ scrubMasks)
    (hread : ∀ before t, t ≠ [] → 1 ≤ (turn before t).2)
    (hshape : ∀ before t, CopiesOrCovers mask t (turn before t)) {t : Text}
    (hfirst : turn none t = (t.take 1, 1) ∨ ¬ (turn none t).1 <+: redactedMask)
    (h : scan turn none t = redactedMask) : t = redactedMask := by
  cases t with
  | nil =>
    rw [scan_nil] at h
    exact absurd h (by decide)
  | cons c rest =>
    rcases hfirst with hcopy | hno
    · have hbracket : redactedMask = '[' :: "redacted]".toList := rfl
      rw [scan_copy (by simpa using hcopy), hbracket] at h
      obtain ⟨rfl, hrest⟩ := List.cons.inj h
      have hbare : '[' ∉ scan turn (some '[') rest := by
        rw [hrest]
        decide
      rw [scan_eq_of_bracket hmask hread hshape hbare] at hrest
      rw [hrest, hbracket]
    · have hne : c :: rest ≠ [] := List.cons_ne_nil c rest
      rw [scan_turn hne rfl (hread none _ hne)] at h
      exact absurd (h ▸ List.prefix_append _ _) hno

end Pass

/-- The first pass leaves the bare mask of the bare mask only. -/
theorem eq_mask_of_redactUserinfo {t : Text} (h : redactUserinfo t = redactedMask) :
    t = redactedMask := by
  refine eq_mask_of_scan redactedMask_mem userinfoTurn_read userinfoTurn_shape ?_ h
  unfold userinfoTurn
  dsimp only
  -- What is written begins with a colon.
  have hcolon : ∀ u : Text, ¬ "://".toList ++ u <+: redactedMask := by
    intro u hpre
    exact absurd (List.cons_prefix_cons.mp hpre).1 (by decide)
  by_cases hstart : "://".toList <+: t
  · rw [if_pos hstart]
    split_ifs
    · rw [List.append_assoc]
      exact Or.inr (hcolon _)
    · exact Or.inr (hcolon _)
  · rw [if_neg hstart]
    exact Or.inl rfl

/-- So does the second pass. -/
theorem eq_mask_of_redactJwts {t : Text} (h : redactJwts t = redactedMask) :
    t = redactedMask := by
  refine eq_mask_of_scan jwtMask_mem jwtTurn_read jwtTurn_shape ?_ h
  unfold jwtTurn
  dsimp only
  have hno : ¬ jwtMask <+: redactedMask := by decide
  split_ifs
  · exact Or.inr hno
  · exact Or.inl rfl
  · exact Or.inl rfl

/-- So does the third pass. -/
theorem eq_mask_of_redactKeyed {t : Text} (h : redactKeyed t = redactedMask) :
    t = redactedMask := by
  rw [redactKeyed_eq_scan] at h
  refine eq_mask_of_scan redactedMask_mem keyedTurn_read keyedTurn_shape ?_ h
  unfold keyedTurn
  -- At a letter the turn begins with the word, which no mask begins with.
  by_cases hword : t.head?.any Char.isAlpha = true
  · -- What is written begins with the word.
    obtain ⟨c, rest, rfl⟩ : ∃ c rest, t = c :: rest := by
      cases t with
      | nil => exact absurd hword Bool.false_ne_true
      | cons c rest => exact ⟨c, rest, rfl⟩
    have halpha : c.isAlpha = true := hword
    have htake : (c :: rest).takeWhile isWordChar = c :: rest.takeWhile isWordChar :=
      List.takeWhile_cons_of_pos (isWordChar_of_isAlpha halpha)
    have hletter : ∀ u : Text, ¬ c :: u <+: redactedMask := by
      intro u hpre
      rw [(List.cons_prefix_cons.mp hpre).1] at halpha
      exact absurd halpha (by decide)
    rw [if_pos hword]
    refine Or.inr ?_
    unfold wordTurn
    dsimp only
    rw [htake]
    split_ifs
    all_goals
      simp only [List.cons_append]
      exact hletter _
  · rw [if_neg hword]
    exact Or.inl rfl

/-- The last pass makes the mask of the mask and of a run that looks like a key. -/
theorem redactOpaqueRuns_eq_mask {t : Text} (h : redactOpaqueRuns t = redactedMask) :
    t = redactedMask ∨ (∀ c ∈ t, isOpaqueChar c = true) ∧ isKeyLike t = true := by
  -- The whole text is a run that looks like a key; otherwise the pass has copied its beginning.
  by_cases hkey : (t.head?.any isOpaqueChar
      ∧ (none : Option Char).all (fun c => !isOpaqueChar c) = true)
      ∧ isKeyLike (t.takeWhile isOpaqueChar) = true
  · have hturn : opaqueTurn none t = (redactedMask, (t.takeWhile isOpaqueChar).length) := by
      unfold opaqueTurn
      rw [if_pos hkey.1]
      exact if_pos hkey.2
    have ht : t ≠ [] := by
      rintro rfl
      exact absurd hkey.1.1 Bool.false_ne_true
    have hone : 1 ≤ (t.takeWhile isOpaqueChar).length := one_le_takeWhile hkey.1.1
    unfold redactOpaqueRuns at h
    rw [scan_turn ht hturn hone] at h
    -- The mask is all that is written, so that nothing is left of the text behind the run.
    have hrest : scan opaqueTurn (t.take (t.takeWhile isOpaqueChar).length).getLast?
        (t.drop (t.takeWhile isOpaqueChar).length) = [] :=
      List.append_right_eq_self.mp h
    have hnil : t.drop (t.takeWhile isOpaqueChar).length = [] := by
      have hcovered := covered_scan opaqueTurn_read
        (fun b u _ => (opaqueTurn_shape b u).covered redactedMask_mem)
        (t.take (t.takeWhile isOpaqueChar).length).getLast?
        (t.drop (t.takeWhile isOpaqueChar).length)
      rw [hrest] at hcovered
      exact hcovered.eq_nil (by decide)
    -- The run is the whole text.
    have hwhole : t.takeWhile isOpaqueChar = t := by
      conv_rhs => rw [← List.take_append_drop (t.takeWhile isOpaqueChar).length t, hnil,
        List.append_nil, take_length_takeWhile]
    rw [hwhole] at hkey
    refine Or.inr ⟨?_, hkey.2⟩
    intro c hc
    rw [← hwhole] at hc
    exact List.mem_takeWhile_imp hc
  · refine Or.inl (eq_mask_of_scan redactedMask_mem opaqueTurn_read opaqueTurn_shape (Or.inl ?_) h)
    unfold opaqueTurn
    by_cases hstart : t.head?.any isOpaqueChar
        ∧ (none : Option Char).all (fun c => !isOpaqueChar c) = true
    · rw [if_pos hstart]
      exact if_neg fun h => hkey ⟨hstart, h⟩
    · rw [if_neg hstart]

/-- A run has none of the characters that the first two passes look for. -/
theorem passes_of_opaque {t : Text} (h : ∀ c ∈ t, isOpaqueChar c = true) :
    redactUserinfo t = t ∧ redactJwts t = t := by
  have hcolon : ':' ∉ t := fun hc => absurd (h _ hc) (by decide)
  have hdot : '.' ∉ t := fun hc => absurd (h _ hc) (by decide)
  constructor
  · refine scan_of_copies (fun before u hu _ => ?_) none
    have hno : ¬ "://".toList <+: u := fun hpre =>
      hcolon (hu.subset (hpre.subset (by decide)))
    exact if_neg hno
  · refine scan_of_copies (fun before u hu _ => ?_) none
    have hcount : (u.takeWhile isValueChar).count '.' = 0 := by
      rw [List.count_eq_zero]
      exact fun hmem => hdot (hu.subset ((List.takeWhile_prefix _).subset hmem))
    unfold jwtTurn
    dsimp only
    rw [hcount]
    split_ifs with hstart htwo
    · exact absurd htwo (by decide)
    · rfl
    · rfl

/-- What is scrubbed to the mask alone: the mask, and a single key. -/
theorem scrub_eq_mask_iff {t : Text} : scrub t = redactedMask ↔ t = redactedMask ∨ IsKey t := by
  constructor
  · intro h
    unfold scrub at h
    rcases redactOpaqueRuns_eq_mask h with hmask | ⟨hrun, hkey⟩
    · exact Or.inl (eq_mask_of_redactUserinfo
          (eq_mask_of_redactJwts (eq_mask_of_redactKeyed hmask)))
    · -- A run has no bracket, so the passes before have copied.
      have hbare : ∀ {u : Text}, (∀ c ∈ u, isOpaqueChar c = true) → '[' ∉ u := fun hu hmem =>
        absurd (hu _ hmem) (by decide)
      have hkeyed : redactKeyed (redactJwts (redactUserinfo t))
          = redactJwts (redactUserinfo t) := by
        have hno := hbare hrun
        rw [redactKeyed_eq_scan] at hno ⊢
        exact scan_eq_of_bracket redactedMask_mem keyedTurn_read keyedTurn_shape hno
      rw [hkeyed] at hrun hkey
      have hjwts : redactJwts (redactUserinfo t) = redactUserinfo t :=
        scan_eq_of_bracket jwtMask_mem jwtTurn_read jwtTurn_shape (hbare hrun)
      rw [hjwts] at hrun hkey hkeyed
      have huser : redactUserinfo t = t :=
        scan_eq_of_bracket redactedMask_mem userinfoTurn_read userinfoTurn_shape (hbare hrun)
      rw [huser] at hrun hkey hkeyed
      exact Or.inr ⟨hrun, hkey, hkeyed⟩
  · rintro (rfl | ⟨hrun, hkey, hlabel⟩)
    · decide +kernel
    -- A run holds no `:` and no dot, so that the first two passes copy it.
    · obtain ⟨huser, hjwts⟩ := passes_of_opaque hrun
      have hwhole : t.takeWhile isOpaqueChar = t := List.takeWhile_eq_self_iff.mpr hrun
      have hne : t ≠ [] := by
        rintro rfl
        exact absurd hkey (by decide)
      have hpos := List.length_pos_iff.mpr hne
      -- The last pass takes all of it at once.
      have hturn : opaqueTurn none t = (redactedMask, t.length) := by
        obtain ⟨c, rest, rfl⟩ := List.exists_cons_of_ne_nil hne
        unfold opaqueTurn
        dsimp only
        rw [hwhole, if_pos ⟨hrun c List.mem_cons_self, rfl⟩, if_pos hkey]
      unfold scrub
      rw [huser, hjwts, hlabel, redactOpaqueRuns, scan_turn hne hturn hpos, List.drop_length,
        scan_nil, List.append_nil]

end Gabriel.Cli
