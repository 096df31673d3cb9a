import Gabriel.Proofs.ScrubMarks
import Gabriel.Proofs.ScrubValue
import Gabriel.Proofs.VaultNames

/-!
# `Gabriel.Proofs.Labelled`: values behind a label

What the scrubber does with `label separator value` in a line. A turn of the third pass at a word
reads the label, the separator and the run of value characters behind it, and it reads nothing
behind the run. So a value that is one run is replaced as a whole, when the pass comes to its label;
of a value that is none, what stands behind its first other character is read as text again. The
theorems:

* `not_infix_scrub`: what is neither in front of a value nor behind it is gone, when the third pass
  comes to a label in front of the value.
* `infix_scrub_of_barriers`: in a text without a URL, what is in no word, gap or value is shown.
* `scrubbedWhole_iff`: a labelled value is scrubbed whole exactly when each part of it is hidden by
  one of the four passes and spelled by none of the masks that are written.
-/

set_option autoImplicit false

namespace Gabriel.Cli

open Gabriel.Core Text

/-! ### A turn that ends in front of a letter -/

/-- A letter stands in no gap. -/
theorem isGapChar_of_isAlpha {c : Char} (hc : c.isAlpha = true) : isGapChar c = false := by
  refine decide_eq_false fun hmem => ?_
  simp only [List.mem_cons, List.not_mem_nil, or_false] at hmem
  rcases hmem with rfl | rfl | rfl | rfl | rfl | rfl
  all_goals exact absurd hc (by decide)

/-- What stands in no gap is no blank. -/
theorem not_blank_of_gap {c : Char} (hc : isGapChar c = false) :
    (c == ' ' || c == '\t') = false := by
  have hno := of_decide_eq_false hc
  simp only [List.mem_cons, not_or] at hno
  simp [hno.1, hno.2.1]

/-- Letters stand in values. -/
theorem isValueChar_of_isAlpha {c : Char} (hc : c.isAlpha = true) : isValueChar c = true := by
  simp [isValueChar, isTokenChar, Char.isAlphanum, hc]

/-- What a turn at a word reads holds the word. -/
theorem length_word_le (t : Text) : (t.takeWhile isWordChar).length ≤ (wordTurn t).2 := by
  unfold wordTurn
  dsimp only
  split_ifs
  all_goals simp only [List.length_append]; omega

/-- The first character of a text that goes on behind a letter. -/
theorem head?_append_cons (s : Text) (c : Char) (r : Text) :
    (s ++ c :: r).head? = (s ++ [c]).head? := by
  cases s with
  | nil => rfl
  | cons d s => rfl

/-- A run that goes up to a letter of its kind goes on with it. -/
theorem length_lt_takeWhile {p : Char → Bool} {s : Text} {c : Char} (h : ∀ d ∈ s, p d = true)
    (hc : p c = true) (r : Text) : s.length < ((s ++ c :: r).takeWhile p).length := by
  rw [List.takeWhile_append_of_pos h, List.takeWhile_cons_of_pos hc, List.length_append,
    List.length_cons]
  omega

/-- A turn that reads nothing from a letter on does not look behind the letter. -/
theorem wordTurn_local {s r : Text} {c : Char} (hc : c.isAlpha = true)
    (h : (wordTurn (s ++ c :: r)).2 ≤ s.length) (r' : Text) :
    wordTurn (s ++ c :: r') = wordTurn (s ++ c :: r) := by
  have hwordc : isWordChar c = true := isWordChar_of_isAlpha hc
  have hvaluec : isValueChar c = true := isValueChar_of_isAlpha hc
  have hgapc : isGapChar c = false := isGapChar_of_isAlpha hc
  have hblankc : (c == ' ' || c == '\t') = false := not_blank_of_gap hgapc
  have hlen : ∀ (p : Char → Bool) (u : Text),
      (u.takeWhile p).length + (u.dropWhile p).length = u.length := fun p u => by
    rw [← List.length_append, List.takeWhile_append_dropWhile]
  -- The word ends in front of the letter.
  have hword : ¬ ∀ d ∈ s, isWordChar d = true := fun hall => by
    have hlong := length_lt_takeWhile hall hwordc r
    have hle := length_word_le (s ++ c :: r)
    omega
  have hwordlen := hlen isWordChar s
  unfold wordTurn takesValue at h ⊢
  dsimp only at h ⊢
  simp only [(takeWhile_inside hword (c :: r)).1, (takeWhile_inside hword (c :: r)).2,
    (takeWhile_inside hword (c :: r')).1, (takeWhile_inside hword (c :: r')).2] at h ⊢
  generalize s.takeWhile isWordChar = word at h hwordlen ⊢
  generalize s.dropWhile isWordChar = behind at h hwordlen ⊢
  have hgaplen := hlen isGapChar behind
  simp only [(takeWhile_append_barrier hgapc behind r).1,
    (takeWhile_append_barrier hgapc behind r).2, (takeWhile_append_barrier hgapc behind r').1,
    (takeWhile_append_barrier hgapc behind r').2] at h ⊢
  generalize behind.takeWhile isGapChar = gap at h hgaplen ⊢
  generalize behind.dropWhile isGapChar = next at h hgaplen ⊢
  rw [head?_append_cons next c r] at h ⊢
  rw [head?_append_cons next c r']
  by_cases hlabel : ((isScheme word || keyIsSecret word) &&
      ((isScheme word || gap.any fun c => c == ':' || c == '=') &&
        (next ++ [c]).head?.any isTokenChar)) = true
  · rw [if_pos hlabel] at h ⊢
    rw [if_pos hlabel]
    -- So does the value, or the scheme.
    have htoken : ¬ ∀ d ∈ next, isValueChar d = true := fun hall => by
      have hlong := length_lt_takeWhile hall hvaluec r
      split_ifs at h
      all_goals
        simp only [List.length_append] at h
        omega
    have htokenlen := hlen isValueChar next
    simp only [(takeWhile_inside htoken (c :: r)).1, (takeWhile_inside htoken (c :: r)).2,
      (takeWhile_inside htoken (c :: r')).1, (takeWhile_inside htoken (c :: r')).2] at h ⊢
    generalize next.takeWhile isValueChar = token at h htokenlen ⊢
    generalize next.dropWhile isValueChar = after at h htokenlen ⊢
    by_cases hscheme : isScheme token = true
    · rw [if_pos hscheme] at h ⊢
      rw [if_pos hscheme]
      have hblanklen := hlen (fun d => d == ' ' || d == '\t') after
      simp only [(takeWhile_append_barrier (p := fun d => d == ' ' || d == '\t') hblankc after r).1,
        (takeWhile_append_barrier (p := fun d => d == ' ' || d == '\t') hblankc after r).2,
        (takeWhile_append_barrier (p := fun d => d == ' ' || d == '\t') hblankc after r').1,
        (takeWhile_append_barrier (p := fun d => d == ' ' || d == '\t') hblankc after r').2]
        at h ⊢
      generalize (after.takeWhile fun d => d == ' ' || d == '\t') = blanks at h hblanklen ⊢
      generalize (after.dropWhile fun d => d == ' ' || d == '\t') = value at h hblanklen ⊢
      rw [head?_append_cons value c r] at h ⊢
      rw [head?_append_cons value c r']
      by_cases hrun : (value ++ [c]).head?.any isTokenChar = true
      · rw [if_pos hrun] at h ⊢
        rw [if_pos hrun]
        have hvalue : ¬ ∀ d ∈ value, isValueChar d = true := fun hall => by
          have hlong := length_lt_takeWhile hall hvaluec r
          simp only [List.length_append] at h
          omega
        simp only [(takeWhile_inside hvalue (c :: r)).1, (takeWhile_inside hvalue (c :: r')).1]
      · rw [if_neg hrun, if_neg hrun]
    · rw [if_neg hscheme, if_neg hscheme]
  · rw [if_neg hlabel, if_neg hlabel]

/-- The same for any turn of the pass. -/
theorem keyedTurn_local {before : Option Char} {s r : Text} {c : Char} (hc : c.isAlpha = true)
    (hs : s ≠ []) (h : (keyedTurn before (s ++ c :: r)).2 ≤ s.length) (r' : Text) :
    keyedTurn before (s ++ c :: r') = keyedTurn before (s ++ c :: r) := by
  obtain ⟨d, s, rfl⟩ := List.exists_cons_of_ne_nil hs
  by_cases hd : d.isAlpha = true
  · have hturn : ∀ r, keyedTurn before (d :: s ++ c :: r) = wordTurn (d :: s ++ c :: r) :=
      fun r => if_pos hd
    rw [hturn] at h
    rw [hturn, hturn, wordTurn_local hc h r']
  · have hturn : ∀ r, keyedTurn before (d :: s ++ c :: r) = ([d], 1) := fun r => if_neg hd
    rw [hturn, hturn]

/-- The pass comes to a word whether or not something follows it. -/
theorem comes_append {before : Option Char} {t head : Text}
    (h : Comes keyedTurn before t head) (hhead : head.head?.any Char.isAlpha = true) (z : Text) :
    Comes keyedTurn before (t ++ z) (head ++ z) := by
  induction h with
  | here before t => exact .here before _
  | @turned before t u ht h ih =>
    obtain ⟨c, rest, rfl⟩ : ∃ c rest, u = c :: rest := by
      cases u with
      | nil => exact absurd hhead Bool.false_ne_true
      | cons c rest => exact ⟨c, rest, rfl⟩
    have hc : c.isAlpha = true := hhead
    obtain ⟨front, hfront⟩ := h.suffix
    have hlen : (keyedTurn before t).2 ≤ t.length := by
      have hpos : 0 < (t.drop (keyedTurn before t).2).length := by
        rw [← hfront]
        simp
      rw [List.length_drop] at hpos
      omega
    -- The letter that the pass comes to stands behind what the turn reads.
    have hwhole : t = t.take (keyedTurn before t).2 ++ front ++ c :: rest := by
      rw [List.append_assoc, hfront, List.take_append_drop]
    have hread : (keyedTurn before t).2 ≤ (t.take (keyedTurn before t).2 ++ front).length := by
      rw [List.length_append, List.length_take, min_eq_left hlen]
      exact Nat.le_add_right _ _
    have hne : t.take (keyedTurn before t).2 ++ front ≠ [] := by
      have hone := keyedTurn_read before t ht
      intro hnil
      rw [hnil] at hread
      simp at hread
      omega
    have hturn : keyedTurn before (t ++ z) = keyedTurn before t := by
      have hinside : (keyedTurn before (t.take (keyedTurn before t).2 ++ front ++ c :: rest)).2
          ≤ (t.take (keyedTurn before t).2 ++ front).length := by
        rw [← hwhole]
        exact hread
      have hlocal := keyedTurn_local hc hne hinside (rest ++ z)
      rw [← hwhole] at hlocal
      rw [← hlocal]
      congr 1
      conv_lhs => rw [hwhole]
      simp
    refine .turned (List.append_ne_nil_of_left_ne_nil ht z) ?_
    rw [hturn, List.take_append_of_le_length hlen, List.drop_append_of_le_length hlen]
    exact ih hhead

/-! ### The turn at a label -/

/-- A label and the gap behind it. The gap has a separator in it, which a scheme does not need. -/
structure IsLabel (word gap : Text) : Prop where
  letter : word.head?.any Char.isAlpha = true
  word_chars : ∀ c ∈ word, isWordChar c = true
  gap_chars : ∀ c ∈ gap, isGapChar c = true
  gap_ne_nil : gap ≠ []
  label : isScheme word = true ∨
    keyIsSecret word = true ∧ (gap.any fun c => c == ':' || c == '=') = true

/-- What stands in front of a value: a label, or a label and a scheme. Behind a label alone the
value is no scheme itself. -/
inductive Labels : Text → Text → Prop where
  | plain {word gap v : Text} (h : IsLabel word gap) (hv : isScheme v = false) :
      Labels (word ++ gap) v
  | scheme {word gap name blanks v : Text} (h : IsLabel word gap) (hname : isScheme name = true)
      (hblanks : ∀ c ∈ blanks, (c == ' ' || c == '\t') = true) (hne : blanks ≠ []) :
      Labels (word ++ gap ++ name ++ blanks) v

/-- A scheme is made of letters. -/
theorem isAlpha_of_isScheme {name : Text} (h : isScheme name = true) :
    ∀ c ∈ name, c.isAlpha = true := by
  intro c hc
  have hlower : c.toLower ∈ asciiLower name := List.mem_map_of_mem hc
  have hall : ∀ d ∈ asciiLower name, d.isAlpha = true := by
    simp only [isScheme, Bool.or_eq_true, decide_eq_true_eq] at h
    rcases h with h | h
    · rw [h]
      exact forall_mem_of_all (by decide)
    · rw [h]
      exact forall_mem_of_all (by decide)
  rw [← Char.isAlpha_toLower_eq_isAlpha]
  exact hall _ hlower

/-- What stands in a gap stands in no word. -/
theorem isWordChar_of_gap {c : Char} (hc : isGapChar c = true) : isWordChar c = false := by
  have hmem := of_decide_eq_true hc
  simp only [List.mem_cons, List.not_mem_nil, or_false] at hmem
  rcases hmem with rfl | rfl | rfl | rfl | rfl | rfl
  all_goals decide

/-- What the turn at a label reads first. -/
theorem IsLabel.read {word gap rest : Text} (h : IsLabel word gap)
    (hrest : rest.head?.all (fun c => !isGapChar c) = true) :
    (word ++ (gap ++ rest)).takeWhile isWordChar = word ∧
      (word ++ (gap ++ rest)).dropWhile isWordChar = gap ++ rest ∧
      (gap ++ rest).takeWhile isGapChar = gap ∧ (gap ++ rest).dropWhile isGapChar = rest := by
  have hstop : (gap ++ rest).head?.all (fun c => !isWordChar c) = true := by
    obtain ⟨c, gap, rfl⟩ := List.exists_cons_of_ne_nil h.gap_ne_nil
    have hc := isWordChar_of_gap (h.gap_chars c List.mem_cons_self)
    simp [hc]
  obtain ⟨hword, hbehind⟩ := takeWhile_run h.word_chars hstop
  obtain ⟨hgap, hnext⟩ := takeWhile_run h.gap_chars hrest
  exact ⟨hword, hbehind, hgap, hnext⟩

/-- A label takes what begins with a token character. -/
theorem IsLabel.takes {word gap next : Text} (h : IsLabel word gap)
    (hnext : next.head?.any isTokenChar = true) :
    ((isScheme word || keyIsSecret word) && takesValue word gap next) = true := by
  unfold takesValue
  rw [hnext]
  rcases h.label with hscheme | ⟨hkey, hmark⟩
  · simp [hscheme]
  · simp [hkey, hmark]

/-- The turn at a label masks the value. -/
theorem wordTurn_label {head v w : Text} (hhead : Labels head v)
    (hv : ∀ c ∈ v, isValueChar c = true) (hfirst : v.head?.any isTokenChar = true)
    (hgap : v.head?.all (fun c => !isGapChar c) = true)
    (hw : w.head?.all (fun c => !isValueChar c) = true) :
    wordTurn (head ++ (v ++ w)) = (head ++ redactedMask, (head ++ v).length) := by
  have hrun := takeWhile_run hv hw
  -- The value has a first character, since a token begins with one.
  have hstart : (v ++ w).head? = v.head? := by
    cases v with
    | nil => exact absurd hfirst Bool.false_ne_true
    | cons d v => rfl
  -- The value stands behind the label, or behind the name of a scheme such as `Bearer`.
  cases hhead with
  | @plain word gap _ h hscheme =>
    have hstop : (v ++ w).head?.all (fun c => !isGapChar c) = true := by rwa [hstart]
    obtain ⟨hword, hbehind, hgapRun, hnext⟩ := h.read hstop
    have hwhole : word ++ gap ++ (v ++ w) = word ++ (gap ++ (v ++ w)) := List.append_assoc _ _ _
    -- The turn reads the word and the gap behind it, and what comes next is a value to mask.
    rw [hwhole]
    unfold wordTurn
    dsimp only
    rw [hword, hbehind, hgapRun, hnext, hrun.1, if_pos (h.takes (by rwa [hstart])),
      if_neg (by simp [hscheme])]
  | @scheme word gap name blanks _ h hname hblanks hne =>
    obtain ⟨c, name, rfl⟩ : ∃ c rest, name = c :: rest := by
      cases name with
      | nil => exact absurd hname (by decide)
      | cons c rest => exact ⟨c, rest, rfl⟩
    have halpha := isAlpha_of_isScheme hname
    have hc := halpha c List.mem_cons_self
    -- The name of the scheme ends the gap, and the blanks behind it end the name.
    have hstop : (c :: name ++ (blanks ++ (v ++ w))).head?.all (fun c => !isGapChar c) = true := by
      simp [isGapChar_of_isAlpha hc]
    obtain ⟨hword, hbehind, hgapRun, hnext⟩ := h.read hstop
    have hname' : (blanks ++ (v ++ w)).head?.all (fun c => !isValueChar c) = true := by
      obtain ⟨e, blanks, rfl⟩ := List.exists_cons_of_ne_nil hne
      have he := hblanks e List.mem_cons_self
      simp only [Bool.or_eq_true, beq_iff_eq] at he
      rcases he with rfl | rfl
      · rfl
      · rfl
    have htoken := takeWhile_run (fun d hd => isValueChar_of_isAlpha (halpha d hd)) hname'
    have hblank' : (v ++ w).head?.all (fun c => !(c == ' ' || c == '\t')) = true := by
      rw [hstart]
      cases v with
      | nil => rfl
      | cons d v => simpa using not_blank_of_gap (by simpa using hgap : isGapChar d = false)
    have hblankRun := takeWhile_run hblanks hblank'
    have hwhole : word ++ gap ++ (c :: name) ++ blanks ++ (v ++ w)
        = word ++ (gap ++ (c :: name ++ (blanks ++ (v ++ w)))) := by simp
    have htake : (c :: name ++ (blanks ++ (v ++ w))).head?.any isTokenChar = true := by
      simp [isTokenChar, Char.isAlphanum, hc]
    -- The turn reads the word, the gap, the scheme and the blanks, and masks what is left.
    rw [hwhole]
    unfold wordTurn
    dsimp only
    rw [hword, hbehind, hgapRun, hnext, htoken.1, htoken.2, hblankRun.1, hblankRun.2, hrun.1,
      if_pos (h.takes htake), if_pos hname, if_pos (by rwa [hstart])]
    simp only [List.length_append]

/-! ### The passes at a value -/

/-- A head begins with a letter. -/
theorem Labels.letter {head v : Text} (h : Labels head v) :
    head.head?.any Char.isAlpha = true := by
  have hfirst : ∀ {word gap : Text}, IsLabel word gap → ∀ rest,
      (word ++ rest).head?.any Char.isAlpha = true := by
    intro word gap h rest
    have hletter := h.letter
    cases word with
    | nil => exact absurd hletter Bool.false_ne_true
    | cons c word => exact hletter
  cases h with
  | plain h hv => exact hfirst h _
  | scheme h hname hblanks hne =>
    rw [List.append_assoc, List.append_assoc]
    exact hfirst h _

/-- A value that the labels take: it is made of value characters and begins with one that is a token
character and stands in no gap. -/
structure IsTaken (v : Text) : Prop where
  chars : ∀ c ∈ v, isValueChar c = true
  token : v.head?.any isTokenChar = true
  no_gap : v.head?.all (fun c => !isGapChar c) = true

/-- A value that is taken is not empty. -/
theorem IsTaken.ne_nil {v : Text} (h : IsTaken v) : v ≠ [] := by
  rintro rfl
  exact absurd h.token Bool.false_ne_true

/-- The third pass hides a value when it comes to a label in front of it. -/
theorem redactKeyed_value {s head v w : Text} (hcomes : Comes keyedTurn none s head)
    (hhead : Labels head v) (hv : IsTaken v)
    (hw : w.head?.all (fun c => !isValueChar c) = true) :
    HiddenBehind s w (redactKeyed (s ++ (v ++ w))) := by
  -- Wherever the pass turns, it covers what it takes with a mask or leaves it.
  have hcovered : ∀ before t, t ≠ [] →
      Covered scrubMasks (t.take (keyedTurn before t).2) (keyedTurn before t).1 :=
    fun before t _ => (keyedTurn_shape before t).covered redactedMask_mem
  have hletter : (head ++ (v ++ w)).head?.any Char.isAlpha = true := by
    have hfirst := hhead.letter
    cases head with
    | nil => exact absurd hfirst Bool.false_ne_true
    | cons c head => exact hfirst
  -- Up to the label the scan has covered what it took; the turn at the label is known.
  obtain ⟨front, covered, before, hfront, hcov, hscan⟩ :=
    (comes_append hcomes hhead.letter (v ++ w)).scan keyedTurn_read hcovered
  have hturn : keyedTurn before (head ++ (v ++ w))
      = (head ++ redactedMask, (head ++ v).length) := by
    rw [keyedTurn, if_pos hletter, wordTurn_label hhead hv.chars hv.token hv.no_gap hw]
  have hone : 1 ≤ (head ++ v).length :=
    List.length_pos_iff.mpr (List.append_ne_nil_of_right_ne_nil head hv.ne_nil)
  have hne : head ++ (v ++ w) ≠ [] :=
    List.append_ne_nil_of_right_ne_nil head (List.append_ne_nil_of_left_ne_nil hv.ne_nil w)
  have hdrop : (head ++ (v ++ w)).drop (head ++ v).length = w := by
    rw [← List.append_assoc]
    exact List.drop_left
  -- What stands in front of the label was scanned before.
  have hs : s = front ++ head := by
    rw [← List.append_assoc front] at hfront
    exact List.append_cancel_right hfront
  rw [redactKeyed_eq_scan, hscan, scan_turn hne hturn hone, hdrop, ← List.append_assoc,
    ← List.append_assoc]
  exact ⟨s, covered ++ head, redactedMask, w, _, List.prefix_refl s, List.suffix_refl w,
    redactedMask_mem, hs ▸ hcov.append (.refl _ head),
    covered_scan keyedTurn_read hcovered _ w, rfl⟩

/-- What is neither in front of a value nor behind it is gone, when the third pass comes to a label
in front of the value. -/
theorem not_infix_scrub {s head v w p : Text}
    (hcomes : Comes keyedTurn none (redactJwts (redactUserinfo s)) head) (hhead : Labels head v)
    (hv : IsTaken v) (hw : w.head?.all (fun c => !isValueChar c) = true)
    (hp : ∀ mask ∈ scrubMasks, ¬ Overlap p mask)
    (hs : ∀ v₁, v₁ <+: v → v₁.length ≤ 2 → ¬ p <:+: s ++ v₁) (hpw : ¬ p <:+: w) :
    ¬ p <:+: scrub (s ++ (v ++ w)) := by
  have hne : p ≠ [] := ne_nil_of_not_overlap (hp redactedMask redactedMask_mem)
  -- What is gone after one pass stays gone, since no mask overlaps it.
  have hgone : ∀ {t out : Text}, Covered scrubMasks t out → ¬ p <:+: t → ¬ p <:+: out :=
    fun hcov hno hin => hno (hcov.uncovered hp hne hin)
  have hs0 : ¬ p <:+: s := by simpa using hs [] List.nil_prefix (by simp)
  unfold scrub
  refine hgone (covered_passes _).2.2.2 ?_
  -- The first pass leaves the value, or hides all but two characters of it.
  rcases redactUserinfo_value hv.chars hv.ne_nil hw s with ⟨w₁, hw₁, hfirst⟩ |
    ⟨v₁, hv₁, hlen, hhidden⟩
  · rw [hfirst]
    have hkept : ¬ p <:+: redactJwts (redactUserinfo s) :=
      hgone (covered_passes _).2.1 (hgone (covered_passes s).1 hs0)
    have hpw₁ := hgone hw₁ hpw
    -- The second pass leaves it, or leaves the part up to a dot, or hides it.
    rcases redactJwts_value hv.chars hv.ne_nil (head_covered hw₁ hw) (redactUserinfo s) with
      ⟨w₂, hw₂, hsecond⟩ | ⟨v₁, v₂, w₂, rfl, hw₂, hsecond⟩ | hhidden
    · -- The value is left for the third pass.
      rw [hsecond]
      exact (redactKeyed_value hcomes hhead hv (head_covered hw₂ (head_covered hw₁ hw))).absent
        hne hp hkept (hgone hw₂ hpw₁)
    · -- What ends with a dot is left for the third pass.
      rw [hsecond]
      -- The part up to the dot is a value too.
      have hv' : IsTaken (v₁ ++ ['.']) := by
        refine ⟨fun c hc => hv.chars c ?_, ?_, ?_⟩
        · simp only [List.mem_append, List.mem_singleton] at hc
          simp only [List.mem_append, List.mem_cons]
          tauto
        · have htoken := hv.token
          rwa [head?_append_cons] at htoken
        · have hgap := hv.no_gap
          rwa [head?_append_cons] at hgap
      -- And it is no scheme, as it has a dot.
      have hhead' : Labels head (v₁ ++ ['.']) := by
        cases hhead with
        | plain h hscheme =>
          refine .plain h ?_
          by_contra hdot
          have halpha := isAlpha_of_isScheme (by simpa using hdot) '.' (by simp)
          exact absurd halpha (by decide)
        | scheme h hname hblanks hblank => exact .scheme h hname hblanks hblank
      refine (redactKeyed_value hcomes hhead' hv' rfl).absent hne hp hkept ?_
      rw [infix_fixed_left_iff (hp jwtMask jwtMask_mem)]
      exact hgone hw₂ hpw₁
    · exact hgone (covered_passes _).2.2.1
        (hhidden.absent hne hp (hgone (covered_passes s).1 hs0) hpw₁)
  · exact hgone (covered_passes _).2.2.1 (hgone (covered_passes _).2.1
      (hhidden.absent hne hp (hs v₁ hv₁ hlen) hpw))

/-! ### What no pass hides -/

/-- A text begins with what has a character not in it only if it does so before that character. -/
theorem prefix_append_cons_iff {pat : Text} {c : Char} (hc : c ∉ pat) (s t : Text) :
    pat <+: s ++ c :: t ↔ pat <+: s := by
  induction pat generalizing s with
  | nil => exact iff_of_true List.nil_prefix List.nil_prefix
  | cons d pat ih =>
    rw [List.mem_cons, not_or] at hc
    cases s with
    | nil =>
      refine iff_of_false (fun h => ?_) (fun h => absurd (List.prefix_nil.mp h) (by simp))
      exact hc.1 (List.cons_prefix_cons.mp h).1.symm
    | cons e s => rw [List.cons_append, List.cons_prefix_cons, List.cons_prefix_cons, ih hc.2]

/-- A turn at a JWT does not look behind a barrier. -/
theorem jwtTurn_append {c : Char} (h : Barrier c) (before : Option Char) (s : Text) (hs : s ≠ [])
    (t : Text) : jwtTurn before (s ++ c :: t) = jwtTurn before s ∧
      (jwtTurn before s).2 ≤ s.length := by
  have hc : c ∉ "eyJ".toList := fun hmem => by
    have hall : ∀ d ∈ "eyJ".toList, isValueChar d = true := forall_mem_of_all (by decide)
    have hvalue := h.value
    rw [hall c hmem] at hvalue
    exact Bool.noConfusion hvalue
  obtain ⟨d, s, rfl⟩ := List.exists_cons_of_ne_nil hs
  unfold jwtTurn
  dsimp only
  rw [(takeWhile_append_barrier h.value (d :: s) t).1]
  simp only [prefix_append_cons_iff hc]
  constructor
  · rfl
  · have hle := (List.takeWhile_prefix (p := isValueChar) (l := d :: s)).length_le
    split_ifs
    · exact hle
    · simp
    · simp

/-- Barriers stay where they are in a pass that copies them and does not look behind them. -/
theorem infix_scan_of_barriers {turn : Option Char → Text → Text × Nat}
    (hread : ∀ before t, t ≠ [] → 1 ≤ (turn before t).2)
    (happend : ∀ {c : Char}, Barrier c → ∀ before s, s ≠ [] → ∀ t,
      turn before (s ++ c :: t) = turn before s ∧ (turn before s).2 ≤ s.length)
    (hcopy : ∀ {c : Char}, Barrier c → ∀ before t, turn before (c :: t) = ([c], 1))
    {p t : Text} (hp : ∀ c ∈ p, Barrier c) (hne : p ≠ []) (h : p <:+: t) :
    p <:+: scan turn none t := by
  obtain ⟨x, y, rfl⟩ := h
  have hkept : ∀ (p : Text), (∀ c ∈ p, Barrier c) → ∀ before,
      p <+: scan turn before (p ++ y) := by
    intro p
    induction p with
    | nil => exact fun _ _ => List.nil_prefix
    | cons c p ih =>
      intro hp before
      rw [List.cons_append, scan_copy (hcopy (hp c List.mem_cons_self) before (p ++ y))]
      exact List.cons_prefix_cons.mpr ⟨rfl, ih (fun d hd => hp d (List.mem_cons_of_mem c hd)) _⟩
  obtain ⟨c, rest, rfl⟩ := List.exists_cons_of_ne_nil hne
  have hc := hp c List.mem_cons_self
  rw [List.append_assoc, List.cons_append,
    scan_append hread fun before s hs => happend hc before s hs (rest ++ y)]
  exact (hkept (c :: rest) hp _).isInfix.trans (List.suffix_append _ _).isInfix

/-- The pass at JWTs copies a barrier. -/
theorem jwtTurn_barrier {c : Char} (h : Barrier c) (before : Option Char) (t : Text) :
    jwtTurn before (c :: t) = ([c], 1) := by
  refine jwtTurn_copy fun hjwt => ?_
  have hvalue := h.value
  rw [← (List.cons_prefix_cons.mp hjwt.1.1).1] at hvalue
  exact absurd hvalue (by decide)

/-- A text without a URL has no user part. -/
theorem redactUserinfo_of_absent {t : Text} (h : ¬ "://".toList <:+: t) : redactUserinfo t = t := by
  refine scan_of_copies (fun before u hu _ => ?_) none
  exact if_neg fun hpre => h (hpre.isInfix.trans hu.isInfix)

/-- In a text without a URL, barriers are shown. -/
theorem infix_scrub_of_barriers {p t : Text} (hp : ∀ c ∈ p, Barrier c) (hne : p ≠ [])
    (hurl : ¬ "://".toList <:+: t) (h : p <:+: t) : p <:+: scrub t := by
  unfold scrub
  rw [redactUserinfo_of_absent hurl, redactKeyed_eq_scan]
  have hjwts : p <:+: redactJwts t :=
    infix_scan_of_barriers jwtTurn_read jwtTurn_append jwtTurn_barrier hp hne h
  have hkeyed := infix_scan_of_barriers keyedTurn_read keyedTurn_append keyedTurn_barrier hp hne
    hjwts
  exact infix_scan_of_barriers opaqueTurn_read opaqueTurn_append opaqueTurn_barrier hp hne hkeyed

/-! ### Labelled values -/

/-- A line with a labelled value in it: what comes before, the label, the separator, a scheme or
nothing, the value and the rest. -/
structure IsLabelledLine (before label separator scheme value rest : Text) : Prop where
  label_ne_nil : label ≠ []
  label_chars : ∀ c ∈ label, isWordChar c = true
  label_secret : keyIsSecret label = true ∨ isCredentialHeader label = true
  separator_chars : ∀ c ∈ separator, c ∈ ['"', '\'', ' ', ':', '=']
  separator_mark : ':' ∈ separator ∨ '=' ∈ separator
  scheme_shape : scheme = [] ∨ ∃ name blanks, scheme = name ++ blanks ∧ isScheme name = true ∧
    blanks ≠ [] ∧ ∀ c ∈ blanks, c = ' '
  value_ne_nil : value ≠ []
  value_chars : ∀ c ∈ value, isWhitespace c = false ∧ c ∉ ['"', '\'']
  rest_start : rest.head?.all (fun c => isWhitespace c || c ∈ ['"', '\'']) = true
  one_line : '\n' ∉ before ++ rest

/-- Every occurrence in a text is in its middle part. -/
def OccursOnlyIn (p before value rest : Text) : Prop :=
  ∀ u w, before ++ value ++ rest = u ++ p ++ w → before.length ≤ u.length ∧ rest.length ≤ w.length

/-- A part of the value of three or more characters that stands nowhere else in the line. -/
structure IsOwnPart (p before value rest : Text) : Prop where
  part : p <:+: value
  length : 3 ≤ p.length
  only : OccursOnlyIn p before value rest

/-- A part of three characters is not empty. -/
theorem IsOwnPart.ne_nil {p before value rest : Text} (h : IsOwnPart p before value rest) :
    p ≠ [] := by
  rintro rfl
  exact absurd h.length (by simp)

/-- No part of the value of three or more characters is left, unless it stands elsewhere too. -/
def ScrubbedWhole (before value rest : Text) : Prop :=
  ∀ p, IsOwnPart p before value rest → ¬ p <:+: scrub (before ++ value ++ rest)

/-- A mask that is written spells a part: each one spells `redacted`, and the mask of a JWT is
written where the second pass finds one. -/
def Spelled (p t : Text) : Prop := p <:+: "redacted".toList ∨ p <:+: jwtMask ∧ MasksJwt t

/-- A mask that is written can spell a part together with what stands beside the mask. -/
def OverlapsMask (p t : Text) : Prop := Overlap p redactedMask ∨ Overlap p jwtMask ∧ MasksJwt t

/-- The third pass reads the value behind a label that it comes to, when it has read what stands in
front of the value: behind the label of the line, behind its scheme, or behind an earlier one that
the value goes on from. -/
def IsRead (before value : Text) : Prop :=
  ∃ s head v, before ++ value = s ++ v ∧ value <:+ v ∧ IsTaken v ∧ Labels head v ∧
    Comes keyedTurn none (redactJwts (redactUserinfo s)) head

/-- White space and quotes are no value characters. -/
theorem not_isValueChar_of_stop {c : Char}
    (h : (isWhitespace c || c ∈ ['"', '\'']) = true) : isValueChar c = false := by
  by_contra hvalue
  have hascii : c.toNat < 128 := by
    simp only [isValueChar, isTokenChar, Bool.not_eq_false, Bool.or_eq_true, beq_iff_eq,
      decide_eq_true_eq, List.mem_cons, List.not_mem_nil, or_false] at hvalue
    rcases hvalue with (halnum | rfl | rfl | rfl | rfl | rfl) | rfl
    · exact ascii_of_isAlphanum halnum
    all_goals decide
  have hall : (isWhitespace c || c ∈ ['"', '\'']) = true → isValueChar c = false :=
    forall_ascii (p := fun c => (isWhitespace c || c ∈ ['"', '\'']) = true → isValueChar c = false)
      (by decide +kernel) hascii
  exact hvalue (hall h)

/-- What has no bracket in it overlaps a mask only between its brackets. -/
theorem infix_of_overlap {p body : Text} (hopen : '[' ∉ p) (hclose : ']' ∉ p) (hne : p ≠ [])
    (h : Overlap p ('[' :: (body ++ [']']))) : p <:+: body := by
  have hwhole : '[' :: (body ++ [']']) = [] ++ '[' :: (body ++ ']' :: []) := rfl
  rw [hwhole] at h
  rcases h with hin | hin | ⟨w, hw, hwne, hpre⟩ | ⟨w, hw, hwne, hsuf⟩
  · exact absurd (hin.subset (by simp)) hopen
  · rw [infix_append_cons_iff hopen, infix_append_cons_iff hclose] at hin
    rcases hin with hin | hin | hin
    · exact absurd (List.eq_nil_of_infix_nil hin) hne
    · exact hin
    · exact absurd (List.eq_nil_of_infix_nil hin) hne
  · obtain ⟨d, w, rfl⟩ := List.exists_cons_of_ne_nil hwne
    obtain ⟨rfl, -⟩ := List.cons_prefix_cons.mp hpre
    exact absurd (((List.mem_tails _ _).mp hw).subset List.mem_cons_self) hopen
  · obtain ⟨t, ht⟩ := hsuf
    have hlast : (t ++ w).getLast? = ('[' :: body ++ [']']).getLast? := congrArg List.getLast? ht
    rw [List.getLast?_append, List.getLast?_eq_some_getLast hwne, Option.some_or,
      List.getLast?_concat] at hlast
    have hmem : ']' ∈ w := by
      rw [← Option.some.inj hlast]
      exact List.getLast_mem hwne
    exact absurd (((List.mem_inits _ _).mp hw).subset hmem) hclose

/-- The same for the masks that are written. -/
theorem spelled_of_overlapsMask {p t : Text} (hopen : '[' ∉ p) (hclose : ']' ∉ p) (hne : p ≠ [])
    (h : OverlapsMask p t) : Spelled p t := by
  rcases h with hred | ⟨hjwt, hmasks⟩
  · exact Or.inl (infix_of_overlap hopen hclose hne hred)
  · have hbody : p <:+: "redacted-jwt".toList := infix_of_overlap hopen hclose hne hjwt
    exact Or.inr ⟨hbody.trans (by decide), hmasks⟩

/-- The label of the line reads the value, when the third pass comes to it. -/
theorem isRead_of_label {front label separator scheme value rest : Text}
    (hline : IsLabelledLine front label separator scheme value rest)
    (hkey : keyIsSecret label = true) (hletter : label.head?.any Char.isAlpha = true)
    (hvalue : IsTaken value) (hscheme : scheme = [] → isScheme value = false)
    (hcomes : Comes keyedTurn none
      (redactJwts (redactUserinfo (front ++ label ++ separator ++ scheme)))
      (label ++ separator ++ scheme)) :
    IsRead (front ++ label ++ separator ++ scheme) value := by
  -- The label that the line has is one that the pass knows: its name is secret, and a mark stands
  -- behind it.
  have hlabel : IsLabel label separator := by
    have hall : ∀ c ∈ ['"', '\'', ' ', ':', '='], isGapChar c = true :=
      forall_mem_of_all (by decide)
    refine ⟨hletter, hline.label_chars, fun c hc => hall c (hline.separator_chars c hc), ?_,
      Or.inr ⟨hkey, ?_⟩⟩
    · rintro rfl
      exact absurd hline.separator_mark (by simp)
    · rw [List.any_eq_true]
      rcases hline.separator_mark with hmark | hmark
      · exact ⟨_, hmark, by decide⟩
      · exact ⟨_, hmark, by decide⟩
  refine ⟨_, label ++ separator ++ scheme, value, rfl, List.suffix_refl value, hvalue, ?_, hcomes⟩
  -- Without a scheme the value stands behind the gap; with one, behind its name and the blanks.
  rcases hline.scheme_shape with rfl | ⟨name, blanks, rfl, hname, hne, hblanks⟩
  · rw [List.append_nil]
    exact .plain hlabel (hscheme rfl)
  · rw [← List.append_assoc]
    refine .scheme hlabel hname (fun c hc => ?_) hne
    rw [hblanks c hc]
    rfl

/-- The places where a text occurs, one by one. -/
theorem occursOnlyIn_of_places {p before value rest : Text}
    (h : ∀ n ≤ (before ++ value ++ rest).length, p <+: (before ++ value ++ rest).drop n →
      before.length ≤ n ∧ n + p.length + rest.length ≤ (before ++ value ++ rest).length) :
    OccursOnlyIn p before value rest := by
  intro u w huw
  have hlen : (before ++ value ++ rest).length = u.length + p.length + w.length := by
    rw [huw, List.length_append, List.length_append]
  have hdrop : (before ++ value ++ rest).drop u.length = p ++ w := by
    rw [huw, List.append_assoc, List.drop_left]
  have hplace := h u.length (by omega) (hdrop ▸ List.prefix_append p w)
  omega

/-- A line with a password behind its label. -/
theorem isLabelledLine_password {front value rest : Text} (hvalue : value ≠ [])
    (hchars : ∀ c ∈ value, isWhitespace c = false ∧ c ∉ ['"', '\''])
    (hrest : rest.head?.all (fun c => isWhitespace c || c ∈ ['"', '\'']) = true)
    (hline : '\n' ∉ front ++ rest) :
    IsLabelledLine front "password".toList "=".toList [] value rest where
  label_ne_nil := by decide
  label_chars := forall_mem_of_all (by decide)
  label_secret := Or.inl (by decide)
  separator_chars := fun c hc => by rw [List.mem_singleton.mp hc]; decide
  separator_mark := Or.inr (by decide)
  scheme_shape := Or.inl rfl
  value_ne_nil := hvalue
  value_chars := hchars
  rest_start := hrest
  one_line := hline

/-- A value that the third pass reads behind a label is scrubbed whole, but for what the longer mask
spells. -/
theorem scrubbedWhole_of_read {front label separator scheme value rest before : Text}
    (hline : IsLabelledLine front label separator scheme value rest) (hread : IsRead before value)
    (hmask : ∀ p, IsOwnPart p before value rest → ¬ p <:+: jwtMask) :
    ScrubbedWhole before value rest := by
  obtain ⟨s, head, v, hsplit, hsuf, hv, hhead, hcomes⟩ := hread
  intro p hown
  have hlen := hown.length
  -- The value ends where the rest begins with no value character.
  have hw : rest.head?.all (fun c => !isValueChar c) = true := by
    have hstart := hline.rest_start
    cases rest with
    | nil => rfl
    | cons c rest => simpa using not_isValueChar_of_stop (by simpa using hstart)
  have hpv : ∀ c ∈ p, isValueChar c = true := fun c hc =>
    hv.chars c (hsuf.subset (hown.part.subset hc))
  have hopen : '[' ∉ p := fun hmem => absurd (hpv _ hmem) (by decide)
  have hclose : ']' ∉ p := fun hmem => absurd (hpv _ hmem) (by decide)
  -- The part has no bracket, so it could only overlap a mask by what the mask spells.
  have hover : ∀ mask ∈ scrubMasks, ¬ Overlap p mask := by
    intro mask hmem hoverlap
    rcases List.mem_cons.mp hmem with rfl | hmem
    · have hbody : p <:+: "redacted".toList := infix_of_overlap hopen hclose hown.ne_nil hoverlap
      exact hmask p hown (hbody.trans (by decide))
    · rw [List.mem_singleton.mp hmem] at hoverlap
      have hbody : p <:+: "redacted-jwt".toList :=
        infix_of_overlap hopen hclose hown.ne_nil hoverlap
      exact hmask p hown (hbody.trans (by decide))
  -- The read value ends the value of the line, and what is in front of it belongs to the front.
  have hwhole : before ++ value ++ rest = s ++ (v ++ rest) := by
    rw [hsplit, List.append_assoc]
  have hlengths := congrArg List.length hsplit
  rw [List.length_append, List.length_append] at hlengths
  have hlev := hsuf.length_le
  rw [hwhole]
  refine not_infix_scrub hcomes hhead hv hw hover (fun v₁ hv₁ hlen₁ hin => ?_) fun hin => ?_
  · -- An occurrence that ends within two characters of the value.
    obtain ⟨v₂, rfl⟩ := hv₁
    obtain ⟨u, w, huw⟩ := hin
    have hocc : before ++ value ++ rest = u ++ p ++ (w ++ (v₂ ++ rest)) := by
      rw [hwhole, ← List.append_assoc (u ++ p), huw]
      simp
    have hout := (hown.only _ _ hocc).1
    have hcount := congrArg List.length huw
    simp only [List.length_append] at hcount hlengths hlev
    omega
  · obtain ⟨u, w, huw⟩ := hin
    have hocc : before ++ value ++ rest = (before ++ value ++ u) ++ p ++ w := by
      rw [← huw]
      simp
    have hout := (hown.only _ _ hocc).2
    have hcount := congrArg List.length huw
    simp only [List.length_append] at hcount
    omega

/-- In a value that is scrubbed whole each part is hidden, and no mask spells one. -/
theorem hidden_of_scrubbedWhole {before value rest : Text} (h : ScrubbedWhole before value rest)
    {p : Text} (hown : IsOwnPart p before value rest) :
    ScrubHides p (before ++ value ++ rest) ∧ ¬ Spelled p (before ++ value ++ rest) := by
  have hin : p <:+: before ++ value ++ rest := hown.part.trans ⟨before, rest, rfl⟩
  constructor
  · by_contra hshown
    exact h p hown (infix_scrub_of_not_hides hin hshown)
  · rintro (hred | ⟨hjwt, hmasks⟩)
    · exact h p hown (infix_scrub_of_redacted hred hin)
    · exact h p hown (hjwt.trans (jwtMask_of_masksJwt hmasks))

/-- A value whose parts are all hidden, and reach no mask that is written, is scrubbed whole. -/
theorem scrubbedWhole_of_hidden {before value rest : Text}
    (h : ∀ p, IsOwnPart p before value rest →
      ScrubHides p (before ++ value ++ rest) ∧ ¬ OverlapsMask p (before ++ value ++ rest)) :
    ScrubbedWhole before value rest := by
  intro p hown hin
  obtain ⟨hhidden, hmask⟩ := h p hown
  simp only [OverlapsMask, not_or, not_and] at hmask
  have hline : p <:+: before ++ value ++ rest := hown.part.trans ⟨before, rest, rfl⟩
  exact (infix_scrub_iff hline hmask.1 fun hmasks hover => hmask.2 hover hmasks).mp hin hhidden

end Gabriel.Cli
