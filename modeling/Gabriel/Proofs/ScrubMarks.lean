import Gabriel.Proofs.Scrub

/-!
# `Gabriel.Proofs.ScrubMarks`: where the passes put their masks

A pass of `scrub` reads a text and covers stretches of it. Here each turn says where:
`userinfoMarks`, `jwtMarks`, `keyedMarks` and `opaqueMarks` write the characters that they copy and
the masks apart from each other, and without that distinction they are the turns of the passes. The
theorems:

* `infix_scrub_iff`: a part of a text that the masks do not overlap is in the result exactly when
  none of the four passes hides it (`ScrubHides`). A pass hides what stands in the text that it
  reads by putting a mask over one of its characters, wherever it stands.
* `infix_scrub_of_not_hides`: what no pass hides is in the result, whatever the masks spell.
* `infix_scrub_of_redacted`, `jwtMask_of_scrub`: what the masks spell is in the result wherever one
  of them is written, since no later pass covers a mask.
-/

set_option autoImplicit false

namespace Gabriel.Cli

open Gabriel.Core Text

/-! ### The turns with their masks -/

/-- `userinfoTurn`, with the mask marked. -/
def userinfoMarks (_ : Option Char) (chars : Text) : List (Char ⊕ Text) × Nat :=
  if "://".toList <+: chars then
    let authority := (chars.drop 3).takeWhile fun c => !endsAuthority c
    if '@' ∈ authority then
      ("://".toList.map Sum.inl ++ Sum.inr redactedMask ::
        ('@' :: authority.rtakeWhile (· ≠ '@')).map Sum.inl, 3 + authority.length)
    else (("://".toList ++ authority).map Sum.inl, 3 + authority.length)
  else ((chars.take 1).map Sum.inl, 1)

/-- `jwtTurn`, with the mask marked. -/
def jwtMarks (before : Option Char) (chars : Text) : List (Char ⊕ Text) × Nat :=
  if "eyJ".toList <+: chars ∧ before.all (fun c => !isTokenChar c) = true then
    let run := chars.takeWhile isValueChar
    if run.count '.' ≥ 2 then ([Sum.inr jwtMask], run.length)
    else ((chars.take 1).map Sum.inl, 1)
  else ((chars.take 1).map Sum.inl, 1)

/-- `wordTurn`, with the mask marked. -/
def wordMarks (chars : Text) : List (Char ⊕ Text) × Nat :=
  let word := chars.takeWhile isWordChar
  let behind := chars.dropWhile isWordChar
  let gap := behind.takeWhile isGapChar
  let next := behind.dropWhile isGapChar
  if (isScheme word || keyIsSecret word) && takesValue word gap next then
    let token := next.takeWhile isValueChar
    let head := word ++ gap ++ token
    if isScheme token then
      let blanks := (next.dropWhile isValueChar).takeWhile fun c => c == ' ' || c == '\t'
      let value := (next.dropWhile isValueChar).dropWhile fun c => c == ' ' || c == '\t'
      if value.head?.any isTokenChar then
        ((head ++ blanks).map Sum.inl ++ [Sum.inr redactedMask],
          head.length + blanks.length + (value.takeWhile isValueChar).length)
      else ((head ++ blanks).map Sum.inl, head.length + blanks.length)
    else ((word ++ gap).map Sum.inl ++ [Sum.inr redactedMask], head.length)
  else (word.map Sum.inl, word.length)

/-- `keyedTurn`, with the mask marked. -/
def keyedMarks (_ : Option Char) (chars : Text) : List (Char ⊕ Text) × Nat :=
  if chars.head?.any Char.isAlpha then wordMarks chars else ((chars.take 1).map Sum.inl, 1)

/-- `opaqueTurn`, with the mask marked. -/
def opaqueMarks (before : Option Char) (chars : Text) : List (Char ⊕ Text) × Nat :=
  if chars.head?.any isOpaqueChar ∧ before.all (fun c => !isOpaqueChar c) = true then
    let run := chars.takeWhile isOpaqueChar
    if isKeyLike run then ([Sum.inr redactedMask], run.length)
    else ((chars.take 1).map Sum.inl, 1)
  else ((chars.take 1).map Sum.inl, 1)

/-- Without the distinction it is the turn of the first pass. -/
theorem userinfoTurn_eq (before : Option Char) (t : Text) :
    userinfoTurn before t = (unmark (userinfoMarks before t).1, (userinfoMarks before t).2) := by
  unfold userinfoTurn userinfoMarks
  dsimp only
  split_ifs
  · rw [unmark_append, unmark_map_inl, unmark_inr, unmark_map_inl, List.append_assoc]
  · rw [unmark_map_inl]
  · rw [unmark_map_inl]

/-- The same for the second pass. -/
theorem jwtTurn_eq (before : Option Char) (t : Text) :
    jwtTurn before t = (unmark (jwtMarks before t).1, (jwtMarks before t).2) := by
  unfold jwtTurn jwtMarks
  dsimp only
  split_ifs
  · rw [unmark_inr, unmark_nil, List.append_nil]
  · rw [unmark_map_inl]
  · rw [unmark_map_inl]

/-- The same for a turn at a word. -/
theorem wordTurn_eq (t : Text) : wordTurn t = (unmark (wordMarks t).1, (wordMarks t).2) := by
  unfold wordTurn wordMarks
  dsimp only
  split_ifs
  · rw [unmark_append, unmark_map_inl, unmark_inr, unmark_nil, List.append_nil]
  · rw [unmark_map_inl]
  · rw [unmark_append, unmark_map_inl, unmark_inr, unmark_nil, List.append_nil]
  · rw [unmark_map_inl]

/-- The same for the third pass. -/
theorem keyedTurn_eq (before : Option Char) (t : Text) :
    keyedTurn before t = (unmark (keyedMarks before t).1, (keyedMarks before t).2) := by
  unfold keyedTurn keyedMarks
  split_ifs
  · exact wordTurn_eq t
  · rw [unmark_map_inl]

/-- The same for the fourth pass. -/
theorem opaqueTurn_eq (before : Option Char) (t : Text) :
    opaqueTurn before t = (unmark (opaqueMarks before t).1, (opaqueMarks before t).2) := by
  unfold opaqueTurn opaqueMarks
  dsimp only
  split_ifs
  · rw [unmark_inr, unmark_nil, List.append_nil]
  · rw [unmark_map_inl]
  · rw [unmark_map_inl]

/-! ### What a pass hides -/

/-- A pass leaves `p` alone somewhere: the characters of `p` stand side by side in what it writes,
and none of them is part of a mask. -/
def LeavesAlone (marks : Option Char → Text → List (Char ⊕ Text) × Nat) (p t : Text) : Prop :=
  p.map Sum.inl <:+: scan marks none t

/-- A pass hides `p`, which stands in the text that it reads: it puts a mask over one of the
characters of `p` wherever it stands. -/
def Hides (marks : Option Char → Text → List (Char ⊕ Text) × Nat) (p t : Text) : Prop :=
  p <:+: t ∧ ¬ LeavesAlone marks p t

/-- One of the four passes hides `p` when it reads what the passes before it leave: the user part of
a URL, a JWT, a value behind a label or a long run has a character of `p` in it. -/
def ScrubHides (p t : Text) : Prop :=
  Hides userinfoMarks p t ∨ Hides jwtMarks p (redactUserinfo t) ∨
    Hides keyedMarks p (redactJwts (redactUserinfo t)) ∨
    Hides opaqueMarks p (redactKeyed (redactJwts (redactUserinfo t)))

/-- The second pass finds a JWT in what the first one leaves. -/
def MasksJwt (t : Text) : Prop := Sum.inr jwtMask ∈ scan jwtMarks none (redactUserinfo t)

instance (marks : Option Char → Text → List (Char ⊕ Text) × Nat) (p t : Text) :
    Decidable (LeavesAlone marks p t) :=
  inferInstanceAs (Decidable (_ <:+: _))

instance (marks : Option Char → Text → List (Char ⊕ Text) × Nat) (p t : Text) :
    Decidable (Hides marks p t) :=
  inferInstanceAs (Decidable (_ ∧ _))

instance (t : Text) : Decidable (MasksJwt t) :=
  decidable_of_iff (∃ x ∈ scan jwtMarks none (redactUserinfo t), x = Sum.inr jwtMask)
    exists_eq_right

/-- What the four passes write. -/
theorem passes_eq_unmark (t : Text) :
    redactUserinfo t = unmark (scan userinfoMarks none t) ∧
      redactJwts t = unmark (scan jwtMarks none t) ∧
      redactKeyed t = unmark (scan keyedMarks none t) ∧
      redactOpaqueRuns t = unmark (scan opaqueMarks none t) := by
  rw [redactKeyed_eq_scan]
  exact ⟨scan_unmark userinfoTurn_read userinfoTurn_eq none t,
    scan_unmark jwtTurn_read jwtTurn_eq none t, scan_unmark keyedTurn_read keyedTurn_eq none t,
    scan_unmark opaqueTurn_read opaqueTurn_eq none t⟩

/-- The masks of each pass. -/
theorem mask_of_mem_marks {t mask : Text} :
    (Sum.inr mask ∈ scan userinfoMarks none t → mask = redactedMask) ∧
      (Sum.inr mask ∈ scan jwtMarks none t → mask = jwtMask) ∧
      (Sum.inr mask ∈ scan keyedMarks none t → mask = redactedMask) ∧
      (Sum.inr mask ∈ scan opaqueMarks none t → mask = redactedMask) := by
  -- A mask that is written is the mask of some turn.
  have key : ∀ {turn : Option Char → Text → Text × Nat}
      {marks : Option Char → Text → List (Char ⊕ Text) × Nat} (m : Text),
      (∀ before t, t ≠ [] → 1 ≤ (turn before t).2) →
      (∀ before t, turn before t = (unmark (marks before t).1, (marks before t).2)) →
      (∀ before t, ∀ x, Sum.inr x ∈ (marks before t).1 → x = m) →
      Sum.inr mask ∈ scan marks none t → mask = m := by
    intro turn marks m hread hturn hone hmem
    have hread' : ∀ before t, t ≠ [] → 1 ≤ (marks before t).2 := fun before t ht => by
      have h := hread before t ht
      rwa [hturn] at h
    obtain ⟨before, u, hu⟩ := mem_scan hread' hmem
    exact hone before u mask hu
  have hno : ∀ (p q : Text) {m : Text}, Sum.inr p ∈ q.map (Sum.inl : Char → Char ⊕ Text) → p = m :=
    fun p q _ h => absurd h (inr_not_mem_map_inl p q)
  refine ⟨key _ userinfoTurn_read userinfoTurn_eq fun before u x hx => ?_,
    key _ jwtTurn_read jwtTurn_eq fun before u x hx => ?_,
    key _ keyedTurn_read keyedTurn_eq fun before u x hx => ?_,
    key _ opaqueTurn_read opaqueTurn_eq fun before u x hx => ?_⟩
  · unfold userinfoMarks at hx
    dsimp only at hx
    split_ifs at hx
    · rcases List.mem_append.mp hx with hx | hx
      · exact hno _ _ hx
      · exact (List.mem_cons.mp hx).elim Sum.inr.inj (hno _ _)
    · exact hno _ _ hx
    · exact hno _ _ hx
  · unfold jwtMarks at hx
    dsimp only at hx
    split_ifs at hx
    · exact Sum.inr.inj (List.mem_singleton.mp hx)
    · exact hno _ _ hx
    · exact hno _ _ hx
  · unfold keyedMarks wordMarks at hx
    dsimp only at hx
    split_ifs at hx
    · exact (List.mem_append.mp hx).elim (hno _ _) fun hx => Sum.inr.inj (List.mem_singleton.mp hx)
    · exact hno _ _ hx
    · exact (List.mem_append.mp hx).elim (hno _ _) fun hx => Sum.inr.inj (List.mem_singleton.mp hx)
    · exact hno _ _ hx
    · exact hno _ _ hx
  · unfold opaqueMarks at hx
    dsimp only at hx
    split_ifs at hx
    · exact Sum.inr.inj (List.mem_singleton.mp hx)
    · exact hno _ _ hx
    · exact hno _ _ hx

/-- A pass copies, or its mask is in what it writes. -/
theorem scan_eq_or_masked {turn : Option Char → Text → Text × Nat} {mask : Text}
    (hread : ∀ before t, t ≠ [] → 1 ≤ (turn before t).2)
    (hshape : ∀ before t, CopiesOrCovers mask t (turn before t)) (before : Option Char) (t : Text) :
    scan turn before t = t ∨ mask <:+: scan turn before t := by
  induction before, t using scan_induction hread with
  | nil before => exact Or.inl (scan_nil turn before)
  | turned before t ht ih =>
    rw [scan_turn ht rfl (hread before t ht)]
    rcases hshape before t with hcopy | ⟨kept, stretch, tail, -, hwritten⟩
    · refine ih.imp (fun hrest => ?_) fun hin => hin.trans (List.suffix_append _ _).isInfix
      rw [hcopy, hrest, List.take_append_drop]
    · rw [hwritten, List.append_assoc, List.append_assoc]
      exact Or.inr ((List.prefix_append mask _).isInfix.trans (List.suffix_append kept _).isInfix)

/-- A turn at no JWT copies, and one at a JWT writes its mask. -/
theorem jwtMarks_copy_or_mask (before : Option Char) (t : Text) :
    (jwtMarks before t).1 = (t.take (jwtMarks before t).2).map Sum.inl ∨
      Sum.inr jwtMask ∈ (jwtMarks before t).1 := by
  unfold jwtMarks
  dsimp only
  split_ifs
  · exact Or.inr (List.mem_singleton_self _)
  · exact Or.inl rfl
  · exact Or.inl rfl

/-- The second pass copies where it finds no JWT. -/
theorem redactJwts_of_not_masks {t : Text} (h : ¬ MasksJwt t) :
    redactJwts (redactUserinfo t) = redactUserinfo t := by
  have key : ∀ (before : Option Char) (u : Text), Sum.inr jwtMask ∉ scan jwtMarks before u →
      scan jwtTurn before u = u := by
    intro before u
    induction before, u using scan_induction jwtTurn_read with
    | nil before => exact fun _ => scan_nil jwtTurn before
    | turned before u hu ih =>
      intro hno
      have hread := jwtTurn_read before u hu
      rw [jwtTurn_eq] at hread ih
      rw [scan_turn hu rfl hread, List.mem_append, not_or] at hno
      have hcopy : unmark (jwtMarks before u).1 = u.take (jwtMarks before u).2 := by
        refine (jwtMarks_copy_or_mask before u).elim (fun hcopy => ?_) fun hmask => ?_
        · rw [hcopy, unmark_map_inl]
        · exact absurd hmask hno.1
      rw [scan_turn hu (jwtTurn_eq before u) hread, ih hno.2, hcopy, List.take_append_drop]
  exact key none _ h

/-- What stands in a text and no pass hides is in the result. -/
theorem infix_scrub_of_not_hides {p t : Text} (hin : p <:+: t) (h : ¬ ScrubHides p t) :
    p <:+: scrub t := by
  have hunmark : ∀ {marked : List (Char ⊕ Text)}, p.map Sum.inl <:+: marked →
      p <:+: unmark marked := by
    rintro marked ⟨a, b, rfl⟩
    exact ⟨unmark a, unmark b, by simp⟩
  simp only [ScrubHides, Hides, not_or, not_and, not_not] at h
  obtain ⟨huserinfo, hjwts, hkeyed, hlong⟩ := h
  have h1 : p <:+: redactUserinfo t := by
    rw [(passes_eq_unmark t).1]
    exact hunmark (huserinfo hin)
  have h2 : p <:+: redactJwts (redactUserinfo t) := by
    have hleft := hunmark (hjwts h1)
    rwa [← (passes_eq_unmark _).2.1] at hleft
  have h3 : p <:+: redactKeyed (redactJwts (redactUserinfo t)) := by
    have hleft := hunmark (hkeyed h2)
    rwa [← (passes_eq_unmark _).2.2.1] at hleft
  have h4 := hunmark (hlong h3)
  rwa [← (passes_eq_unmark _).2.2.2] at h4

/-- A part that the masks do not overlap is in the result exactly when no pass hides it. -/
theorem infix_scrub_iff {p t : Text} (hin : p <:+: t) (hred : ¬ Overlap p redactedMask)
    (hjwt : MasksJwt t → ¬ Overlap p jwtMask) : p <:+: scrub t ↔ ¬ ScrubHides p t := by
  refine ⟨fun h => ?_, infix_scrub_of_not_hides hin⟩
  have hne := ne_nil_of_not_overlap hred
  have h4 : LeavesAlone opaqueMarks p (redactKeyed (redactJwts (redactUserinfo t))) := by
    rw [scrub, (passes_eq_unmark _).2.2.2] at h
    refine (infix_unmark_iff hne fun mask hmask => ?_).mp h
    rwa [mask_of_mem_marks.2.2.2 hmask]
  have hone : ∀ mask ∈ [redactedMask], ¬ Overlap p mask := fun mask hmask => by
    rwa [List.mem_singleton.mp hmask]
  have hin3 : p <:+: redactKeyed (redactJwts (redactUserinfo t)) :=
    (covered_scan opaqueTurn_read (fun b u _ =>
      (opaqueTurn_shape b u).covered (List.mem_singleton_self _)) none _).uncovered hone hne h
  have h3 : LeavesAlone keyedMarks p (redactJwts (redactUserinfo t)) := by
    have hin := hin3
    rw [(passes_eq_unmark _).2.2.1] at hin
    refine (infix_unmark_iff hne fun mask hmask => ?_).mp hin
    rwa [mask_of_mem_marks.2.2.1 hmask]
  have hin2 : p <:+: redactJwts (redactUserinfo t) := by
    rw [redactKeyed_eq_scan] at hin3
    exact (covered_scan keyedTurn_read (fun b u _ =>
      (keyedTurn_shape b u).covered (List.mem_singleton_self _)) none _).uncovered hone hne hin3
  have h2 : LeavesAlone jwtMarks p (redactUserinfo t) := by
    have hin := hin2
    rw [(passes_eq_unmark _).2.1] at hin
    refine (infix_unmark_iff hne fun mask hmask => ?_).mp hin
    have heq := mask_of_mem_marks.2.1 hmask
    rw [heq] at hmask ⊢
    exact hjwt hmask
  have hin1 : p <:+: redactUserinfo t := by
    by_cases hmasks : MasksJwt t
    · exact (covered_scan jwtTurn_read (fun b u _ =>
        (jwtTurn_shape b u).covered (List.mem_singleton_self _)) none _).uncovered
        (fun mask hmask => by rw [List.mem_singleton.mp hmask]; exact hjwt hmasks) hne hin2
    · rwa [redactJwts_of_not_masks hmasks] at hin2
  have h1 : LeavesAlone userinfoMarks p t := by
    have hin := hin1
    rw [(passes_eq_unmark _).1] at hin
    refine (infix_unmark_iff hne fun mask hmask => ?_).mp hin
    rwa [mask_of_mem_marks.1 hmask]
  simp only [ScrubHides, Hides, not_or, not_and, not_not]
  exact ⟨fun _ => h1, fun _ => h2, fun _ => h3, fun _ => h4⟩

/-! ### What the masks spell -/

/-- What is in no word, gap or value is in no run. -/
theorem Barrier.opaque_char {c : Char} (h : Barrier c) : isOpaqueChar c = false := by
  have htoken := h.token
  simp only [isTokenChar, Bool.or_eq_false_iff, decide_eq_false_iff_not, List.mem_cons,
    List.not_mem_nil, or_false, not_or] at htoken
  simp [isOpaqueChar, htoken]

/-- A turn at a long run does not look behind a barrier. -/
theorem opaqueTurn_append {c : Char} (h : Barrier c) (before : Option Char) (s : Text)
    (hs : s ≠ []) (t : Text) : opaqueTurn before (s ++ c :: t) = opaqueTurn before s ∧
      (opaqueTurn before s).2 ≤ s.length := by
  obtain ⟨d, s, rfl⟩ := List.exists_cons_of_ne_nil hs
  unfold opaqueTurn
  dsimp only
  rw [(takeWhile_append_barrier h.opaque_char (d :: s) t).1]
  constructor
  · rfl
  · have hle := (List.takeWhile_prefix (p := isOpaqueChar) (l := d :: s)).length_le
    split_ifs
    · exact hle
    · simp
    · simp

/-- The pass at long runs copies a barrier. -/
theorem opaqueTurn_barrier {c : Char} (h : Barrier c) (before : Option Char) (t : Text) :
    opaqueTurn before (c :: t) = ([c], 1) := by
  unfold opaqueTurn
  rw [if_neg (by simp [h.opaque_char])]
  rfl

/-- It looks at one side of a barrier at a time. -/
theorem scan_opaque_barrier {c : Char} (h : Barrier c) (before : Option Char) (s t : Text) :
    scan opaqueTurn before (s ++ c :: t)
      = scan opaqueTurn before s ++ c :: scan opaqueTurn (some c) t := by
  rw [scan_append opaqueTurn_read (fun b u hu => opaqueTurn_append h b u hu t),
    scan_copy (opaqueTurn_barrier h _ t)]

/-- The mask of a JWT stays: its brackets are barriers, and what is between them is no label and no
long run. -/
theorem jwtMask_of_scrub {t : Text} (h : jwtMask <:+: redactJwts (redactUserinfo t)) :
    jwtMask <:+: scrub t := by
  obtain ⟨a, b, hab⟩ := h
  have hbrackets : ∀ x y : Text, x ++ jwtMask ++ y
      = x ++ '[' :: ("redacted-jwt".toList ++ ']' :: y) := fun x y => by
    have hmask : jwtMask = '[' :: ("redacted-jwt".toList ++ [']']) := rfl
    rw [hmask]
    simp only [List.append_assoc, List.cons_append, List.nil_append]
  rw [hbrackets] at hab
  have hword : scan keyedTurn none "redacted-jwt".toList = "redacted-jwt".toList := by
    decide +kernel
  have hrun : scan opaqueTurn (some '[') "redacted-jwt".toList = "redacted-jwt".toList := by
    decide +kernel
  rw [scrub, ← hab, redactKeyed_eq_scan, scan_keyed_barrier barrier_bracket,
    scan_keyed_barrier barrier_closing, hword, redactOpaqueRuns,
    scan_opaque_barrier barrier_bracket, scan_opaque_barrier barrier_closing, hrun]
  exact ⟨scan opaqueTurn none (scan keyedTurn none a),
    scan opaqueTurn (some ']') (scan keyedTurn none b), hbrackets _ _⟩

/-- Where a JWT is masked, its mask is in the result. -/
theorem jwtMask_of_masksJwt {t : Text} (h : MasksJwt t) : jwtMask <:+: scrub t := by
  refine jwtMask_of_scrub ?_
  obtain ⟨a, b, hab⟩ := List.append_of_mem h
  rw [(passes_eq_unmark _).2.1, hab]
  exact ⟨unmark a, unmark b, by simp⟩

/-- A text that the masks do not overlap is in the result exactly when it was there before and no
pass hides it. -/
theorem infix_scrub_iff_of_not_overlap {p t : Text} (hred : ¬ Overlap p redactedMask)
    (hjwt : ¬ Overlap p jwtMask) : p <:+: scrub t ↔ p <:+: t ∧ ¬ ScrubHides p t := by
  have hmasks : ∀ mask ∈ scrubMasks, ¬ Overlap p mask := by
    intro mask hmask
    rcases List.mem_cons.mp hmask with rfl | hmask
    · exact hred
    · rw [List.mem_singleton.mp hmask]
      exact hjwt
  constructor
  · intro h
    have hin : p <:+: t := of_scrub (motive := fun u => p <:+: u)
      (fun _ _ hcovered => hcovered.uncovered hmasks (ne_nil_of_not_overlap hred)) h
    exact ⟨hin, (infix_scrub_iff hin hred fun _ => hjwt).mp h⟩
  · rintro ⟨hin, hhidden⟩
    exact infix_scrub_of_not_hides hin hhidden

/-- A part of what both masks have in common is in the result if it was in the text: each pass
leaves the text as it is, or writes a mask that has the part in it. -/
theorem infix_scrub_of_redacted {p t : Text} (hp : p <:+: "redacted".toList) (h : p <:+: t) :
    p <:+: scrub t := by
  have hred : p <:+: redactedMask := hp.trans (by decide)
  have hjwt : p <:+: jwtMask := hp.trans (by decide)
  have hpass : ∀ {turn : Option Char → Text → Text × Nat} {mask u : Text}, p <:+: mask →
      (∀ before t, t ≠ [] → 1 ≤ (turn before t).2) →
      (∀ before t, CopiesOrCovers mask t (turn before t)) → p <:+: u → p <:+: scan turn none u := by
    intro turn mask u hmask hread hshape hu
    rcases scan_eq_or_masked hread hshape none u with hcopy | hin
    · rwa [hcopy]
    · exact hmask.trans hin
  have h1 := hpass hred userinfoTurn_read userinfoTurn_shape h
  have h2 := hpass hjwt jwtTurn_read jwtTurn_shape h1
  have h3 := hpass hred keyedTurn_read keyedTurn_shape h2
  rw [scrub, redactKeyed_eq_scan]
  exact hpass hred opaqueTurn_read opaqueTurn_shape h3

end Gabriel.Cli
