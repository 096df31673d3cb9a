import Gabriel.Proofs.Scrub

/-!
# `Gabriel.Proofs.ScrubValue`: what the passes do with a value

A text `s ++ v ++ w` has a value `v` in it, made of value characters and followed by none. Each pass
does one of a few things with it, whatever comes before and behind. The first one keeps such a value
or hides all of it, but for slashes behind a colon. The second one keeps it, hides all of it, or
keeps what ends with a dot. The third one hides all that is left, when it comes to a label in front
of it.

"Hidden" is `HiddenBehind`: what is written begins with what was kept of `s`, goes on with something
that a mask hides, and ends with a text that belongs to `w`. It composes, so the outcomes of the
passes can be put one behind the other. The theorems:

* `HiddenBehind.absent`: what is on neither side of the hidden text is gone.
* `covered_userinfo`, `covered_jwts`, `head_covered`: what the first two passes leave in front.
* `redactUserinfo_value`: what the first pass does with a value (`UserOutcome`).
* `redactJwts_value`: what the second one does (`JwtOutcome`).
-/

set_option autoImplicit false

namespace Gabriel.Cli

open Gabriel.Core Text

/-! ### Hiding -/

/-- The text `out` is left of one that begins with `s`, goes on with something that a mask hides,
and ends with `w`. The mask can hide more. -/
def HiddenBehind (s w out : Text) : Prop :=
  ∃ q kept mask w' tail, q <+: s ∧ w' <:+ w ∧ mask ∈ scrubMasks ∧ Covered scrubMasks q kept ∧
    Covered scrubMasks w' tail ∧ out = kept ++ mask ++ tail

/-- What is on neither side of the hidden text is gone. -/
theorem HiddenBehind.absent {s w out p : Text} (h : HiddenBehind s w out) (hne : p ≠ [])
    (hp : ∀ mask ∈ scrubMasks, ¬ Overlap p mask) (hs : ¬ p <:+: s) (hw : ¬ p <:+: w) :
    ¬ p <:+: out := by
  obtain ⟨q, kept, mask, w', tail, hq, hw', hmask, hkept, htail, rfl⟩ := h
  rw [infix_fixed_iff (hp mask hmask), not_or]
  exact ⟨fun hin => hs ((hkept.uncovered hp hne hin).trans hq.isInfix),
    fun hin => hw ((htail.uncovered hp hne hin).trans hw'.isInfix)⟩

/-- More was covered in front. -/
theorem HiddenBehind.prepend {s w out first covered : Text} (h : HiddenBehind s w out)
    (hfirst : Covered scrubMasks first covered) :
    HiddenBehind (first ++ s) w (covered ++ out) := by
  obtain ⟨q, kept, mask, w', tail, hq, hw', hmask, hkept, htail, rfl⟩ := h
  refine ⟨first ++ q, covered ++ kept, mask, w', tail, ?_, hw', hmask, hfirst.append hkept, htail,
    by simp⟩
  exact (List.prefix_append_right_inj first).mpr hq

/-- A run that ends where the next character is another one. -/
theorem takeWhile_run {p : Char → Bool} {run rest : Text} (h : ∀ c ∈ run, p c = true)
    (hrest : rest.head?.all (fun c => !p c) = true) :
    (run ++ rest).takeWhile p = run ∧ (run ++ rest).dropWhile p = rest := by
  rw [List.takeWhile_append_of_pos h, List.dropWhile_append_of_pos h]
  cases rest with
  | nil => simp
  | cons c rest =>
    have hc : ¬ p c = true := by simpa using hrest
    rw [List.takeWhile_cons_of_neg hc, List.dropWhile_cons_of_neg hc, List.append_nil]
    exact ⟨rfl, rfl⟩

/-- A run that does not reach the end of a text. -/
theorem takeWhile_inside {p : Char → Bool} {s : Text} (h : ¬ ∀ c ∈ s, p c = true) (t : Text) :
    (s ++ t).takeWhile p = s.takeWhile p ∧ (s ++ t).dropWhile p = s.dropWhile p ++ t := by
  have hsplit := List.takeWhile_append_dropWhile (p := p) (l := s)
  obtain ⟨c, rest, hrest⟩ : ∃ c rest, s.dropWhile p = c :: rest := by
    cases hdrop : s.dropWhile p with
    | nil => exact absurd (List.dropWhile_eq_nil_iff.mp hdrop) h
    | cons c rest => exact ⟨c, rest, rfl⟩
  have hc : p c = false := by
    have hhead := List.head?_dropWhile_not p s
    rw [hrest] at hhead
    simpa using hhead
  have hrun : ∀ d ∈ s.takeWhile p, p d = true := fun d hd => List.mem_takeWhile_imp hd
  have hstop : (s.dropWhile p ++ t).head?.all (fun c => !p c) = true := by
    rw [hrest]
    simp [hc]
  have hwhole := takeWhile_run hrun hstop
  rwa [← List.append_assoc, hsplit] at hwhole

/-- Nothing that is covered begins with a value character, unless it did before. -/
theorem head_covered {w w' : Text} (h : Covered scrubMasks w w')
    (hw : w.head?.all (fun c => !isValueChar c) = true) :
    w'.head?.all (fun c => !isValueChar c) = true := by
  cases h with
  | nil => rfl
  | keep c h => exact hw
  | @cover stretch mask t out hmask h =>
    have hall : ∀ mask ∈ scrubMasks, ∃ rest, mask = '[' :: rest := by
      intro mask hmask
      rcases List.mem_cons.mp hmask with rfl | hmask
      · exact ⟨_, rfl⟩
      · exact ⟨_, List.mem_singleton.mp hmask⟩
    obtain ⟨rest, rfl⟩ := hall mask hmask
    rfl

/-! ### JWTs -/

/-- What the second pass leaves is covered. -/
theorem covered_jwts (before : Option Char) (t : Text) :
    Covered scrubMasks t (scan jwtTurn before t) :=
  covered_scan jwtTurn_read (fun b u _ => (jwtTurn_shape b u).covered jwtMask_mem) before t

/-- A turn at no JWT. -/
theorem jwtTurn_copy {before : Option Char} {c : Char} {t : Text}
    (h : ¬ (("eyJ".toList <+: c :: t ∧ before.all (fun c => !isTokenChar c) = true) ∧
      2 ≤ ((c :: t).takeWhile isValueChar).count '.')) : jwtTurn before (c :: t) = ([c], 1) := by
  unfold jwtTurn
  dsimp only
  split_ifs with hstart hdots
  · exact absurd ⟨hstart, hdots⟩ h
  · rfl
  · rfl

/-- A turn at a JWT. -/
theorem jwtTurn_mask {before : Option Char} {t : Text}
    (h : ("eyJ".toList <+: t ∧ before.all (fun c => !isTokenChar c) = true) ∧
      2 ≤ (t.takeWhile isValueChar).count '.') :
    jwtTurn before t = (jwtMask, (t.takeWhile isValueChar).length) := by
  unfold jwtTurn
  dsimp only
  rw [if_pos h.1, if_pos h.2]

/-- The value is kept behind what is kept of `s`, a JWT begins behind a dot in it, or it is
hidden. -/
def JwtOutcome (s v w kept out : Text) : Prop :=
  (∃ w', Covered scrubMasks w w' ∧ out = kept ++ (v ++ w')) ∨
  (∃ v₁ v₂ w', v = v₁ ++ '.' :: v₂ ∧ Covered scrubMasks w w' ∧
    out = kept ++ (v₁ ++ ['.'] ++ (jwtMask ++ w'))) ∨
  HiddenBehind s w out

/-- More was covered in front. -/
theorem JwtOutcome.prepend {s v w kept out first covered : Text} (h : JwtOutcome s v w kept out)
    (hfirst : Covered scrubMasks first covered) :
    JwtOutcome (first ++ s) v w (covered ++ kept) (covered ++ out) := by
  rcases h with ⟨w', hw', rfl⟩ | ⟨v₁, v₂, w', hv, hw', rfl⟩ | h
  · exact Or.inl ⟨w', hw', by rw [List.append_assoc]⟩
  · exact Or.inr (Or.inl ⟨v₁, v₂, w', hv, hw', by rw [List.append_assoc covered]⟩)
  · exact Or.inr (Or.inr (h.prepend hfirst))

section Value

variable {v w : Text}

/-- A value from its start on. What is one JWT begins behind no token character. -/
theorem scan_jwts_value (hv : ∀ c ∈ v, isValueChar c = true) (hne : v ≠ [])
    (hw : w.head?.all (fun c => !isValueChar c) = true) (before : Option Char) :
    (∃ w', Covered scrubMasks w w' ∧ scan jwtTurn before (v ++ w) = v ++ w') ∨
    (∃ v₁ v₂ w', v = v₁ ++ '.' :: v₂ ∧ Covered scrubMasks w w' ∧
      scan jwtTurn before (v ++ w) = v₁ ++ ['.'] ++ (jwtMask ++ w')) ∨
    ∃ w', before.all (fun c => !isTokenChar c) = true ∧ Covered scrubMasks w w' ∧
      scan jwtTurn before (v ++ w) = jwtMask ++ w' := by
  -- Induction on the value: each character is copied, or a JWT starts there and is masked whole.
  induction v generalizing before with
  | nil => exact absurd rfl hne
  | cons c v ih =>
    rw [List.cons_append]
    have hrun : (c :: (v ++ w)).takeWhile isValueChar = c :: v := (takeWhile_run hv hw).1
    -- The three conditions under which the pass masks, as the source tests them.
    by_cases hjwt : ("eyJ".toList <+: c :: (v ++ w) ∧
        before.all (fun c => !isTokenChar c) = true) ∧
        2 ≤ ((c :: (v ++ w)).takeWhile isValueChar).count '.'
    · have hturn := jwtTurn_mask hjwt
      rw [hrun] at hturn
      have hscan := scan_turn (List.cons_ne_nil c (v ++ w)) hturn (by simp)
      have hdrop : (c :: (v ++ w)).drop (c :: v).length = w := List.drop_left
      rw [hdrop] at hscan
      exact Or.inr (Or.inr ⟨_, hjwt.1.2, covered_jwts _ w, hscan⟩)
    · rw [scan_copy (jwtTurn_copy hjwt)]
      -- The last character of the value is copied, and the scan goes on behind the value.
      by_cases hnil : v = []
      · exact Or.inl ⟨_, covered_jwts (some c) w, by rw [hnil]; rfl⟩
      · rcases ih (fun d hd => hv d (List.mem_cons_of_mem c hd)) hnil (some c) with
          ⟨w', hw', hscan⟩ | ⟨v₁, v₂, w', rfl, hw', hscan⟩ | ⟨w', hbefore, hw', hscan⟩
        · exact Or.inl ⟨w', hw', by rw [hscan]; rfl⟩
        · exact Or.inr (Or.inl ⟨c :: v₁, v₂, w', rfl, hw', by rw [hscan]; rfl⟩)
        · -- The JWT begins behind a value character that is no token character.
          have hc : isTokenChar c = false := by simpa using hbefore
          have hdot : c = '.' := by
            have hvalue := hv c List.mem_cons_self
            simpa [isValueChar, hc] using hvalue
          exact Or.inr (Or.inl ⟨[], v, w', by rw [hdot]; rfl, hw', by rw [hscan, hdot]; rfl⟩)

/-- A text with no JWT at its start has none when it goes on. -/
theorem jwt_append {before : Option Char} {s t : Text}
    (h : ("eyJ".toList <+: s ∧ before.all (fun c => !isTokenChar c) = true) ∧
      2 ≤ (s.takeWhile isValueChar).count '.') :
    ("eyJ".toList <+: s ++ t ∧ before.all (fun c => !isTokenChar c) = true) ∧
      2 ≤ ((s ++ t).takeWhile isValueChar).count '.' := by
  refine ⟨⟨h.1.1.trans (List.prefix_append s t), h.1.2⟩, h.2.trans ?_⟩
  by_cases hall : ∀ c ∈ s, isValueChar c = true
  · rw [List.takeWhile_append_of_pos hall, List.takeWhile_eq_self_iff.mpr hall, List.count_append]
    exact Nat.le_add_right _ _
  · rw [(takeWhile_inside hall t).1]

/-- What the pass does with a value, behind anything. -/
theorem redactJwts_value (hv : ∀ c ∈ v, isValueChar c = true) (hne : v ≠ [])
    (hw : w.head?.all (fun c => !isValueChar c) = true) (s : Text) :
    JwtOutcome s v w (redactJwts s) (redactJwts (s ++ (v ++ w))) := by
  have key : ∀ (s : Text) (before : Option Char),
      JwtOutcome s v w (scan jwtTurn before s) (scan jwtTurn before (s ++ (v ++ w))) := by
    intro s
    induction hn : s.length using Nat.strong_induction_on generalizing s with
    | _ n ih =>
      intro before
      cases s with
      | nil =>
        rw [scan_nil, List.nil_append]
        rcases scan_jwts_value hv hne hw before with ⟨w', hw', hscan⟩ |
          ⟨v₁, v₂, w', heq, hw', hscan⟩ | ⟨w', -, hw', hscan⟩
        · exact Or.inl ⟨w', hw', hscan⟩
        · exact Or.inr (Or.inl ⟨v₁, v₂, w', heq, hw', hscan⟩)
        · exact Or.inr (Or.inr ⟨[], [], jwtMask, w, w', List.nil_prefix, List.suffix_refl w,
            jwtMask_mem, .nil, hw', hscan⟩)
      | cons c s =>
        -- A turn that reads nothing of the value is the same without it.
        have hstep : ∀ written read, jwtTurn before (c :: s ++ (v ++ w)) = (written, read) →
            jwtTurn before (c :: s) = (written, read) → 1 ≤ read → read ≤ (c :: s).length →
            JwtOutcome (c :: s) v w (scan jwtTurn before (c :: s))
              (scan jwtTurn before (c :: s ++ (v ++ w))) := by
          intro written read hfull hcut hone hread
          have hne' : c :: s ++ (v ++ w) ≠ [] := List.cons_ne_nil _ _
          have hcovered := (jwtTurn_shape before (c :: s)).covered jwtMask_mem
          rw [hcut] at hcovered
          rw [scan_turn hne' hfull hone, scan_turn (List.cons_ne_nil c s) hcut hone,
            List.take_append_of_le_length hread, List.drop_append_of_le_length hread]
          have hrest := ih _ (by rw [← hn, List.length_drop]; simp at hread ⊢; omega)
            ((c :: s).drop read) rfl ((c :: s).take read).getLast?
          have hwhole := hrest.prepend hcovered
          rwa [List.take_append_drop] at hwhole
        by_cases hjwt : ("eyJ".toList <+: c :: s ++ (v ++ w) ∧
            before.all (fun c => !isTokenChar c) = true) ∧
            2 ≤ ((c :: s ++ (v ++ w)).takeWhile isValueChar).count '.'
        · have hturn := jwtTurn_mask hjwt
          by_cases hall : ∀ d ∈ c :: s, isValueChar d = true
          · -- The JWT goes on through the value.
            have hrun : (c :: s ++ (v ++ w)).takeWhile isValueChar = c :: s ++ v := by
              rw [List.takeWhile_append_of_pos hall, (takeWhile_run hv hw).1]
            rw [hrun] at hturn
            have hne' : c :: s ++ (v ++ w) ≠ [] := List.cons_ne_nil _ _
            have hscan := scan_turn hne' hturn (by simp)
            have hdrop : (c :: s ++ (v ++ w)).drop (c :: s ++ v).length = w := by
              rw [← List.append_assoc]
              exact List.drop_left
            rw [hdrop] at hscan
            exact Or.inr (Or.inr ⟨[], [], jwtMask, w, _, List.nil_prefix, List.suffix_refl w,
              jwtMask_mem, .nil, covered_jwts _ w, hscan⟩)
          · have hrun := (takeWhile_inside hall (v ++ w)).1
            rw [hrun] at hturn
            have hcut : ("eyJ".toList <+: c :: s ∧
                before.all (fun c => !isTokenChar c) = true) ∧
                2 ≤ ((c :: s).takeWhile isValueChar).count '.' := by
              refine ⟨⟨?_, hjwt.1.2⟩, hrun ▸ hjwt.2⟩
              obtain ⟨rest, hrest⟩ := hjwt.1.1
              have htake : "eyJ".toList <+: (c :: s).takeWhile isValueChar := by
                rw [← hrun, ← hrest, List.takeWhile_append_of_pos (forall_mem_of_all (by decide))]
                exact List.prefix_append _ _
              exact htake.trans (List.takeWhile_prefix _)
            have hone : 1 ≤ ((c :: s).takeWhile isValueChar).length := by
              have hcount := List.count_le_length (a := '.') (l := (c :: s).takeWhile isValueChar)
              have hdots := hcut.2
              omega
            exact hstep _ _ hturn (jwtTurn_mask hcut) hone
              (List.takeWhile_prefix _).length_le
        · exact hstep [c] 1 (jwtTurn_copy hjwt) (jwtTurn_copy fun h => hjwt (jwt_append h))
            (Nat.le_refl 1) (by simp)
  exact key s none

end Value

/-! ### The user part of a URL -/

/-- What the first pass leaves is covered. -/
theorem covered_userinfo (before : Option Char) (t : Text) :
    Covered scrubMasks t (scan userinfoTurn before t) :=
  covered_scan userinfoTurn_read (fun b u _ =>
      (userinfoTurn_shape b u).covered redactedMask_mem) before t

/-- The turns do not look at the character before. -/
theorem scan_userinfo_before (before : Option Char) (t : Text) :
    scan userinfoTurn before t = redactUserinfo t :=
  scan_before userinfoTurn_read (fun _ _ _ => rfl) before none t

/-- What is written for an authority. -/
def authorityText (authority : Text) : Text :=
  if '@' ∈ authority then
    "://".toList ++ redactedMask ++ '@' :: authority.rtakeWhile (· ≠ '@')
  else "://".toList ++ authority

/-- The turn at a URL. -/
theorem redactUserinfo_url (rest : Text) :
    redactUserinfo ("://".toList ++ rest)
      = authorityText (rest.takeWhile fun c => !endsAuthority c)
        ++ redactUserinfo (rest.dropWhile fun c => !endsAuthority c) := by
  -- The turn takes the slashes and the authority behind them.
  have hturn : userinfoTurn none ("://".toList ++ rest)
      = (authorityText (rest.takeWhile fun c => !endsAuthority c),
        3 + (rest.takeWhile fun c => !endsAuthority c).length) := by
    have hdrop : ("://".toList ++ rest).drop "://".toList.length = rest := List.drop_left
    change ("://".toList ++ rest).drop 3 = rest at hdrop
    unfold userinfoTurn authorityText
    rw [if_pos (List.prefix_append _ _), hdrop]
    dsimp only
    split_ifs
    · rfl
    · rfl
  -- What is dropped is exactly this.
  have hdrop : ∀ authority after, authority ++ after = rest →
      ("://".toList ++ rest).drop (3 + authority.length) = after := by
    rintro authority after rfl
    rw [← List.append_assoc, show 3 + authority.length = ("://".toList ++ authority).length by
      rw [List.length_append]
      rfl]
    exact List.drop_left
  unfold redactUserinfo
  rw [scan_turn (by simp) hturn (by omega), hdrop _ _ List.takeWhile_append_dropWhile,
    scan_userinfo_before]
  rfl

/-- Nothing happens where no URL begins. -/
theorem redactUserinfo_cons {c : Char} {t : Text} (h : ¬ "://".toList <+: c :: t) :
    redactUserinfo (c :: t) = c :: redactUserinfo t := by
  have hturn : userinfoTurn none (c :: t) = ([c], 1) := if_neg h
  rw [redactUserinfo, scan_copy hturn, scan_userinfo_before]

/-- Nothing happens to what has no colon in it. -/
theorem redactUserinfo_append {x : Text} (hx : ':' ∉ x) (w : Text) :
    redactUserinfo (x ++ w) = x ++ redactUserinfo w := by
  induction x with
  | nil => rfl
  | cons c x ih =>
    rw [List.mem_cons, not_or] at hx
    have hno : ¬ "://".toList <+: c :: (x ++ w) := fun hpre =>
      hx.1 (List.cons_prefix_cons.mp hpre).1
    rw [List.cons_append, redactUserinfo_cons hno, ih hx.2]
    rfl

/-- What comes behind the last `@`. -/
theorem rtakeWhile_at {x y : Text} (hy : '@' ∉ y) : (x ++ '@' :: y).rtakeWhile (· ≠ '@') = y := by
  have hall : ∀ c ∈ y.reverse, decide (c ≠ '@') = true := by
    intro c hc
    rw [List.mem_reverse] at hc
    exact decide_eq_true fun heq => hy (heq ▸ hc)
  unfold List.rtakeWhile
  rw [List.reverse_append, List.reverse_cons, List.append_assoc, List.takeWhile_append_of_pos hall]
  simp

/-- The value is kept behind what is kept of `s`, or it is hidden. The slashes of a URL that begins
right in front of it stay. -/
def UserOutcome (s v w kept out : Text) : Prop :=
  (∃ w', Covered scrubMasks w w' ∧ out = kept ++ (v ++ w')) ∨
  ∃ v₁, v₁ <+: v ∧ v₁.length ≤ 2 ∧ HiddenBehind (s ++ v₁) w out

/-- More was covered in front. -/
theorem UserOutcome.prepend {s v w kept out first covered : Text} (h : UserOutcome s v w kept out)
    (hfirst : Covered scrubMasks first covered) :
    UserOutcome (first ++ s) v w (covered ++ kept) (covered ++ out) := by
  rcases h with ⟨w', hw', rfl⟩ | ⟨v₁, hv₁, hlen, h⟩
  · exact Or.inl ⟨w', hw', by rw [List.append_assoc]⟩
  · refine Or.inr ⟨v₁, hv₁, hlen, ?_⟩
    rw [List.append_assoc]
    exact h.prepend hfirst

/-- A URL whose authority goes on through the value. -/
theorem redactUserinfo_crossing {s v₁ v₂ w a : Text} (hs : s ++ v₁ = "://".toList ++ a)
    (ha : ∀ c ∈ a, (!endsAuthority c) = true) (hlen : v₁.length ≤ 2) (hcolon : ':' ∉ v₂)
    (hat : '@' ∉ v₂) (hkept : redactUserinfo s ++ v₁ = authorityText a) :
    UserOutcome s (v₁ ++ v₂) w (redactUserinfo s) (redactUserinfo (s ++ (v₁ ++ v₂ ++ w))) := by
  have hwhole : s ++ (v₁ ++ v₂ ++ w) = "://".toList ++ (a ++ (v₂ ++ w)) := by
    rw [← List.append_assoc, ← List.append_assoc, hs]
    simp
  rw [hwhole, redactUserinfo_url, List.takeWhile_append_of_pos ha, List.dropWhile_append_of_pos ha]
  -- An authority that ends with what has no `@`.
  have hauthority : ∀ z : Text, '@' ∉ z → authorityText (a ++ z) = authorityText a ++ z := by
    intro z hz
    unfold authorityText
    by_cases hin : '@' ∈ a
    · obtain ⟨user, huser⟩ := exists_user hin
      have htail : '@' ∉ a.rtakeWhile (· ≠ '@') := fun hmem => by
        have hne := List.mem_rtakeWhile_imp hmem
        exact absurd hne (by decide)
      have htail' : '@' ∉ a.rtakeWhile (· ≠ '@') ++ z := by
        rw [List.mem_append, not_or]
        exact ⟨htail, hz⟩
      have hlast : (a ++ z).rtakeWhile (· ≠ '@') = a.rtakeWhile (· ≠ '@') ++ z := by
        generalize a.rtakeWhile (· ≠ '@') = tail at huser htail'
        rw [huser, List.append_assoc, List.cons_append, rtakeWhile_at htail']
      rw [if_pos (List.mem_append_left z hin), if_pos hin, hlast]
      simp
    · rw [if_neg (by simp only [List.mem_append, not_or]; exact ⟨hin, hz⟩), if_neg hin,
        List.append_assoc]
  by_cases hall : ∀ c ∈ v₂, (!endsAuthority c) = true
  · rw [List.takeWhile_append_of_pos hall, List.dropWhile_append_of_pos hall]
    have hsplit := List.takeWhile_append_dropWhile (p := fun c => !endsAuthority c) (l := w)
    generalize w.takeWhile (fun c => !endsAuthority c) = z at hsplit ⊢
    generalize w.dropWhile (fun c => !endsAuthority c) = rest at hsplit ⊢
    have hrest : Covered scrubMasks rest (redactUserinfo rest) := covered_userinfo none rest
    by_cases hz : '@' ∈ z
    · -- The `@` stands behind the value.
      obtain ⟨user, huser⟩ := exists_user hz
      have htail : '@' ∉ z.rtakeWhile (· ≠ '@') := fun hmem => by
        have hne := List.mem_rtakeWhile_imp hmem
        exact absurd hne (by decide)
      generalize z.rtakeWhile (· ≠ '@') = tail at huser htail
      have hmask : authorityText (a ++ (v₂ ++ z))
          = "://".toList ++ redactedMask ++ '@' :: tail := by
        unfold authorityText
        rw [if_pos (by simp [hz]), huser]
        have hassoc : a ++ (v₂ ++ (user ++ '@' :: tail)) = a ++ v₂ ++ user ++ '@' :: tail := by
          simp
        rw [hassoc, rtakeWhile_at htail]
      refine Or.inr ⟨v₁, List.prefix_append _ _, hlen, "://".toList, "://".toList, redactedMask,
        '@' :: tail ++ rest, '@' :: tail ++ redactUserinfo rest, ?_, ?_, redactedMask_mem,
        .refl _ _, (Covered.refl _ _).append hrest, ?_⟩
      · rw [hs]
        exact List.prefix_append _ _
      · exact ⟨user, by rw [← hsplit, huser]; simp⟩
      · rw [hmask, List.append_assoc]
    · refine Or.inl ⟨z ++ redactUserinfo rest, ?_, ?_⟩
      · rw [← hsplit]
        exact (Covered.refl _ z).append hrest
      · rw [hauthority _ (by simp only [List.mem_append, not_or]; exact ⟨hat, hz⟩), ← hkept]
        simp
  · rw [(takeWhile_inside hall w).1, (takeWhile_inside hall w).2]
    have hsplit := List.takeWhile_append_dropWhile (p := fun c => !endsAuthority c) (l := v₂)
    generalize v₂.takeWhile (fun c => !endsAuthority c) = z at hsplit ⊢
    generalize v₂.dropWhile (fun c => !endsAuthority c) = rest at hsplit ⊢
    rw [← hsplit, List.mem_append, not_or] at hcolon hat
    refine Or.inl ⟨redactUserinfo w, covered_userinfo none w, ?_⟩
    rw [hauthority z hat.1, redactUserinfo_append hcolon.2, ← hkept, ← hsplit]
    simp

/-- An authority is covered up to its last `@`. -/
theorem covered_authorityText (authority : Text) :
    Covered scrubMasks ("://".toList ++ authority) (authorityText authority) := by
  unfold authorityText
  by_cases hat : '@' ∈ authority
  · obtain ⟨user, huser⟩ := exists_user hat
    rw [if_pos hat]
    generalize authority.rtakeWhile (· ≠ '@') = tail at huser ⊢
    rw [huser, ← List.append_assoc]
    exact ((Covered.refl _ _).append (.stretch user redactedMask_mem)).append (.refl _ _)
  · rw [if_neg hat]
    exact .refl _ _

/-- A URL that begins right in front of the value takes its slashes from the value. -/
theorem exists_slashes {s v w : Text} (hv : ∀ c ∈ v, isValueChar c = true) (hne : v ≠ [])
    (hw : w.head?.all (fun c => !isValueChar c) = true)
    (hstart : "://".toList <+: s ++ (v ++ w)) (hshort : s.length < 3) :
    ∃ v₁ v₂, v = v₁ ++ v₂ ∧ s ++ v₁ = "://".toList ∧ redactUserinfo s = s ∧ v₁.length ≤ 2 := by
  obtain ⟨e, v, rfl⟩ := List.exists_cons_of_ne_nil hne
  have he := hv e List.mem_cons_self
  change [':', '/', '/'] <+: _ at hstart
  rcases s with - | ⟨c, - | ⟨d, - | ⟨f, s⟩⟩⟩
  · -- A value does not begin with a colon.
    rw [← (List.cons_prefix_cons.mp hstart).1] at he
    exact absurd he (by decide)
  · obtain ⟨rfl, hslash⟩ := List.cons_prefix_cons.mp hstart
    obtain ⟨rfl, hnext⟩ := List.cons_prefix_cons.mp hslash
    cases v with
    | nil =>
      -- Nor does what follows it begin with a slash.
      obtain ⟨rest, rfl⟩ : ['/'] <+: w := hnext
      change (!isValueChar '/') = true at hw
      exact absurd hw (by decide)
    | cons f v =>
      obtain ⟨rfl, -⟩ := List.cons_prefix_cons.mp hnext
      exact ⟨"//".toList, v, rfl, rfl, by decide +kernel, by decide⟩
  · obtain ⟨rfl, hslash⟩ := List.cons_prefix_cons.mp hstart
    obtain ⟨rfl, hnext⟩ := List.cons_prefix_cons.mp hslash
    obtain ⟨rfl, -⟩ := List.cons_prefix_cons.mp hnext
    exact ⟨"/".toList, v, rfl, rfl, by decide +kernel, by decide⟩
  · simp at hshort
    omega

/-- What the pass does with a value, behind anything. -/
theorem redactUserinfo_value {v w : Text} (hv : ∀ c ∈ v, isValueChar c = true) (hne : v ≠ [])
    (hw : w.head?.all (fun c => !isValueChar c) = true) (s : Text) :
    UserOutcome s v w (redactUserinfo s) (redactUserinfo (s ++ (v ++ w))) := by
  have hcolon : ':' ∉ v := fun hmem => absurd (hv _ hmem) (by decide)
  have hat : '@' ∉ v := fun hmem => absurd (hv _ hmem) (by decide)
  induction hn : s.length using Nat.strong_induction_on generalizing s with
  | _ n ih =>
    -- Either the slashes are at the front of the text, or the first character is copied.
    by_cases hstart : "://".toList <+: s ++ (v ++ w)
    · by_cases hlong : 3 ≤ s.length
      · -- The URL begins in front of the value.
        obtain ⟨a, rfl⟩ : "://".toList <+: s :=
          List.prefix_of_prefix_length_le hstart (List.prefix_append _ _) hlong
        -- The authority of the URL may reach into the value.
        by_cases hall : ∀ c ∈ a, (!endsAuthority c) = true
        · have hkept : redactUserinfo ("://".toList ++ a) ++ [] = authorityText a := by
            rw [redactUserinfo_url, List.takeWhile_eq_self_iff.mpr hall,
              List.dropWhile_eq_nil_iff.mpr hall, List.append_nil, redactUserinfo, scan_nil,
              List.append_nil]
          exact redactUserinfo_crossing (by simp) hall (by simp) hcolon hat hkept
        · -- Its authority ends in front of the value.
          have hfull := redactUserinfo_url (a ++ (v ++ w))
          rw [(takeWhile_inside hall (v ++ w)).1, (takeWhile_inside hall (v ++ w)).2,
            ← List.append_assoc] at hfull
          rw [hfull, redactUserinfo_url]
          have hlen : (a.dropWhile fun c => !endsAuthority c).length < n := by
            have hle := List.length_dropWhile_le (fun c => !endsAuthority c) a
            rw [← hn, List.length_append]
            simp
            omega
          have hrest := (ih _ hlen _ rfl).prepend
            (covered_authorityText (a.takeWhile fun c => !endsAuthority c))
          rwa [List.append_assoc, List.takeWhile_append_dropWhile] at hrest
      · -- Its slashes are the first characters of the value.
        obtain ⟨v₁, v₂, rfl, hslashes, hself, hlen⟩ :=
          exists_slashes hv hne hw hstart (not_le.mp hlong)
        rw [List.mem_append, not_or] at hcolon hat
        refine redactUserinfo_crossing (a := []) (by rw [hslashes]; rfl) (by simp) hlen hcolon.2
          hat.2 ?_
        rw [hself, hslashes]
        rfl
    -- With nothing in front of the value the pass starts at it.
    · cases s with
      | nil =>
        refine Or.inl ⟨redactUserinfo w, covered_userinfo none w, ?_⟩
        have hnil : redactUserinfo [] = [] := scan_nil _ _
        rw [List.nil_append, redactUserinfo_append hcolon, hnil, List.nil_append]
      | cons c s =>
        have hcut : ¬ "://".toList <+: c :: s := fun hpre =>
          hstart (hpre.trans (List.prefix_append _ _))
        have hrest := (ih s.length (by rw [← hn]; exact Nat.lt_succ_self _) s rfl).prepend
          (Covered.refl scrubMasks [c])
        rw [List.cons_append] at hstart
        rw [List.cons_append, redactUserinfo_cons hstart, redactUserinfo_cons hcut]
        exact hrest

end Gabriel.Cli
