import Gabriel.Cli.RequestPath

/-!
# `Gabriel.Proofs.RequestPath`: does a saved request stay inside `requests/`?

An accepted path is the join of its parts. The parts are harmless on every platform: none is empty,
`.` or `..`, and none holds a separator. The join of harmless parts is still not a harmless path:
dropping a leading `./` can bring a drive letter or white space to the front, and dropping a
trailing `/.` can bring white space or `.toml` to the end, which a second pass reads differently.

`StaysInside` is the promise, wherever the path is read, on Unix and on Windows: a relative join of
harmless parts below `requests/`, that sanitizing again does not change. `PlainEnds` is the
condition, on the first and the last part of what was typed. The theorems:

* `sanitizeRequestPath_eq_ok`: what is accepted, part by part.
* `splitOnP_joinParts`: a join of harmless parts is taken apart into them, by all rules.
* `trimEndMatches_joinParts`, `hasDrive_joinParts`: what the ends of a join decide.
* `staysInside_of_plainEnds`, `plainEnds_of_staysInside`: the two directions.
* `staysInside_iff`: an accepted path stays inside exactly when its ends are plain.
-/

set_option autoImplicit false

namespace Gabriel.Cli

open Gabriel.Core Text

/-! ### Trimming a suffix -/

section Suffix

variable {pat : Text}

/-- What is left of a text is its end. -/
theorem trimStartMatches_suffix (pat : Text) (fuel : Nat) (t : Text) :
    trimStartMatches pat fuel t <:+ t := by
  induction fuel generalizing t with
  | zero => exact List.suffix_refl t
  | succ fuel ih =>
    rw [trimStartMatches]
    split
    · exact (ih _).trans (List.drop_suffix _ _)
    · exact List.suffix_refl t

/-- More fuel than characters changes nothing. -/
theorem trimStartMatches_fuel (hpat : pat ≠ []) {fuel fuel' : Nat} {t : Text}
    (h : t.length ≤ fuel) (h' : t.length ≤ fuel') :
    trimStartMatches pat fuel t = trimStartMatches pat fuel' t := by
  induction fuel generalizing fuel' t with
  | zero =>
    obtain rfl := List.length_eq_zero_iff.mp (Nat.le_zero.mp h)
    cases fuel' with
    | zero => rfl
    | succ fuel' =>
      rw [trimStartMatches, trimStartMatches, if_neg (by simpa using hpat)]
  | succ fuel ih =>
    have hpos : 0 < pat.length := List.length_pos_iff.mpr hpat
    cases fuel' with
    | zero =>
      obtain rfl := List.length_eq_zero_iff.mp (Nat.le_zero.mp h')
      rw [trimStartMatches, trimStartMatches, if_neg (by simpa using hpat)]
    | succ fuel' =>
      rw [trimStartMatches, trimStartMatches]
      split
      · exact ih (by rw [List.length_drop]; omega) (by rw [List.length_drop]; omega)
      · rfl

/-- A character that is not in the pattern stops the trimming. -/
theorem trimStartMatches_append {c : Char} (hc : c ∉ pat) (fuel : Nat) (t rest : Text) :
    trimStartMatches pat fuel (t ++ c :: rest) = trimStartMatches pat fuel t ++ c :: rest := by
  -- The pattern is in front of the whole text when it is in front of its first part.
  have hfront : ∀ s : Text, pat <+: s ++ c :: rest ↔ pat <+: s := by
    intro s
    constructor
    · intro h
      by_cases hlen : pat.length ≤ s.length
      · exact List.prefix_of_prefix_length_le h (List.prefix_append _ _) hlen
      · have hlong : s ++ [c] <+: pat := by
          refine List.prefix_of_prefix_length_le ⟨rest, by simp⟩ h ?_
          rw [List.length_append, List.length_singleton]
          omega
        exact absurd (hlong.subset (List.mem_append_right _ List.mem_cons_self)) hc
    · exact fun h => h.trans (List.prefix_append _ _)
  induction fuel generalizing t with
  | zero => rfl
  | succ fuel ih =>
    rw [trimStartMatches, trimStartMatches]
    by_cases hpre : pat <+: t
    · rw [if_pos ((hfront t).mpr hpre), if_pos hpre, List.drop_append_of_le_length hpre.length_le]
      exact ih _
    · rw [if_neg (fun h => hpre ((hfront t).mp h)), if_neg hpre]

/-- What is left of a text is its front. -/
theorem trimEndMatches_isPrefix (pat t : Text) : trimEndMatches pat t <+: t := by
  rw [← List.reverse_suffix, trimEndMatches, List.reverse_reverse]
  exact trimStartMatches_suffix _ _ _

/-- A character that is not in the pattern stops the trimming. -/
theorem trimEndMatches_append (hpat : pat ≠ []) {c : Char} (hc : c ∉ pat) (s t : Text) :
    trimEndMatches pat (s ++ c :: t) = s ++ c :: trimEndMatches pat t := by
  unfold trimEndMatches
  have hrev : (s ++ c :: t).reverse = t.reverse ++ c :: s.reverse := by simp
  rw [hrev, trimStartMatches_append (by simpa using hc),
    trimStartMatches_fuel (by simpa using hpat) (by simp; omega) t.length_reverse.le]
  simp

/-- A text that ends in another character than the pattern is left alone. -/
theorem trimEndMatches_eq_self (hpat : pat ≠ []) {t : Text}
    (hlast : ∀ c, t.getLast? = some c → c ∉ pat) :
    trimEndMatches pat t = t := by
  rcases List.eq_nil_or_concat' t with rfl | ⟨s, c, rfl⟩
  · exact List.prefix_nil.mp (trimEndMatches_isPrefix pat [])
  · have hc : c ∉ pat := hlast c (by simp)
    rw [trimEndMatches_append hpat hc, List.prefix_nil.mp (trimEndMatches_isPrefix pat [])]

end Suffix

/-! ### The parts of a path -/

/-- The parts of a path that name something. -/
def pathParts (rules : PathRules) (rel : Text) : List Text :=
  ((trimmedPath rel).splitOnP rules.isSeparator).filter fun part =>
    part ≠ [] ∧ part ≠ ".".toList

/-- A part that names something below, on every platform. -/
structure Harmless (part : Text) : Prop where
  nonempty : part ≠ []
  dot : part ≠ ".".toList
  dots : part ≠ "..".toList
  slash : '/' ∉ part
  backslash : '\\' ∉ part

/-- The join of parts. -/
def joinParts (parts : List Text) : Text := List.intercalate ['/'] parts

/-- No rules separate a harmless part. -/
theorem Harmless.noSeparator {part : Text} (h : Harmless part) (rules : PathRules) :
    ∀ c ∈ part, rules.isSeparator c = false := by
  intro c hc
  have hslash : c ≠ '/' := fun heq => h.slash (heq ▸ hc)
  have hback : c ≠ '\\' := fun heq => h.backslash (heq ▸ hc)
  cases rules <;> simp [PathRules.isSeparator, hslash, hback]

/-- A slash separates by all rules. -/
theorem isSeparator_slash (rules : PathRules) : rules.isSeparator '/' = true := by
  cases rules <;> rfl

/-- A piece is kept unless it is `..` or holds a backslash; a `.` is dropped. -/
theorem keptPart_component {piece : Text} {kept : List Text} :
    keptPart (PathRules.component piece) = some kept ↔
      (piece ≠ "..".toList ∧ '\\' ∉ piece) ∧
        kept = if piece = ".".toList then [] else [piece] := by
  unfold PathRules.component
  by_cases hdot : piece = ".".toList
  · have hok : piece ≠ "..".toList ∧ '\\' ∉ piece := by
      rw [hdot]
      decide
    rw [if_pos hdot, if_pos hdot, keptPart, Option.some.injEq]
    exact ⟨fun h => ⟨hok, h.symm⟩, fun h => h.2.symm⟩
  · rw [if_neg hdot, if_neg hdot]
    by_cases hdots : piece = "..".toList
    · rw [if_pos hdots, keptPart]
      exact ⟨fun h => absurd h (by simp), fun h => absurd hdots h.1.1⟩
    · rw [if_neg hdots, keptPart]
      by_cases hback : '\\' ∈ piece
      · rw [if_pos hback]
        exact ⟨fun h => absurd h (by simp), fun h => absurd hback h.1.2⟩
      · rw [if_neg hback, Option.some.injEq]
        exact ⟨fun h => ⟨⟨hdots, hback⟩, h.symm⟩, fun h => h.2.symm⟩

/-- What the components of pieces add up to. -/
theorem mapM_keptPart {pieces : List Text} {kept : List (List Text)} :
    (pieces.map PathRules.component).mapM keptPart = some kept ↔
      (∀ piece ∈ pieces, piece ≠ "..".toList ∧ '\\' ∉ piece) ∧
        kept = pieces.map fun piece => if piece = ".".toList then [] else [piece] := by
  induction pieces generalizing kept with
  | nil => simp [eq_comm]
  | cons piece pieces ih =>
    rw [List.map_cons, List.mapM_cons, List.forall_mem_cons, List.map_cons]
    simp only [Option.pure_def, Option.bind_eq_bind, Option.bind_eq_some_iff, Option.some.injEq,
      ih, keptPart_component]
    constructor
    · rintro ⟨first, ⟨hpiece, rfl⟩, rest, ⟨hall, rfl⟩, rfl⟩
      exact ⟨⟨hpiece, hall⟩, rfl⟩
    · rintro ⟨⟨hpiece, hall⟩, rfl⟩
      exact ⟨_, ⟨hpiece, rfl⟩, _, ⟨hall, rfl⟩, rfl⟩

/-- Dropping the `.` pieces. -/
theorem flatten_dots (pieces : List Text) :
    (pieces.map fun piece => if piece = ".".toList then [] else [piece]).flatten
      = pieces.filter fun piece => piece ≠ ".".toList := by
  induction pieces with
  | nil => rfl
  | cons piece pieces ih =>
    rw [List.map_cons, List.flatten_cons, ih]
    by_cases hdot : piece = ".".toList
    · rw [if_pos hdot, List.filter_cons_of_neg (by simpa using hdot), List.nil_append]
    · rw [if_neg hdot, List.filter_cons_of_pos (by simpa using hdot), List.singleton_append]

/-- The parts that are kept. -/
theorem keptParts_eq_some {rules : PathRules} {rel : Text} {parts : List Text} :
    keptParts rules (trimmedPath rel) = some parts ↔
      rules.isAnchored (trimmedPath rel) = false ∧
        (∀ part ∈ pathParts rules rel, part ≠ "..".toList ∧ '\\' ∉ part) ∧
          parts = pathParts rules rel := by
  -- The empty parts are dropped by the components, the dots when they are put together.
  have hparts : pathParts rules rel
      = (((trimmedPath rel).splitOnP rules.isSeparator).filter (· ≠ [])).filter fun piece =>
          piece ≠ ".".toList := by
    rw [List.filter_filter]
    refine List.filter_congr ?_
    intro piece hpiece
    simp [Bool.and_comm]
  unfold keptParts PathRules.components
  rw [Option.map_eq_some_iff]
  -- An anchored path begins with a component that is refused.
  cases hanchor : rules.isAnchored (trimmedPath rel) with
  | true =>
    rw [if_pos rfl, List.cons_append, List.mapM_cons]
    simp [keptPart]
  | false =>
    -- No part is refused, and the single dots are dropped.
    rw [if_neg Bool.false_ne_true, List.nil_append]
    simp only [mapM_keptPart, hparts]
    constructor
    · rintro ⟨kept, ⟨hall, rfl⟩, rfl⟩
      exact ⟨trivial, fun part hpart => hall part (List.mem_of_mem_filter hpart), flatten_dots _⟩
    · rintro ⟨-, hall, rfl⟩
      refine ⟨_, ⟨?_, rfl⟩, flatten_dots _⟩
      intro piece hpiece
      by_cases hdot : piece = ".".toList
      · rw [hdot]
        decide
      · exact hall piece (List.mem_filter.mpr ⟨hpiece, by simpa using hdot⟩)

/-- The parts of a path hold no slash. -/
theorem slash_not_mem_part {rules : PathRules} {rel part : Text}
    (h : part ∈ pathParts rules rel) : '/' ∉ part := by
  intro hslash
  have hno := not_of_mem_splitOnP (List.mem_of_mem_filter h) hslash
  rw [isSeparator_slash] at hno
  exact absurd hno (by simp)

/-- What is accepted: a relative path of harmless parts. -/
theorem sanitizeRequestPath_eq_ok {rules : PathRules} {rel r : Text} :
    sanitizeRequestPath rules rel = .ok r ↔
      looksAbsolute rules rel = false ∧ rules.isAnchored (trimmedPath rel) = false ∧
        pathParts rules rel ≠ [] ∧ (∀ part ∈ pathParts rules rel, Harmless part) ∧
          r = joinParts (pathParts rules rel) := by
  -- An empty path has no parts, which is the second of the two refusals.
  have hempty : trimmedPath rel = [] → pathParts rules rel = [] := by
    intro h
    unfold pathParts
    rw [h, List.splitOnP_nil]
    decide
  -- A part holds no slash and is neither empty nor a dot in any case.
  have hharmless : (∀ part ∈ pathParts rules rel, Harmless part) ↔
      ∀ part ∈ pathParts rules rel, part ≠ "..".toList ∧ '\\' ∉ part := by
    constructor
    · exact fun h part hpart => ⟨(h part hpart).dots, (h part hpart).backslash⟩
    · intro h part hpart
      have hkeep := (List.mem_filter.mp hpart).2
      simp only [ne_eq, decide_eq_true_eq] at hkeep
      exact ⟨hkeep.1, hkeep.2, (h part hpart).1, slash_not_mem_part hpart, (h part hpart).2⟩
  unfold sanitizeRequestPath
  rw [hharmless]
  -- One refusal after the other, in the order of the source.
  by_cases habs : looksAbsolute rules rel = true
  · rw [if_pos habs, habs]
    simp
  · rw [if_neg habs]
    by_cases hnil : trimmedPath rel = []
    · rw [if_pos hnil, hempty hnil]
      simp
    · rw [if_neg hnil]
      cases hkept : keptParts rules (trimmedPath rel) with
      | none =>
        have hnot : ∀ parts, keptParts rules (trimmedPath rel) ≠ some parts := by simp [hkept]
        constructor
        · intro h
          exact absurd h (by simp)
        · rintro ⟨-, hanchor, -, hall, -⟩
          exact absurd (keptParts_eq_some.mpr ⟨hanchor, hall, rfl⟩) (hnot _)
      | some parts =>
        obtain ⟨hanchor, hall, rfl⟩ := keptParts_eq_some.mp hkept
        by_cases hnone : pathParts rules rel = []
        · simp [hnone]
        · simp only [hnone, if_false, Except.ok.injEq]
          constructor
          · rintro rfl
            exact ⟨by simpa using habs, hanchor, hnone, hall, rfl⟩
          · rintro ⟨-, -, -, -, rfl⟩
            rfl

/-! ### Joins of harmless parts -/

section Join

variable {parts : List Text}

/-- A join of harmless parts is taken apart into them, by all rules. -/
theorem splitOnP_joinParts (rules : PathRules) (hne : parts ≠ [])
    (h : ∀ part ∈ parts, Harmless part) :
    (joinParts parts).splitOnP rules.isSeparator = parts :=
  splitOnP_intercalate (isSeparator_slash rules) hne fun part hpart =>
    (h part hpart).noSeparator rules

/-- Pieces without a slash are known from their join. -/
theorem joinParts_injective {pieces pieces' : List Text} (hne : pieces ≠ []) (hne' : pieces' ≠ [])
    (h : ∀ piece ∈ pieces, '/' ∉ piece) (h' : ∀ piece ∈ pieces', '/' ∉ piece)
    (hjoin : joinParts pieces = joinParts pieces') : pieces = pieces' := by
  have hsplit := congrArg (List.splitOn '/') hjoin
  unfold joinParts at hsplit
  rw [List.splitOn_intercalate _ h hne, List.splitOn_intercalate _ h' hne'] at hsplit
  exact hsplit

/-- A join with a last part. -/
theorem joinParts_concat (init : List Text) (last : Text) :
    joinParts (init ++ [last]) = if init = [] then last else joinParts init ++ '/' :: last := by
  induction init with
  | nil => simp [joinParts]
  | cons part init ih =>
    rw [if_neg (List.cons_ne_nil _ _)]
    cases init with
    | nil => simp [joinParts]
    | cons next rest =>
      unfold joinParts at ih ⊢
      rw [List.cons_append, List.cons_append, List.intercalate_cons_cons, ← List.cons_append, ih,
        if_neg (List.cons_ne_nil _ _), List.intercalate_cons_cons]
      simp

/-- The extension is trimmed off the last part. -/
theorem trimEndMatches_joinParts (init : List Text) (last : Text) :
    trimEndMatches tomlSuffix (joinParts (init ++ [last]))
      = joinParts (init ++ [trimEndMatches tomlSuffix last]) := by
  rw [joinParts_concat, joinParts_concat]
  by_cases hinit : init = []
  · rw [if_pos hinit, if_pos hinit]
  · rw [if_neg hinit, if_neg hinit]
    exact trimEndMatches_append (by decide) (by decide) _ _

/-- A join begins as its first part does. -/
theorem head?_joinParts {first : Text} (rest : List Text) (h : first ≠ []) :
    (joinParts (first :: rest)).head? = first.head? := by
  cases rest with
  | nil => simp [joinParts]
  | cons next rest =>
    unfold joinParts
    rw [List.intercalate_cons_cons, List.append_assoc, List.head?_append_of_ne_nil _ h]

/-- A join ends as its last part does. -/
theorem getLast?_joinParts (init : List Text) {last : Text} (h : last ≠ []) :
    (joinParts (init ++ [last])).getLast? = last.getLast? := by
  rw [joinParts_concat]
  by_cases hinit : init = []
  · rw [if_pos hinit]
  · have happend : joinParts init ++ '/' :: last = (joinParts init ++ ['/']) ++ last := by simp
    rw [if_neg hinit, happend, List.getLast?_append_of_ne_nil _ h]

/-- A join begins with a drive when its first part does. -/
theorem hasDrive_joinParts {first : Text} (rest : List Text) (h : first ≠ []) :
    PathRules.hasDrive (joinParts (first :: rest)) = PathRules.hasDrive first := by
  cases rest with
  | nil => simp [joinParts]
  | cons next rest =>
    unfold joinParts
    rw [List.intercalate_cons_cons, List.append_assoc, List.singleton_append]
    match first, h with
    | [c], _ => rfl
    | c :: d :: first, _ =>
      by_cases hd : d = ':'
      · rw [hd]
        rfl
      · simp [PathRules.hasDrive, hd]

end Join

/-! ### The promise -/

/-- A path stays inside `requests/`, wherever it is read: it is a join of harmless parts, no
platform calls it absolute, and a second pass accepts it and takes off no more than `.toml`. -/
structure StaysInside (r : Text) : Prop where
  parts : ∃ parts, parts ≠ [] ∧ r = joinParts parts ∧ ∀ part ∈ parts, Harmless part
  relative : ∀ rules, looksAbsolute rules r = false
  again : ∀ rules, sanitizeRequestPath rules r = .ok (trimEndMatches tomlSuffix r)

/-- The ends of a path are plain. The first part begins with no white space and no drive; the last
one ends in no white space, and taking `.toml` off leaves a part. -/
structure PlainEnds (parts : List Text) : Prop where
  first : ∀ part, parts.head? = some part →
    (∀ c, part.head? = some c → isWhitespace c = false) ∧ PathRules.hasDrive part = false
  last : ∀ part, parts.getLast? = some part →
    (∀ c, part.getLast? = some c → isWhitespace c = false) ∧
      trimEndMatches tomlSuffix part ∉ [[], ".".toList, "..".toList]

section Ends

variable {parts : List Text}

/-- A join with plain ends is its own trim. -/
theorem trim_joinParts (hne : parts ≠ []) (h : ∀ part ∈ parts, Harmless part)
    (hplain : PlainEnds parts) : trim (joinParts parts) = joinParts parts := by
  rw [trim_eq_self_iff]
  constructor
  · cases parts with
    | nil => exact absurd rfl hne
    | cons first rest =>
      rw [head?_joinParts _ (h first List.mem_cons_self).nonempty]
      exact (hplain.first first rfl).1
  · rcases List.eq_nil_or_concat' parts with rfl | ⟨init, last, rfl⟩
    · exact absurd rfl hne
    · have hlast : last ∈ init ++ [last] := List.mem_append_right _ List.mem_cons_self
      rw [getLast?_joinParts init (h last hlast).nonempty]
      exact (hplain.last last (by simp)).1

/-- A join with plain ends has no slash around it. -/
theorem trimMatches_joinParts (hne : parts ≠ []) (h : ∀ part ∈ parts, Harmless part) :
    trimMatches '/' (joinParts parts) = joinParts parts := by
  have hdrop : (joinParts parts).dropWhile (· == '/') = joinParts parts := by
    -- The first part begins with no slash, and the last one ends with none.
    cases parts with
    | nil => exact absurd rfl hne
    | cons first rest =>
      have hfirst := h first List.mem_cons_self
      have hhead := head?_joinParts rest hfirst.nonempty
      cases hjoin : joinParts (first :: rest) with
      | nil => rfl
      | cons c t =>
        have hc : c ≠ '/' := by
          rintro rfl
          rw [hjoin, List.head?_cons, eq_comm] at hhead
          exact hfirst.slash (List.mem_of_head? hhead)
        rw [List.dropWhile_cons, if_neg (by simpa using hc)]
  rw [trimMatches, hdrop, List.rdropWhile_eq_self_iff]
  intro hnil hlast
  -- The end of the join is the end of its last part.
  rcases List.eq_nil_or_concat' parts with rfl | ⟨init, last, rfl⟩
  · exact absurd rfl hne
  · have hmem : last ∈ init ++ [last] := List.mem_append_right _ List.mem_cons_self
    have hget := getLast?_joinParts init (h last hmem).nonempty
    rw [List.getLast?_eq_some_getLast hnil, eq_comm] at hget
    have hslash := List.mem_of_getLast? hget
    rw [beq_iff_eq.mp hlast] at hslash
    exact (h last hmem).slash hslash

/-- No platform calls a join with plain ends absolute. -/
theorem looksAbsolute_joinParts (hne : parts ≠ []) (h : ∀ part ∈ parts, Harmless part)
    (hplain : PlainEnds parts) (rules : PathRules) :
    looksAbsolute rules (joinParts parts) = false := by
  unfold looksAbsolute
  rw [trim_joinParts hne h hplain]
  cases parts with
  | nil => exact absurd rfl hne
  | cons first rest =>
    have hfirst := h first List.mem_cons_self
    have hdrive := hasDrive_joinParts rest hfirst.nonempty
    rw [(hplain.first first rfl).2] at hdrive
    have hhead := head?_joinParts rest hfirst.nonempty
    cases hjoin : joinParts (first :: rest) with
    | nil => cases rules <;> rfl
    | cons c t =>
      rw [hjoin] at hdrive
      rw [hjoin, List.head?_cons, eq_comm] at hhead
      have hc : c ∈ first := List.mem_of_head? hhead
      have hsep := fun rules => hfirst.noSeparator rules c hc
      have hslash : c ≠ '/' := fun heq => hfirst.slash (heq ▸ hc)
      have hback : c ≠ '\\' := fun heq => hfirst.backslash (heq ▸ hc)
      cases rules with
      | unix => simp [PathRules.isAbsolute, hdrive, hslash, hback]
      | windows => simp [PathRules.isAbsolute, hdrive, hslash, hback, hsep]

/-- The front of a path without a drive has none. -/
theorem hasDrive_of_isPrefix {s t : Text} (h : s <+: t) (hdrive : PathRules.hasDrive t = false) :
    PathRules.hasDrive s = false := by
  obtain ⟨rest, rfl⟩ := h
  match s with
  | [] => rfl
  | [c] => rfl
  | c :: d :: s =>
    by_cases hd : d = ':'
    · rw [hd] at hdrive ⊢
      exact hdrive
    · simp [PathRules.hasDrive, hd]

/-- The last part of a join with plain ends is harmless without its extension. -/
theorem harmless_trimmed {init : List Text} {last : Text}
    (h : ∀ part ∈ init ++ [last], Harmless part) (hplain : PlainEnds (init ++ [last])) :
    ∀ part ∈ init ++ [trimEndMatches tomlSuffix last], Harmless part := by
  have hlast := h last (List.mem_append_right _ List.mem_cons_self)
  have hsub := (trimEndMatches_isPrefix tomlSuffix last).subset
  have hleft := (hplain.last last (by simp)).2
  simp only [List.mem_cons, List.not_mem_nil, or_false, not_or] at hleft
  intro part hpart
  rcases List.mem_append.mp hpart with hinit | hmem
  · exact h part (List.mem_append_left _ hinit)
  · rw [List.mem_singleton.mp hmem]
    exact ⟨hleft.1, hleft.2.1, hleft.2.2, fun hc => hlast.slash (hsub hc),
      fun hc => hlast.backslash (hsub hc)⟩

/-- The parts of a join of harmless parts. -/
theorem pathParts_of_trimmed {rel : Text} (rules : PathRules)
    (hrel : trimmedPath rel = joinParts parts) (hne : parts ≠ [])
    (h : ∀ part ∈ parts, Harmless part) : pathParts rules rel = parts := by
  unfold pathParts
  rw [hrel, splitOnP_joinParts rules hne h, List.filter_eq_self]
  intro part hpart
  have hok := h part hpart
  simpa using ⟨hok.nonempty, hok.dot⟩

/-- A join of harmless parts begins with no separator. -/
theorem isAnchored_joinParts (hne : parts ≠ []) (h : ∀ part ∈ parts, Harmless part)
    (hdrive : PathRules.hasDrive (joinParts parts) = false) (rules : PathRules) :
    rules.isAnchored (joinParts parts) = false := by
  cases parts with
  | nil => exact absurd rfl hne
  | cons first rest =>
    have hfirst := h first List.mem_cons_self
    unfold PathRules.isAnchored
    rw [hdrive, Bool.and_false, Bool.or_false, head?_joinParts _ hfirst.nonempty]
    cases hhead : first.head? with
    | none => rfl
    | some c => exact hfirst.noSeparator rules c (List.mem_of_head? hhead)

/-- A join with plain ends stays inside. -/
theorem staysInside_of_plainEnds (hne : parts ≠ []) (h : ∀ part ∈ parts, Harmless part)
    (hplain : PlainEnds parts) : StaysInside (joinParts parts) := by
  refine ⟨⟨parts, hne, rfl, h⟩, looksAbsolute_joinParts hne h hplain, ?_⟩
  -- Read again, the join loses its extension and nothing else.
  intro rules
  have habs := looksAbsolute_joinParts hne h hplain rules
  have htrim := trim_joinParts hne h hplain
  have hslash := trimMatches_joinParts hne h
  rcases List.eq_nil_or_concat' parts with rfl | ⟨init, last, rfl⟩
  · exact absurd rfl hne
  · have htrimmed : trimmedPath (joinParts (init ++ [last]))
        = joinParts (init ++ [trimEndMatches tomlSuffix last]) := by
      rw [trimmedPath, htrim, hslash, trimEndMatches_joinParts]
    have hne' : init ++ [trimEndMatches tomlSuffix last] ≠ [] := by simp
    have h' := harmless_trimmed h hplain
    have hparts := pathParts_of_trimmed rules htrimmed hne' h'
    -- It has no drive letter, which a part of it cannot have either.
    have hdrive : PathRules.hasDrive (joinParts (init ++ [last])) = false := by
      unfold looksAbsolute at habs
      rw [htrim] at habs
      simp only [Bool.or_eq_false_iff] at habs
      exact habs.2
    have hdrive' : PathRules.hasDrive (joinParts (init ++ [trimEndMatches tomlSuffix last]))
        = false := by
      refine hasDrive_of_isPrefix ?_ hdrive
      rw [← trimEndMatches_joinParts]
      exact trimEndMatches_isPrefix _ _
    -- So the second reading finds the same parts but for the extension.
    rw [sanitizeRequestPath_eq_ok, htrimmed, hparts, trimEndMatches_joinParts]
    exact ⟨habs, isAnchored_joinParts hne' h' hdrive' rules, hne', h', rfl⟩

/-- The parts that are kept make no longer path. -/
theorem length_joinParts_le (rel : Text) :
    (joinParts (pathParts .unix rel)).length ≤ (trimmedPath rel).length := by
  have hsplit : (trimmedPath rel).splitOnP PathRules.unix.isSeparator
      = (trimmedPath rel).splitOn '/' := List.splitOn_eq_splitOnP.symm
  calc (joinParts (pathParts .unix rel)).length
      ≤ (joinParts ((trimmedPath rel).splitOn '/')).length := by
        unfold pathParts
        rw [hsplit]
        exact length_intercalate_le_of_sublist List.filter_sublist
    _ = (trimmedPath rel).length := by
        unfold joinParts
        rw [List.intercalate_splitOn]

/-- A path that a second pass leaves alone has no white space around it. -/
theorem trim_eq_self_of_again {r : Text}
    (hends : ∀ c, r.head? = some c ∨ r.getLast? = some c → c ≠ '/')
    (hrel : looksAbsolute .unix r = false)
    (hagain : sanitizeRequestPath .unix r = .ok (trimEndMatches tomlSuffix r)) : trim r = r := by
  obtain ⟨-, -, -, -, hjoin⟩ := sanitizeRequestPath_eq_ok.mp hagain
  -- What is read again is no longer than what is left after trimming.
  have hlen : (trimEndMatches tomlSuffix r).length ≤ (trimmedPath r).length := by
    rw [hjoin]
    exact length_joinParts_le r
  have hinfix := isInfix_trim r
  by_cases hlast : ∃ c, r.getLast? = some c ∧ isWhitespace c = true
  · -- White space at the end: nothing is trimmed off, so nothing may get lost.
    obtain ⟨c, hc, hspace⟩ := hlast
    have hself : trimEndMatches tomlSuffix r = r := by
      refine trimEndMatches_eq_self (by decide) ?_
      intro d hd hmem
      obtain rfl : c = d := Option.some.inj (hc.symm.trans hd)
      have hall : ∀ x ∈ tomlSuffix, isWhitespace x = false := forall_mem_of_all (by decide)
      rw [hall c hmem] at hspace
      exact absurd hspace (by simp)
    have hle : (trimmedPath r).length ≤ (trim r).length := by
      unfold trimmedPath
      have h1 := (trimEndMatches_isPrefix tomlSuffix (trimMatches '/' (trim r))).length_le
      have h2 : (trimMatches '/' (trim r)).length ≤ (trim r).length := by
        unfold trimMatches
        exact (List.rdropWhile_prefix _ _).length_le.trans (List.dropWhile_suffix _).length_le
      omega
    rw [hself] at hlen
    exact hinfix.eq_of_length (Nat.le_antisymm hinfix.length_le (hlen.trans hle))
  · -- White space in front only: trimming the extension keeps it.
    have hdrop : trim r = r.dropWhile isWhitespace := by
      unfold trim
      rw [List.rdropWhile_eq_self_iff]
      intro hne hspace
      refine hlast ⟨_, ?_, hspace⟩
      obtain ⟨pre, hpre⟩ := List.dropWhile_suffix (l := r) isWhitespace
      rw [← List.getLast?_eq_some_getLast hne]
      conv_lhs => rw [← hpre]
      rw [List.getLast?_append_of_ne_nil _ hne]
    have hcut : r.takeWhile isWhitespace ++ trim r = r := by
      rw [hdrop, List.takeWhile_append_dropWhile]
    have hslash : trimMatches '/' (trim r) = trim r := by
      have hhead : (trim r).dropWhile (· == '/') = trim r := by
        cases htrim : trim r with
        | nil => rfl
        | cons c t =>
          have hc : c ≠ '/' := by
            rintro rfl
            unfold looksAbsolute at hrel
            rw [htrim] at hrel
            simp at hrel
          rw [List.dropWhile_cons, if_neg (by simpa using hc)]
      rw [trimMatches, hhead, List.rdropWhile_eq_self_iff]
      intro hne hc
      refine hends _ (Or.inr ?_) (beq_iff_eq.mp hc)
      rw [← List.getLast?_eq_some_getLast hne]
      conv_lhs => rw [← hcut]
      rw [List.getLast?_append_of_ne_nil _ hne]
    rcases List.eq_nil_or_concat' (r.takeWhile isWhitespace) with hnil | ⟨pre, c, hpre⟩
    · rw [hnil, List.nil_append] at hcut
      exact hcut
    -- White space in front would stay and make the result too long.
    · have hspace : isWhitespace c = true :=
        List.mem_takeWhile_imp (hpre ▸ List.mem_append_right pre List.mem_cons_self)
      have hc : c ∉ tomlSuffix := by
        intro hmem
        have hall : ∀ x ∈ tomlSuffix, isWhitespace x = false := forall_mem_of_all (by decide)
        rw [hall c hmem] at hspace
        exact absurd hspace (by simp)
      have hlonger : trimEndMatches tomlSuffix r
          = pre ++ c :: trimEndMatches tomlSuffix (trim r) := by
        conv_lhs => rw [← hcut, hpre, List.append_assoc, List.singleton_append]
        exact trimEndMatches_append (by decide) hc _ _
      rw [hlonger, trimmedPath, hslash, List.length_append, List.length_cons] at hlen
      omega

/-- The ends of a join that stays inside are plain. -/
theorem plainEnds_of_staysInside (hne : parts ≠ []) (h : ∀ part ∈ parts, Harmless part)
    (hstays : StaysInside (joinParts parts)) : PlainEnds parts := by
  have hagain := hstays.again .unix
  obtain ⟨-, -, -, hharmless, hjoin⟩ := sanitizeRequestPath_eq_ok.mp hagain
  -- A join begins and ends with its outer parts, which hold no slash.
  have hends : ∀ c, (joinParts parts).head? = some c ∨ (joinParts parts).getLast? = some c →
      c ≠ '/' := by
    rintro c (hc | hc) rfl
    · cases parts with
      | nil => exact absurd rfl hne
      | cons first rest =>
        have hfirst := h first List.mem_cons_self
        rw [head?_joinParts _ hfirst.nonempty] at hc
        exact hfirst.slash (List.mem_of_head? hc)
    · rcases List.eq_nil_or_concat' parts with rfl | ⟨init, last, rfl⟩
      · exact absurd rfl hne
      · have hlast := h last (List.mem_append_right _ List.mem_cons_self)
        rw [getLast?_joinParts init hlast.nonempty] at hc
        exact hlast.slash (List.mem_of_getLast? hc)
  -- The join has no white space around it, so that its outer parts have none.
  have htrim := trim_eq_self_of_again hends (hstays.relative .unix) hagain
  obtain ⟨hhead, hlast⟩ := trim_eq_self_iff.mp htrim
  refine ⟨?_, ?_⟩
  -- The first part: no white space in front, and no drive letter.
  · intro part hpart
    cases parts with
    | nil => exact absurd rfl hne
    | cons first rest =>
      obtain rfl := Option.some.inj hpart
      have hfirst := h first List.mem_cons_self
      refine ⟨?_, ?_⟩
      · rw [← head?_joinParts rest hfirst.nonempty]
        exact hhead
      · have habs := hstays.relative .unix
        unfold looksAbsolute at habs
        rw [htrim] at habs
        simp only [Bool.or_eq_false_iff] at habs
        rw [← hasDrive_joinParts rest hfirst.nonempty]
        exact habs.2
  -- The last part: no white space behind, and something left without the extension.
  · intro part hpart
    rcases List.eq_nil_or_concat' parts with rfl | ⟨init, last, rfl⟩
    · exact absurd rfl hne
    · obtain rfl : last = part := by simpa using hpart
      have hmem := h last (List.mem_append_right _ List.mem_cons_self)
      refine ⟨?_, ?_⟩
      · rw [← getLast?_joinParts init hmem.nonempty]
        exact hlast
      · -- The second pass finds the last part without its extension among its parts.
        rw [trimEndMatches_joinParts] at hjoin
        have hslash : ∀ part ∈ init ++ [trimEndMatches tomlSuffix last], '/' ∉ part := by
          intro part hpart
          rcases List.mem_append.mp hpart with hinit | hlast'
          · exact (h part (List.mem_append_left _ hinit)).slash
          · rw [List.mem_singleton.mp hlast']
            exact fun hc => hmem.slash ((trimEndMatches_isPrefix _ _).subset hc)
        have hne' : pathParts .unix (joinParts (init ++ [last])) ≠ [] := by
          obtain ⟨-, -, hne', -, -⟩ := sanitizeRequestPath_eq_ok.mp hagain
          exact hne'
        have hsame := joinParts_injective (by simp) hne' hslash
          (fun part hpart => (hharmless part hpart).slash) hjoin
        have hpart : trimEndMatches tomlSuffix last
            ∈ pathParts .unix (joinParts (init ++ [last])) := by
          rw [← hsame]
          exact List.mem_append_right _ List.mem_cons_self
        have hok := hharmless _ hpart
        simp only [List.mem_cons, List.not_mem_nil, or_false, not_or]
        exact ⟨hok.nonempty, hok.dot, hok.dots⟩

end Ends

/-- An accepted path stays inside `requests/` exactly when the ends of its parts are plain. -/
theorem staysInside_iff {rules : PathRules} {rel r : Text}
    (h : sanitizeRequestPath rules rel = .ok r) :
    StaysInside r ↔ PlainEnds (pathParts rules rel) := by
  obtain ⟨-, -, hne, hharmless, rfl⟩ := sanitizeRequestPath_eq_ok.mp h
  exact ⟨plainEnds_of_staysInside hne hharmless, staysInside_of_plainEnds hne hharmless⟩

/-- A path with a dot in front and the extension stays inside. -/
theorem staysInside_iff_users : ∃ r,
    sanitizeRequestPath .unix "./users/me.toml".toList = .ok r ∧ StaysInside r := by
  have hok : sanitizeRequestPath .unix "./users/me.toml".toList = .ok "users/me".toList := by
    decide +kernel
  refine ⟨_, hok, (staysInside_iff hok).mpr ?_⟩
  have hparts : pathParts .unix "./users/me.toml".toList = ["users".toList, "me".toList] := by
    decide +kernel
  rw [hparts]
  constructor
  · intro part hpart
    obtain rfl := Option.some.inj hpart
    exact ⟨fun c hc => by obtain rfl := Option.some.inj hc; decide, by decide⟩
  · intro part hpart
    obtain rfl := Option.some.inj hpart
    exact ⟨fun c hc => by obtain rfl := Option.some.inj hc; decide, by decide⟩

/-- A drive behind a dot is let through, by all rules, and is a drive in front then. -/
theorem not_staysInside_drive :
    sanitizeRequestPath .unix "./C:/x".toList = .ok "C:/x".toList ∧
      sanitizeRequestPath .windows "./C:/x".toList = .ok "C:/x".toList ∧
        ¬ StaysInside "C:/x".toList := by
  refine ⟨by decide +kernel, by decide +kernel, ?_⟩
  intro hstays
  have habs := hstays.relative .windows
  exact absurd habs (by decide)

end Gabriel.Cli
