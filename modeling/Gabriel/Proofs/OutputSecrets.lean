import Gabriel.Cli.Output
import Gabriel.Proofs.Redactor

/-!
# `Gabriel.Proofs.OutputSecrets`: does the output of a run hold a secret?

`writeRun` passes some texts through the redactor (`maskedTexts`) and prints others as they are
(`bareTexts`). A secret that meets neither the layout nor the mask (`ClearOfLayout`) occurs in the
output exactly when it occurs in one of these texts as it is shown.

The redactor takes it out of every masked text. What is left are the bare texts, and at a terminal
the caret notation of control characters, which is made after redaction and can spell a secret
that the text does not hold. `Splits` is what the proof carries from block to block of the output:
what some lines show of a value, they show in bare texts or in masked ones. The theorems:

* `infix_printed_iff`: a text without a line break is printed exactly when a line holds it.
* `infix_indent_iff`, `infix_indent_masked`: what an indented body shows.
* `splits_sentLines`, `splits_body`, `splits_captured`, `splits_assertions`: the blocks.
* `splits_writeRun`: a known secret is in the output exactly when it is in one of the texts.
* `hidesSecrets_iff`: the output holds no known secret exactly when no bare text does and, at a
  terminal, no masked text spells one in caret notation.
-/

set_option autoImplicit false

namespace Gabriel.Cli

open Gabriel.Core Gabriel.Engine Text

/-! ### Texts that are printed -/

/-- A text in one of the lines. -/
def Shows (v : Text) (lines : List Text) : Prop := ∃ line ∈ lines, v <:+: line

/-- No lines show nothing. -/
@[simp] theorem shows_nil {v : Text} : ¬ Shows v [] := fun ⟨_, h, _⟩ => List.not_mem_nil h

/-- Some lines and others show what one of them shows. -/
@[simp] theorem shows_append {v : Text} {lines others : List Text} :
    Shows v (lines ++ others) ↔ Shows v lines ∨ Shows v others := by
  simp only [Shows, List.mem_append, or_and_right, exists_or]

/-- A first line or the others. -/
@[simp] theorem shows_cons {v line : Text} {lines : List Text} :
    Shows v (line :: lines) ↔ v <:+: line ∨ Shows v lines := by
  simp only [Shows, List.mem_cons, exists_eq_or_imp]

/-- The lines of a list. -/
theorem shows_map {α : Type} {v : Text} {f : α → Text} {l : List α} :
    Shows v (l.map f) ↔ ∃ a ∈ l, v <:+: f a := by
  constructor
  · rintro ⟨line, hline, hv⟩
    obtain ⟨a, ha, rfl⟩ := List.mem_map.mp hline
    exact ⟨a, ha, hv⟩
  · rintro ⟨a, ha, hv⟩
    exact ⟨f a, List.mem_map_of_mem ha, hv⟩

/-- An empty line shows nothing. -/
theorem not_infix_nil {v : Text} (h : v ≠ []) : ¬ v <:+: [] := fun hin =>
  h (List.eq_nil_of_infix_nil hin)

/-- A text without a line break is printed exactly when a line holds it. -/
theorem infix_printed_iff {v : Text} (hne : v ≠ []) (hline : '\n' ∉ v) (lines : List Text) :
    v <:+: printed lines ↔ Shows v lines := by
  induction lines with
  | nil =>
    show v <:+: [] ↔ _
    exact iff_of_false (not_infix_nil hne) shows_nil
  | cons line lines ih =>
    have hwhole : printed (line :: lines) = line ++ '\n' :: printed lines := by
      simp [printed]
    rw [hwhole, infix_append_cons_iff hline, ih, shows_cons]

/-- The labels of the layout. -/
def labels (style : Style) : List Text :=
  [style.dim "  body:".toList, style.dim ['·'], style.cyan "captured".toList, ['='],
    style.green ['✓'], style.red ['✗']]

/-- A value that meets neither the layout nor the mask. -/
structure ClearOfLayout (style : Style) (v : Text) : Prop where
  space : ' ' ∉ v
  line : '\n' ∉ v
  mask : ¬ Overlap v mask
  labels : ∀ label ∈ labels style, ¬ v <:+: label

instance (style : Style) (v : Text) : Decidable (ClearOfLayout style v) :=
  decidable_of_iff (' ' ∉ v ∧ '\n' ∉ v ∧ ¬ Overlap v mask ∧ ∀ label ∈ labels style, ¬ v <:+: label)
    ⟨fun h => ⟨h.1, h.2.1, h.2.2.1, h.2.2.2⟩, fun h => ⟨h.space, h.line, h.mask, h.labels⟩⟩

/-- The value of no known secret is printed. -/
def HidesSecrets (redactor : Redactor) (lines : List Text) : Prop :=
  ∀ v ∈ redactor.secrets, ¬ v <:+: printed lines

/-! ### What a run prints of its outcome -/

/-- The result of an assertion that did not hold, as it is shown. -/
def shownActual (style : Style) (assertion : AssertionOutcome) : Text :=
  style.dim (style.safe ("(got ".toList ++ truncate assertion.actual 80 ++ [')']))

/-- The name of a header, as it is shown. -/
def shownName (style : Style) (header : Text × Text) : Text :=
  style.dim (style.safe (header.1 ++ [':']))

/-- The texts that are printed without the redactor, as they are shown. -/
def bareTexts (tools : PrintTools) (style : Style) (outcome : FinishedRun) (verbose : Bool) :
    List Text :=
  [style.bold outcome.sent.method]
    ++ (if verbose then outcome.sent.headers.map (shownName style) else [])
    ++ [style.status outcome.response.status, style.dim outcome.response.statusText,
      formatDuration tools outcome.totalMs,
      style.dim (formatBytes tools outcome.response.body.length)]
    ++ (if verbose then outcome.response.headers.iterPairs.map (shownName style) else [])
    ++ outcome.captured.map (fun captured => style.safe captured.1)
    ++ (outcome.assertions.map (fun assertion => style.safe assertion.description)
      ++ (outcome.assertions.filter (!·.passed)).map (shownActual style))

/-- The texts that are printed through the redactor. -/
def maskedTexts (tools : PrintTools) (outcome : FinishedRun) (verbose : Bool) (bodyLimit : Nat) :
    List Text :=
  let body := renderBody tools outcome.response bodyLimit
  [outcome.sent.url]
    ++ (if verbose then outcome.sent.headers.map (·.2) ++ outcome.sent.body.toList else [])
    ++ (if verbose then outcome.response.headers.iterPairs.map (·.2) else [])
    ++ (if trim body = [] then [] else [body])
    ++ outcome.captured.map (fun captured => truncate captured.2 120)

/-! ### Lines -/

section Lines

variable {style : Style} {redactor : Redactor} {v : Text}

/-- Between two texts with a space, a value is in one of them. -/
theorem infix_spaced_iff (h : ' ' ∉ v) (a b : Text) :
    v <:+: a ++ ' ' :: b ↔ v <:+: a ∨ v <:+: b := infix_append_cons_iff h

/-- Leading spaces hold no value. -/
theorem infix_indented_iff (h : ClearOfLayout style v) (n : Nat) (t : Text) :
    v <:+: List.replicate n ' ' ++ t ↔ v <:+: t := by
  have hne := ne_nil_of_not_overlap h.mask
  induction n with
  | zero => exact Iff.rfl
  | succ n ih =>
    rw [List.replicate_succ, List.cons_append]
    have hspace := infix_spaced_iff h.space [] (List.replicate n ' ' ++ t)
    rw [List.nil_append] at hspace
    rw [hspace, or_iff_right (not_infix_nil hne)]
    exact ih

/-- A header line shows a name and a redacted value. -/
theorem infix_headerLine (h : ClearOfLayout style v) (header : Text × Text) :
    v <:+: headerLine style redactor header ↔
      v <:+: shownName style header ∨ v <:+: style.safe (redactor.apply header.2) := by
  unfold headerLine
  rw [infix_spaced_iff h.space]
  exact or_congr_left (infix_indented_iff h 2 _)

/-- The status line shows its five texts. -/
theorem infix_statusLine (h : ClearOfLayout style v) (tools : PrintTools) (outcome : FinishedRun) :
    v <:+: statusLine tools style outcome ↔
      Shows v [style.status outcome.response.status, style.dim outcome.response.statusText,
        formatDuration tools outcome.totalMs,
        style.dim (formatBytes tools outcome.response.body.length)] := by
  have hdot : ¬ v <:+: style.dim ['·'] := h.labels _ (by simp [labels])
  unfold statusLine
  simp only [List.intercalate_cons_cons, List.intercalate_singleton, List.append_assoc,
    List.singleton_append, infix_spaced_iff h.space, hdot, false_or, shows_cons, shows_nil,
    or_false]

/-- A line for a captured variable shows its name and its redacted value. -/
theorem infix_capturedLine (h : ClearOfLayout style v) (captured : Text × Text) :
    v <:+: capturedLine style redactor captured ↔
      v <:+: style.safe captured.1 ∨
        v <:+: style.safe (redactor.apply (truncate captured.2 120)) := by
  have hlabel : ¬ v <:+: style.cyan "captured".toList := h.labels _ (by simp [labels])
  have hequals : ¬ v <:+: ['='] := h.labels _ (by simp [labels])
  have hwhole : capturedLine style redactor captured
      = style.cyan "captured".toList ++ ' ' :: (style.safe captured.1 ++ ' ' :: (['='] ++ ' ' ::
        style.safe (redactor.apply (truncate captured.2 120)))) := by
    simp [capturedLine]
  rw [hwhole, infix_spaced_iff h.space, infix_spaced_iff h.space, infix_spaced_iff h.space,
    or_iff_right hlabel, or_iff_right hequals]

/-- A line for an assertion shows its description, and what was found when it does not hold. -/
theorem infix_assertionLine (h : ClearOfLayout style v) (assertion : AssertionOutcome) :
    v <:+: assertionLine style assertion ↔
      v <:+: style.safe assertion.description ∨
        assertion.passed = false ∧ v <:+: shownActual style assertion := by
  have hpassed : ¬ v <:+: style.green ['✓'] := h.labels _ (by simp [labels])
  have hfailed : ¬ v <:+: style.red ['✗'] := h.labels _ (by simp [labels])
  unfold assertionLine
  cases hresult : assertion.passed with
  | true =>
    rw [if_pos rfl, infix_spaced_iff h.space, or_iff_right hpassed]
    simp
  | false =>
    rw [if_neg (by simp), List.append_assoc, List.cons_append, infix_spaced_iff h.space,
      infix_spaced_iff h.space, or_iff_right hfailed]
    simp [shownActual]

/-! ### The indented body -/

/-- A text without a line break is in a join of lines exactly when a line holds it. -/
theorem infix_joined_iff (hne : v ≠ []) (hline : '\n' ∉ v) (lines : List Text) :
    v <:+: List.intercalate ['\n'] lines ↔ Shows v lines := by
  induction lines with
  | nil => exact iff_of_false (not_infix_nil hne) shows_nil
  | cons line lines ih =>
    cases lines with
    | nil => rw [List.intercalate_singleton, shows_cons, or_iff_left shows_nil]
    | cons next lines =>
      rw [List.intercalate_cons_cons, List.append_assoc, List.singleton_append,
        infix_append_cons_iff hline, ih, ← shows_cons]

/-- The pieces of a text between its line breaks are those before the last, and the last. -/
theorem splitOn_eq_dropLast_append (text : Text) :
    text.splitOn '\n' = (text.splitOn '\n').dropLast ++ [(text.splitOn '\n').getLastD []] := by
  have hne : text.splitOn '\n' ≠ [] := List.splitOn_ne_nil _ _
  rw [List.getLastD_eq_getLast?, List.getLast?_eq_some_getLast hne, Option.getD_some]
  exact (List.dropLast_append_getLast hne).symm

/-- The last line is left out when it is empty. -/
theorem shows_last_iff (hne : v ≠ []) (last : Text) :
    Shows v (if last = [] then [] else [last]) ↔ v <:+: last := by
  by_cases h : last = []
  · rw [if_pos h, h]
    exact iff_of_false shows_nil (not_infix_nil hne)
  · rw [if_neg h, shows_cons, or_iff_left shows_nil]

/-- What a line of a text shows is in the text. -/
theorem infix_of_shows_textLines (hne : v ≠ []) (hline : '\n' ∉ v) {text : Text}
    (h : Shows v (textLines text)) : v <:+: text := by
  rw [← @List.intercalate_splitOn Char text _ _ '\n', infix_joined_iff hne hline,
    splitOn_eq_dropLast_append]
  rw [textLines, shows_append, shows_last_iff hne] at h
  rw [shows_append, shows_cons, or_iff_left shows_nil]
  refine h.imp_left fun h => ?_
  obtain ⟨piece, hmem, hv⟩ := shows_map.mp h
  refine ⟨piece, hmem, hv.trans ?_⟩
  unfold stripCarriageReturn
  split
  · exact (List.dropLast_prefix piece).isInfix
  · exact List.infix_rfl

/-- Without carriage returns, the lines show all that is in the text. -/
theorem shows_textLines (hne : v ≠ []) (hline : '\n' ∉ v) {text : Text} (hcr : '\r' ∉ text)
    (h : v <:+: text) : Shows v (textLines text) := by
  rw [← @List.intercalate_splitOn Char text _ _ '\n', infix_joined_iff hne hline,
    splitOn_eq_dropLast_append, shows_append, shows_cons, or_iff_left shows_nil] at h
  rw [textLines, shows_append, shows_last_iff hne]
  refine h.imp_left fun h => ?_
  obtain ⟨piece, hmem, hv⟩ := h
  have hkept : stripCarriageReturn piece = piece := by
    refine if_neg fun hlast => hcr ?_
    exact mem_of_mem_splitOn (List.dropLast_subset _ hmem) (List.mem_of_getLast? hlast)
  rw [shows_map]
  exact ⟨piece, hmem, by rwa [hkept]⟩

/-- An indented text shows what its lines show. -/
theorem infix_indent_iff (h : ClearOfLayout style v) (text : Text) (n : Nat) :
    v <:+: indent text n ↔ Shows v (textLines text) := by
  have hne := ne_nil_of_not_overlap h.mask
  unfold indent
  rw [infix_joined_iff hne h.line, shows_map]
  exact exists_congr fun line => and_congr_right fun _ => infix_indented_iff h n line

/-- Caret notation leaves no carriage return. -/
theorem carriageReturn_not_mem_escapeControls (text : Text) : '\r' ∉ escapeControls text := by
  -- One character becomes a caret and a letter, an escape with hex digits, or itself.
  have hchar : ∀ c : Char, '\r' ∉ escapeChar c := by
    intro c
    unfold escapeChar
    split
    · rename_i hc
      rcases hc with rfl | rfl
      · decide
      · decide
    · split
      · rename_i hc
        have hlow : ∀ n < 128, n < 0x20 ∨ n = 0x7f →
            '\r' ∉ ['^', Char.ofNat ((n ^^^ 0x40) &&& 0x7f)] := by decide +kernel
        exact hlow c.toNat (by omega) hc
      · split
        · rename_i hc
          have hhigh : ∀ n < 0xa0, 0x80 ≤ n → '\r' ∉ "\\u\x7b".toList
              ++ [Nat.digitChar (n / 16), Nat.digitChar (n % 16)] ++ ['\x7d'] := by
            decide +kernel
          exact hhigh c.toNat hc.2 hc.1
        · rename_i hlow _
          rw [List.mem_singleton]
          rintro rfl
          exact hlow (Or.inl (by decide))
  -- The text is only changed when it has a control character.
  unfold escapeControls
  split
  · intro hmem
    obtain ⟨c, -, hc⟩ := List.mem_flatMap.mp hmem
    exact hchar c hc
  · rename_i hno
    intro hmem
    exact hno (List.any_eq_true.mpr ⟨'\r', hmem, by decide⟩)

/-- The lines of a redacted body show a secret only when the whole body does. -/
theorem infix_indent_masked (h : ClearOfLayout style v) (hmem : v ∈ redactor.secrets)
    (text : Text) (n : Nat) :
    v <:+: indent (style.safe (redactor.apply text)) n
      ↔ v <:+: style.safe (redactor.apply text) := by
  have hne := ne_nil_of_not_overlap h.mask
  rw [infix_indent_iff h]
  refine ⟨infix_of_shows_textLines hne h.line, fun hin => ?_⟩
  unfold Style.safe at hin ⊢
  by_cases htty : style.tty = true
  · rw [if_pos htty] at hin ⊢
    exact shows_textLines hne h.line (carriageReturn_not_mem_escapeControls _) hin
  · rw [if_neg htty] at hin
    exact absurd hin (Redactor.not_infix_apply hmem h.mask text)

/-- An empty line before some lines shows nothing. -/
theorem shows_section (hne : v ≠ []) (lines : List Text) :
    Shows v (section_ lines) ↔ Shows v lines := by
  unfold section_
  by_cases h : lines = []
  · rw [if_pos h, h]
  · rw [if_neg h, shows_cons, or_iff_right (not_infix_nil hne)]

end Lines

/-! ### The whole output -/

section Blocks

variable {v : Text} {style : Style} {redactor : Redactor}

/-- What some lines show of a value, they show in bare texts or in masked ones. -/
def Splits (style : Style) (redactor : Redactor) (v : Text)
    (lines bare masked : List Text) : Prop :=
  Shows v lines ↔ Shows v bare ∨ Shows v (masked.map fun t => style.safe (redactor.apply t))

/-- No lines are split into nothing. -/
theorem splits_nil : Splits style redactor v [] [] [] := (or_self_iff).symm

/-- Lines that are split, one block after the other. -/
theorem Splits.append {lines bare masked lines' bare' masked' : List Text}
    (h : Splits style redactor v lines bare masked)
    (h' : Splits style redactor v lines' bare' masked') :
    Splits style redactor v (lines ++ lines') (bare ++ bare') (masked ++ masked') := by
  unfold Splits at h h' ⊢
  rw [List.map_append, shows_append, shows_append, shows_append, h, h', or_or_or_comm]

/-- A block without masked texts. -/
theorem Splits.append_bare {lines bare masked lines' bare' : List Text}
    (h : Splits style redactor v lines bare masked)
    (h' : Splits style redactor v lines' bare' []) :
    Splits style redactor v (lines ++ lines') (bare ++ bare') masked := by
  have happend := h.append h'
  rwa [List.append_nil] at happend

/-- A block without bare texts. -/
theorem Splits.append_masked {lines bare masked lines' masked' : List Text}
    (h : Splits style redactor v lines bare masked)
    (h' : Splits style redactor v lines' [] masked') :
    Splits style redactor v (lines ++ lines') bare (masked ++ masked') := by
  have happend := h.append h'
  rwa [List.append_nil] at happend

/-- Header lines show names and redacted values. -/
theorem splits_headerLines (h : ClearOfLayout style v) (headers : List (Text × Text)) :
    Splits style redactor v (headers.map (headerLine style redactor))
      (headers.map (shownName style)) (headers.map (·.2)) := by
  unfold Splits
  rw [List.map_map]
  simp only [shows_map, infix_headerLine h, and_or_left, exists_or, Function.comp_apply]

/-- The verbose output of what was sent. -/
theorem splits_sentLines (h : ClearOfLayout style v) (hmem : v ∈ redactor.secrets)
    (sent : SentRequest) :
    Splits style redactor v (sentLines style redactor sent) (sent.headers.map (shownName style))
      (sent.headers.map (·.2) ++ sent.body.toList) := by
  have hempty : ¬ v <:+: [] := not_infix_nil (ne_nil_of_not_overlap h.mask)
  have hlabel : ¬ v <:+: style.dim "  body:".toList := h.labels _ List.mem_cons_self
  have hbody : Splits style redactor v (sent.body.elim [] fun body =>
      [style.dim "  body:".toList, indent (style.safe (redactor.apply body)) 4])
      [] sent.body.toList := by
    unfold Splits
    cases sent.body with
    | none => exact splits_nil
    | some body =>
      show Shows v [_, _] ↔ _ ∨ Shows v [_]
      rw [shows_cons, shows_cons, shows_cons, or_iff_right hlabel, infix_indent_masked h hmem,
        or_iff_right shows_nil]
  have hblank : Splits style redactor v [[]] [] [] := by
    show Shows v [[]] ↔ Shows v [] ∨ Shows v []
    rw [shows_cons, or_iff_right hempty, or_self_iff]
  have hall := ((splits_headerLines h sent.headers).append_masked hbody).append_masked hblank
  rwa [List.append_nil] at hall

/-- The body of the response. -/
theorem splits_body (h : ClearOfLayout style v) (body : Text) :
    Splits style redactor v (if trim body = [] then [] else [[], style.safe (redactor.apply body)])
      [] (if trim body = [] then [] else [body]) := by
  have hempty : ¬ v <:+: [] := not_infix_nil (ne_nil_of_not_overlap h.mask)
  by_cases hblank : trim body = []
  · rw [if_pos hblank, if_pos hblank]
    exact splits_nil
  · rw [if_neg hblank, if_neg hblank]
    show Shows v [_, _] ↔ Shows v [] ∨ Shows v [_]
    rw [shows_cons, or_iff_right hempty, or_iff_right shows_nil]

/-- The captured variables. -/
theorem splits_captured (h : ClearOfLayout style v) (captured : List (Text × Text)) :
    Splits style redactor v (section_ (captured.map (capturedLine style redactor)))
      (captured.map fun captured => style.safe captured.1)
      (captured.map fun captured => truncate captured.2 120) := by
  unfold Splits
  rw [shows_section (ne_nil_of_not_overlap h.mask), List.map_map]
  simp only [shows_map, infix_capturedLine h, and_or_left, exists_or, Function.comp_apply]

/-- The assertions. -/
theorem splits_assertions (h : ClearOfLayout style v) (assertions : List AssertionOutcome) :
    Splits style redactor v (section_ (assertions.map (assertionLine style)))
      (assertions.map (fun assertion => style.safe assertion.description)
        ++ (assertions.filter (!·.passed)).map (shownActual style)) [] := by
  unfold Splits
  rw [shows_section (ne_nil_of_not_overlap h.mask), List.map_nil, or_iff_left shows_nil,
    shows_append]
  simp only [shows_map, infix_assertionLine h, and_or_left, exists_or, List.mem_filter,
    Bool.not_eq_true', and_assoc]

end Blocks

section Output

variable (tools : PrintTools) (outcome : FinishedRun) (style : Style) (redactor : Redactor)
  (verbose : Bool) (bodyLimit : Nat) {v : Text}

/-- A known secret that meets no fixed text is in the output exactly when it is in one of the
texts. -/
theorem splits_writeRun (h : ClearOfLayout style v) (hmem : v ∈ redactor.secrets) :
    Splits style redactor v (writeRun tools outcome style redactor verbose bodyLimit)
      (bareTexts tools style outcome verbose) (maskedTexts tools outcome verbose bodyLimit) := by
  -- Each block of the output splits into what is printed bare and what is masked.
  have hfirst : Splits style redactor v
      [style.bold outcome.sent.method ++ ' ' :: style.safe (redactor.apply outcome.sent.url)]
      [style.bold outcome.sent.method] [outcome.sent.url] := by
    show Shows v [_] ↔ Shows v [_] ∨ Shows v [_]
    simp only [shows_cons, infix_spaced_iff h.space, or_iff_left shows_nil]
  have hstatus : Splits style redactor v [statusLine tools style outcome]
      [style.status outcome.response.status, style.dim outcome.response.statusText,
        formatDuration tools outcome.totalMs,
        style.dim (formatBytes tools outcome.response.body.length)] [] := by
    show Shows v [_] ↔ Shows v _ ∨ Shows v []
    rw [or_iff_left shows_nil, shows_cons, or_iff_left shows_nil, infix_statusLine h]
  have hbody : Splits style redactor v _ _ _ :=
    splits_body h (renderBody tools outcome.response bodyLimit)
  have hcaptured : Splits style redactor v _ _ _ := splits_captured h outcome.captured
  have hassertions : Splits style redactor v _ _ _ := splits_assertions h outcome.assertions
  -- The blocks are put together in the order of the output.
  unfold writeRun bareTexts maskedTexts
  cases verbose with
  | false =>
    simp only [Bool.false_eq_true, if_false, List.append_nil]
    exact (((hfirst.append_bare hstatus).append_masked hbody).append hcaptured).append_bare
      hassertions
  | true =>
    simp only [if_true]
    have hsent := splits_sentLines h hmem outcome.sent
    have hreceived : Splits style redactor v _ _ _ :=
      splits_headerLines h outcome.response.headers.iterPairs
    exact (((((hfirst.append hsent).append_bare hstatus).append hreceived).append_masked
      hbody).append hcaptured).append_bare hassertions

/-- The output of a run holds no known secret exactly when no text that is printed without the
redactor does, and, at a terminal, caret notation spells none in the texts that were redacted. -/
theorem hidesSecrets_iff (hclear : ∀ v ∈ redactor.secrets, ClearOfLayout style v) :
    HidesSecrets redactor (writeRun tools outcome style redactor verbose bodyLimit) ↔
      ∀ v ∈ redactor.secrets, ¬ Shows v (bareTexts tools style outcome verbose) ∧
        (style.tty = true → ∀ t ∈ maskedTexts tools outcome verbose bodyLimit,
          ¬ v <:+: escapeControls (redactor.apply t)) := by
  refine forall₂_congr fun v hmem => ?_
  have h := hclear v hmem
  have hmasked : Shows v ((maskedTexts tools outcome verbose bodyLimit).map
      fun t => style.safe (redactor.apply t)) ↔
        style.tty = true ∧ ∃ t ∈ maskedTexts tools outcome verbose bodyLimit,
          v <:+: escapeControls (redactor.apply t) := by
    rw [shows_map]
    unfold Style.safe
    by_cases htty : style.tty = true
    · rw [and_iff_right htty]
      simp only [if_pos htty]
    · simp only [if_neg htty]
      -- Into a pipe, a redacted text is printed as it is.
      refine iff_of_false ?_ fun hcaret => htty hcaret.1
      rintro ⟨t, -, hin⟩
      exact Redactor.not_infix_apply hmem h.mask t hin
  have hsplits := splits_writeRun tools outcome style redactor verbose bodyLimit h hmem
  unfold Splits at hsplits
  rw [infix_printed_iff (ne_nil_of_not_overlap h.mask) h.line, hsplits, hmasked, not_or, not_and,
    not_exists]
  simp only [not_and]

end Output

/-! ### A response that echoes a token -/

/-- Libraries that know no JSON. -/
def plainTools : PrintTools :=
  { platform := emptyPlatform
    json := { render := fun _ => [], pretty := fun _ => [], valuesEqual := fun _ _ => false,
              less := fun _ _ => false }
    decimal := fun _ _ _ => [] }

/-- A token from the vault. -/
def canary : Text := "sk-live-CANARY-7788".toList

/-- The redactor of a run that used the token. -/
def canaryRedactor : Redactor := .new [canary]

/-- Standard output is a pipe. -/
def pipe : Style := .detect false false

/-- A run that sent a token and got it back in the body, with the result of one assertion. -/
def echoRun (token : Text) (assertion : AssertionOutcome) : FinishedRun :=
  { sent := { method := "GET".toList, url := "https://api.test/?token=".toList ++ token
              headers := [("Authorization".toList, "Bearer ".toList ++ token)], body := none }
    response := { status := 200, statusText := "OK".toList, httpVersion := [], headers := .empty
                  body := Utf8.encode token, finalUrl := [] }
    captured := [("token".toList, token)], redirects := [], assertions := [assertion]
    totalMs := 25 }

/-- The status is as expected. -/
def statusHolds : AssertionOutcome := ⟨"status == 200".toList, true, "200".toList⟩

/-- The body is not as expected; it is what was found. -/
def bodyFails : AssertionOutcome := ⟨"body == gone".toList, false, canary⟩

/-- The layout of the sample shows no part of the secret. -/
theorem clear_canary : ∀ v ∈ canaryRedactor.secrets, ClearOfLayout pipe v := by decide +kernel

/-- The theorem for a request whose assertion is about its status. -/
theorem hidesSecrets_iff_status :
    HidesSecrets canaryRedactor
      (writeRun plainTools (echoRun canary statusHolds) pipe canaryRedactor true 10000) := by
  rw [hidesSecrets_iff _ _ _ _ _ _ clear_canary]
  intro v hmem
  rw [show v = canary from List.mem_singleton.mp hmem]
  refine ⟨?_, fun htty => absurd htty (by decide)⟩
  have hbare : ∀ t ∈ bareTexts plainTools pipe (echoRun canary statusHolds) true,
      ¬ canary <:+: t := by
    decide +kernel
  exact fun ⟨t, ht, hin⟩ => hbare t ht hin

/-- What a failed assertion found is printed as it is. -/
theorem not_hidesSecrets_body :
    (∀ v ∈ canaryRedactor.secrets, ClearOfLayout pipe v) ∧ ¬ HidesSecrets canaryRedactor
      (writeRun plainTools (echoRun canary bodyFails) pipe canaryRedactor true 10000) := by
  refine ⟨clear_canary, fun hhides => ?_⟩
  exact absurd (hhides canary List.mem_cons_self) (by decide +kernel)

end Gabriel.Cli
