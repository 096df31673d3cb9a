import Gabriel.Lib.Ansi
import Gabriel.Lib.Http
import Gabriel.Proofs.OutputSecrets

/-!
# `Gabriel.Proofs.TerminalOutput`: can a server drive the terminal?

A control character at a terminal can move the cursor, erase lines or change the title. Everything
that a run prints is harmless there: a control character in it is a line break, a tab, or a part
of a colour sequence of the style (`Tame`, in `Lib/Ansi`).

The texts of the server go through `Style.safe`, which leaves no control character at a terminal,
before they are painted. Painting adds the sequence of one of the `Style.codes`. Three texts do not
go through it: the method, which is a token (`clean_of_token`), the status text, which is a
registered phrase (`reasonPhrases_clean`), and the numbers, which hold digits and points
(`formatBytes_clean`, `formatDuration_clean`). The theorems:

* `safe_clean`: a text that was made safe has no control character.
* `paint_harmless`: a harmless text stays so when it is painted.
* `statusLine_harmless`, `sentLines_harmless`, `assertionLine_harmless`: the parts of a run.
* `writeRun_harmless`: all that a run prints is harmless, with colours or without.
-/

set_option autoImplicit false

namespace Gabriel.Cli

open Gabriel.Core Gabriel.Engine Text Ansi

/-- The codes of the colour sequences that a style writes. -/
def Style.codes (style : Style) : List Text :=
  if style.enabled then
    [['2'], ['1'], "32".toList, "31".toList, "33".toList, "36".toList, ['0']]
  else []

/-- The printed numbers with decimals hold digits and a point. -/
def PrintTools.PrintsNumbers (tools : PrintTools) : Prop :=
  ∀ num den digits c, c ∈ tools.decimal num den digits → c.isDigit = true ∨ c = '.'

/-! ### Caret notation -/

/-- The test of the escape is the one for control characters. -/
theorem needsEscaping_eq (c : Char) : needsEscaping c = isControl c := by
  have hbound : (c.toNat < 0xa0) ↔ (c.toNat ≤ 0x9f) := by omega
  unfold needsEscaping isControl
  rw [decide_eq_decide.mpr hbound]

/-- What a character is replaced by has no control character. -/
theorem escapeChar_clean (c : Char) : Clean (escapeChar c) := by
  unfold escapeChar
  -- The source keeps line breaks and tabs.
  by_cases hbreak : c = '\n' ∨ c = '\t'
  · rw [if_pos hbreak]
    rcases hbreak with rfl | rfl
    · decide
    · decide
  rw [if_neg hbreak]
  -- C0 and `DEL` are written with a caret.
  by_cases hlow : c.toNat < 0x20 ∨ c.toNat = 0x7f
  · rw [if_pos hlow]
    have hcaret : ∀ n < 128, n < 0x20 ∨ n = 0x7f →
        Clean ['^', Char.ofNat ((n ^^^ 0x40) &&& 0x7f)] := by decide +kernel
    exact hcaret c.toNat (by omega) hlow
  rw [if_neg hlow]
  -- C1 is written with its code.
  by_cases hhigh : 0x80 ≤ c.toNat ∧ c.toNat < 0xa0
  · rw [if_pos hhigh]
    have hcode : ∀ n < 0xa0, 0x80 ≤ n → Clean ("\\u\x7b".toList
        ++ [Nat.digitChar (n / 16), Nat.digitChar (n % 16)] ++ ['\x7d']) := by decide +kernel
    exact hcode c.toNat hhigh.2 hhigh.1
  -- The rest has no control character by the test itself.
  · rw [if_neg hhigh]
    refine Clean.singleton ?_
    rw [← needsEscaping_eq]
    simp only [needsEscaping, Bool.or_eq_false_iff, Bool.and_eq_false_iff,
      decide_eq_false_iff_not, bne_eq_false_iff_eq, beq_eq_false_iff_ne]
    refine ⟨⟨Or.inl (Or.inl ?_), ?_⟩, ?_⟩
    all_goals omega

/-- The caret notation has no control characters. -/
theorem escapeControls_clean (text : Text) : Clean (escapeControls text) := by
  unfold escapeControls
  split
  · exact Clean.flatMap fun c _ => escapeChar_clean c
  · rename_i hno
    intro c hc
    rw [← needsEscaping_eq, ← Bool.not_eq_true]
    exact fun h => hno (List.any_eq_true.mpr ⟨c, hc, h⟩)

section Terminal

variable {style : Style}

/-- At a terminal, a text that was made safe has no control character. -/
theorem safe_clean (htty : style.tty = true) (text : Text) : Clean (style.safe text) := by
  show Clean (if style.tty then escapeControls text else text)
  rw [if_pos htty]
  exact escapeControls_clean text

/-- A text that is made safe for a terminal does nothing there. -/
theorem safe_harmless (htty : style.tty = true) (text : Text) :
    Tame style.codes (style.safe text) := Tame.of_clean (safe_clean htty text)

/-! ### Colours -/

/-- A harmless text stays harmless when it is painted. -/
theorem paint_harmless {code text : Text}
    (hcode : code ∈ [['2'], ['1'], "32".toList, "31".toList, "33".toList, "36".toList])
    (h : Tame style.codes text) : Tame style.codes (style.paint code text) := by
  unfold Style.paint
  by_cases henabled : style.enabled = true
  · rw [if_pos henabled]
    have hcodes : style.codes = [['2'], ['1'], "32".toList, "31".toList, "33".toList,
      "36".toList] ++ [['0']] := if_pos henabled
    show Tame style.codes (sgr code ++ text ++ sgr ['0'])
    refine h.painted ?_ ?_
    · rw [hcodes]
      exact List.mem_append_left _ hcode
    · rw [hcodes]
      exact List.mem_append_right _ List.mem_cons_self
  · rwa [if_neg henabled]

/-- Dim text is as harmless as the text. -/
theorem dim_harmless {text : Text} (h : Tame style.codes text) :
    Tame style.codes (style.dim text) := paint_harmless (by decide) h

/-- So is bold text. -/
theorem bold_harmless {text : Text} (h : Tame style.codes text) :
    Tame style.codes (style.bold text) := paint_harmless (by decide) h

/-- So is green text. -/
theorem green_harmless {text : Text} (h : Tame style.codes text) :
    Tame style.codes (style.green text) := paint_harmless (by decide) h

/-- So is red text. -/
theorem red_harmless {text : Text} (h : Tame style.codes text) :
    Tame style.codes (style.red text) := paint_harmless (by decide) h

/-- So is yellow text. -/
theorem yellow_harmless {text : Text} (h : Tame style.codes text) :
    Tame style.codes (style.yellow text) := paint_harmless (by decide) h

/-- So is cyan text. -/
theorem cyan_harmless {text : Text} (h : Tame style.codes text) :
    Tame style.codes (style.cyan text) := paint_harmless (by decide) h

/-! ### Numbers -/

/-- A number has digits only. -/
theorem natText_clean (n : Nat) : Clean (natText n) :=
  fun _ hc => isControl_of_isDigit (isDigit_of_mem_natText hc)

/-- A status is a number in some color. -/
theorem status_harmless (status : UInt16) : Tame style.codes (style.status status) := by
  have htext : Tame style.codes (natText status.toNat) :=
    Tame.of_clean (natText_clean status.toNat)
  unfold Style.status
  split_ifs
  · exact green_harmless htext
  · exact cyan_harmless htext
  · exact yellow_harmless htext
  · exact red_harmless htext

section Numbers

variable {tools : PrintTools} (hnumbers : tools.PrintsNumbers)
include hnumbers

/-- A decimal number has digits and a point only. -/
theorem decimal_clean (num den digits : Nat) : Clean (tools.decimal num den digits) := by
  intro c hc
  rcases hnumbers num den digits c hc with hdigit | rfl
  · exact isControl_of_isDigit hdigit
  · decide

/-- A size has no control characters. -/
theorem formatBytes_clean (bytes : Nat) : Clean (formatBytes tools bytes) := by
  unfold formatBytes
  split_ifs
  · exact (natText_clean bytes).append (by decide)
  · exact (decimal_clean hnumbers _ _ _).append (by decide)
  · exact (decimal_clean hnumbers _ _ _).append (by decide)
  · exact (decimal_clean hnumbers _ _ _).append (by decide)

/-- Neither has a duration. -/
theorem formatDuration_clean (ms : UInt64) : Clean (formatDuration tools ms) := by
  have htwo : ∀ (large small : Nat) (largeUnit smallUnit : Char),
      isControl largeUnit = false → isControl smallUnit = false →
      Clean (twoUnits large small largeUnit smallUnit) := by
    intro large small largeUnit smallUnit hlarge hsmall
    refine (natText_clean large).append (Clean.cons hlarge ?_)
    by_cases hzero : small = 0
    · rw [if_pos hzero]
      exact Clean.nil
    · rw [if_neg hzero]
      exact ((natText_clean small).append (Clean.singleton hsmall)).cons (by decide)
  dsimp only [formatDuration]
  split_ifs
  · exact (natText_clean _).append (by decide)
  · exact (decimal_clean hnumbers _ _ _).append (by decide)
  · exact htwo _ _ _ _ (by decide) (by decide)
  · exact htwo _ _ _ _ (by decide) (by decide)
  · exact htwo _ _ _ _ (by decide) (by decide)

end Numbers

/-! ### The parts of a run -/

/-- The lines of a text hold its characters only. -/
theorem mem_of_mem_textLines {text line : Text} {c : Char} (h : line ∈ textLines text)
    (hc : c ∈ line) : c ∈ text := by
  have hne : text.splitOn '\n' ≠ [] := List.splitOn_ne_nil _ _
  rcases List.mem_append.mp h with h | h
  · obtain ⟨piece, hpiece, rfl⟩ := List.mem_map.mp h
    have hmem : c ∈ piece := by
      unfold stripCarriageReturn at hc
      split at hc
      · exact List.dropLast_subset _ hc
      · exact hc
    exact mem_of_mem_splitOn (List.dropLast_subset _ hpiece) hmem
  · split at h
    · exact absurd h List.not_mem_nil
    · obtain rfl := List.mem_singleton.mp h
      rw [List.getLastD_eq_getLast?, List.getLast?_eq_some_getLast hne, Option.getD_some] at hc
      exact mem_of_mem_splitOn (List.getLast_mem hne) hc

/-- Indentation adds spaces. -/
theorem indent_harmless {text : Text} (h : Clean text) (spaces : Nat) :
    Tame style.codes (indent text spaces) := by
  refine Tame.intercalate (Tame.of_clean (by decide)) fun line hline => ?_
  obtain ⟨piece, hpiece, rfl⟩ := List.mem_map.mp hline
  refine Tame.of_clean (Clean.append ?_ (h.mono fun c hc => mem_of_mem_textLines hpiece hc))
  intro c hc
  rw [List.eq_of_mem_replicate hc]
  decide

/-- A line break after each harmless line. -/
theorem printed_harmless {lines : List Text} (h : ∀ line ∈ lines, Tame style.codes line) :
    Tame style.codes (printed lines) :=
  Tame.flatMap fun line hline => (h line hline).append (Tame.of_clean (by decide))

/-- A space between two harmless texts. -/
theorem spaced_harmless {s t : Text} (hs : Tame style.codes s)
    (ht : Tame style.codes t) : Tame style.codes (s ++ ' ' :: t) :=
  hs.append (ht.char (by decide))

/-- A header is printed safe. -/
theorem headerLine_harmless (htty : style.tty = true) (redactor : Redactor)
    (header : Text × Text) : Tame style.codes (headerLine style redactor header) := by
  have hindent : Tame style.codes "  ".toList := Tame.of_clean (by decide)
  exact spaced_harmless (hindent.append (dim_harmless (safe_harmless htty _)))
    (safe_harmless htty _)

/-- So are the lines of what was sent. -/
theorem sentLines_harmless (htty : style.tty = true) (redactor : Redactor) (sent : SentRequest) :
    ∀ line ∈ sentLines style redactor sent, Tame style.codes line := by
  intro line hline
  simp only [sentLines, List.mem_append, List.mem_map, List.mem_singleton] at hline
  rcases hline with (⟨header, -, rfl⟩ | hbody) | rfl
  · exact headerLine_harmless htty redactor header
  · cases hsent : sent.body with
    | none =>
      rw [hsent] at hbody
      exact absurd hbody List.not_mem_nil
    | some body =>
      rw [hsent] at hbody
      rcases List.mem_cons.mp hbody with rfl | hbody
      · exact dim_harmless (Tame.of_clean (by decide))
      · rw [List.mem_singleton.mp hbody]
        exact indent_harmless (safe_clean htty _) 4
  · exact Tame.nil

/-- So is a captured variable. -/
theorem capturedLine_harmless (htty : style.tty = true) (redactor : Redactor)
    (captured : Text × Text) : Tame style.codes (capturedLine style redactor captured) := by
  have hlabel : Tame style.codes (style.cyan "captured".toList) :=
    cyan_harmless (Tame.of_clean (by decide))
  have hequals : Tame style.codes " = ".toList := Tame.of_clean (by decide)
  exact ((spaced_harmless hlabel (safe_harmless htty _)).append hequals).append
    (safe_harmless htty _)

/-- So is an assertion. -/
theorem assertionLine_harmless (htty : style.tty = true) (assertion : AssertionOutcome) :
    Tame style.codes (assertionLine style assertion) := by
  unfold assertionLine
  split
  · exact spaced_harmless (green_harmless (Tame.of_clean (by decide))) (safe_harmless htty _)
  · exact spaced_harmless
      (spaced_harmless (red_harmless (Tame.of_clean (by decide))) (safe_harmless htty _))
      (dim_harmless (safe_harmless htty _))

/-- The status line, for a status text without control characters. -/
theorem statusLine_harmless {tools : PrintTools} (hnumbers : tools.PrintsNumbers)
    {outcome : FinishedRun} (hstatus : Clean outcome.response.statusText) :
    Tame style.codes (statusLine tools style outcome) := by
  refine Tame.intercalate (Tame.of_clean (by decide)) fun part hpart => ?_
  simp only [List.mem_cons, List.not_mem_nil, or_false] at hpart
  rcases hpart with rfl | rfl | rfl | rfl | rfl
  · exact status_harmless _
  · exact dim_harmless (Tame.of_clean hstatus)
  · exact dim_harmless (Tame.of_clean (by decide))
  · exact Tame.of_clean (formatDuration_clean hnumbers _)
  · exact dim_harmless (Tame.of_clean (formatBytes_clean hnumbers _))

/-- A section is as harmless as its lines. -/
theorem section_harmless {lines : List Text} (h : ∀ line ∈ lines, Tame style.codes line) :
    ∀ line ∈ section_ lines, Tame style.codes line := by
  intro line hline
  unfold section_ at hline
  split at hline
  · exact absurd hline List.not_mem_nil
  · rcases List.mem_cons.mp hline with rfl | hline
    · exact Tame.nil
    · exact h line hline

end Terminal

/-! ### Methods and reason phrases -/

/-- A token has no control character. -/
theorem clean_of_token {t : Text} (h : Http.IsToken t) : Clean t := by
  intro c hc
  have hmarks : Clean "!#$%&'*+-.^_|~".toList := by decide
  have htoken := h.2 c hc
  simp only [Http.isTokenChar, Bool.or_eq_true, decide_eq_true_eq] at htoken
  rcases htoken with (halphanum | hmark) | rfl
  · refine isControl_of_printable ?_
    simp only [Char.isAlphanum, Char.isAlpha, Char.isUpper, Char.isLower, Char.isDigit,
      ge_iff_le, UInt32.le_iff_toNat_le, Bool.or_eq_true, Bool.and_eq_true,
      decide_eq_true_eq] at halphanum
    have hrange : (65 ≤ c.toNat ∧ c.toNat ≤ 90) ∨ (97 ≤ c.toNat ∧ c.toNat ≤ 122)
        ∨ (48 ≤ c.toNat ∧ c.toNat ≤ 57) := by
      rcases halphanum with (hupper | hlower) | hdigit
      · exact Or.inl hupper
      · exact Or.inr (Or.inl hlower)
      · exact Or.inr (Or.inr hdigit)
    omega
  · exact hmarks c hmark
  · decide

/-- A registered reason phrase has no control character. -/
theorem reasonPhrases_clean : ∀ phrase ∈ Http.reasonPhrases, Clean phrase := by decide +kernel

/-! ### A completed run -/

/-- **What a run prints cannot drive the terminal**, with colours or without: its control
characters are line breaks, tabs, and the complete colour sequences of the style. -/
theorem writeRun_harmless {tools : PrintTools} (hnumbers : tools.PrintsNumbers)
    {outcome : FinishedRun} (hmethod : Http.IsToken outcome.sent.method)
    (hstatus : outcome.response.statusText ∈ Http.reasonPhrases) {style : Style}
    (htty : style.tty = true) (redactor : Redactor) (verbose : Bool) (bodyLimit : Nat) :
    Tame style.codes (printed (writeRun tools outcome style redactor verbose bodyLimit)) := by
  refine printed_harmless fun line hline => ?_
  -- The lines in the order of the output; each block is masked, fixed or a token.
  simp only [writeRun, List.mem_append, List.mem_singleton] at hline
  rcases hline with (((((rfl | hsent) | rfl) | hheaders) | hbody) | hcaptured) | hassertions
  · exact spaced_harmless (bold_harmless (Tame.of_clean (clean_of_token hmethod)))
      (safe_harmless htty _)
  · split at hsent
    · exact sentLines_harmless htty redactor outcome.sent line hsent
    · exact absurd hsent List.not_mem_nil
  · exact statusLine_harmless hnumbers (reasonPhrases_clean _ hstatus)
  · split at hheaders
    · obtain ⟨header, -, rfl⟩ := List.mem_map.mp hheaders
      exact headerLine_harmless htty redactor header
    · exact absurd hheaders List.not_mem_nil
  · split at hbody
    · exact absurd hbody List.not_mem_nil
    · -- The body is redacted after it was cut, and made safe after that.
      simp only [List.mem_cons, List.not_mem_nil, or_false] at hbody
      rcases hbody with rfl | rfl
      · exact Tame.nil
      · exact safe_harmless htty _
  · refine section_harmless (fun line hline => ?_) line hcaptured
    obtain ⟨captured, -, rfl⟩ := List.mem_map.mp hline
    exact capturedLine_harmless htty redactor captured
  · refine section_harmless (fun line hline => ?_) line hassertions
    obtain ⟨assertion, -, rfl⟩ := List.mem_map.mp hline
    exact assertionLine_harmless htty assertion

/-- A response whose header erases the screen. -/
def erasingRun : FinishedRun :=
  { sent := { method := "GET".toList, url := "https://api.test/".toList, headers := []
              body := none }
    response := { status := 200, statusText := "OK".toList, httpVersion := []
                  headers := FieldMap.fromIter [("x-note".toList, "\x1b[2Jall is well".toList)]
                  body := Utf8.encode "\x1b]0;title\x07".toList, finalUrl := [] }
    captured := [], redirects := [], assertions := [], totalMs := 25 }

/-- The theorem for a response that tries to erase the screen. -/
theorem writeRun_harmless_erasing :
    Tame (Style.detect true false).codes
      (printed (writeRun plainTools erasingRun (.detect true false) (.new []) true 100)) :=
  writeRun_harmless (fun _ _ _ _ hc => absurd hc List.not_mem_nil) (by decide) (by decide +kernel)
    rfl (.new []) true 100

end Gabriel.Cli
