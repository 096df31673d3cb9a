import Gabriel.Lib.Markup
import Gabriel.Cli.Report

/-!
# `Gabriel.Proofs.HtmlPage`: what a reader sees of the HTML report

`toHtml` is a row of literals and escaped values. A reader goes through it literal by literal, and
a value is always in one of the texts that are shown: `html` escapes what could open a tag
(`not_mem_html`), and drops no character, unlike `xml` (`htmlEscaper_kept`). So what is shown of a
value is the value.

`At P t u A` is the invariant of the reading: behind the text `t` of the page the reader is inside
a text that has been `u` so far, and what it saw before has the property `P` exactly when `A`. A
value moves it by the value (`At.value`), a literal ends the text (`At.literal`). The literals of
the page are definitions of their own, so that each of them is scanned once, by evaluation. The
theorems:

* `at_htmlCase`: the reader comes through a request, and has seen its numbers and redacted texts.
* `at_htmlHead`: and so it does through what stands above the requests.
* `forall_segments_toHtml`: a property of texts that does not look at the fixed ones
  (`PageProperty`) holds of all that is shown exactly when it holds of the bare values and of the
  redacted ones.
-/

set_option autoImplicit false

namespace Gabriel.Cli

open Gabriel.Core Text Markup

/-! ### The escaper -/

/-- The references that `html` writes. -/
def htmlRefs : Refs :=
  [("amp;".toList, '&'), ("lt;".toList, '<'), ("gt;".toList, '>'), ("quot;".toList, '"'),
    ("#39;".toList, '\'')]

/-- What `html` writes for a character: the character itself when it is not special, or one of its
references. -/
theorem htmlChar_lawful (c : Char) : htmlChar c = [] ∨ htmlChar c = [c] ∧ c ∉ special ∨
    ∃ r ∈ htmlRefs, r.2 = c ∧ htmlChar c = '&' :: r.1 := by
  unfold htmlChar
  split_ifs with hamp hlt hgt hquot hapos
  · exact Or.inr (Or.inr ⟨("amp;".toList, '&'), by decide, hamp.symm, rfl⟩)
  · exact Or.inr (Or.inr ⟨("lt;".toList, '<'), by decide, hlt.symm, rfl⟩)
  · exact Or.inr (Or.inr ⟨("gt;".toList, '>'), by decide, hgt.symm, rfl⟩)
  · exact Or.inr (Or.inr ⟨("quot;".toList, '"'), by decide, hquot.symm, rfl⟩)
  · exact Or.inr (Or.inr ⟨("#39;".toList, '\''), by decide, hapos.symm, rfl⟩)
  · exact Or.inr (Or.inl ⟨rfl, by simp [special, hamp, hlt, hgt, hquot]⟩)

/-- `html` as an escaper. -/
def htmlEscaper : Escaper where
  refs := htmlRefs
  escapeChar := htmlChar
  names := by
    intro r hr c hc
    have hall : ∀ r ∈ htmlRefs, r.1.all (fun c => c ∉ special) = true := by decide
    exact of_decide_eq_true (List.all_eq_true.mp (hall r hr) c hc)
  apart := by decide
  lawful := htmlChar_lawful

/-- No character is dropped. -/
theorem htmlEscaper_kept (t : Text) : htmlEscaper.kept t = t := by
  refine List.filter_eq_self.mpr fun c _ => decide_eq_true ?_
  show htmlChar c ≠ []
  unfold htmlChar
  split_ifs <;> exact List.cons_ne_nil _ _

/-- What is read of a written value. -/
theorem unescape_html (t : Text) : unescape htmlRefs (html t) = t :=
  (htmlEscaper.unescape_escape t).trans (htmlEscaper_kept t)

/-- Texts are escaped one after the other. -/
theorem html_append (s t : Text) : html (s ++ t) = html s ++ html t := List.flatMap_append

/-- An escaped text opens no tag. -/
theorem not_mem_html (t : Text) : '<' ∉ html t := htmlEscaper.not_mem_escape (by decide)

/-- A number is written as it is. -/
theorem html_natText (n : Nat) : html (natText n) = natText n := by
  have hplain : ∀ t : Text, (∀ c ∈ t, c.isDigit = true) → html t = t := by
    intro t
    induction t with
    | nil => exact fun _ => rfl
    | cons c t ih =>
      intro ht
      have hc := ht c List.mem_cons_self
      have hne : ∀ d : Char, d.isDigit = false → c ≠ d := by
        rintro d hd rfl
        exact Bool.false_ne_true (hd.symm.trans hc)
      have hchar : htmlChar c = [c] := by
        unfold htmlChar
        rw [if_neg (hne _ (by decide)), if_neg (hne _ (by decide)), if_neg (hne _ (by decide)),
          if_neg (hne _ (by decide)), if_neg (hne _ (by decide))]
      rw [html, List.flatMap_cons, hchar, ← html, ih fun d hd => ht d (List.mem_cons_of_mem _ hd)]
      rfl
  exact hplain _ fun _ hc => Nat.isDigit_of_mem_toDigits (by decide) (by decide) hc

/-! ### The literals -/

section Literals

set_option maxRecDepth 4000 in
/-- The page up to its title. -/
def startLiteral : Literal :=
  have hraw : htmlStart = _ := (List.append_assoc ..).trans
    (toList_append_eq rfl (toList_append_eq rfl (toList_eq rfl)))
  Literal.of hraw [] "Gabriel run — ".toList (by decide +kernel)

/-- From the title to the style. -/
def styleStart : Literal :=
  have hraw : "</title>\n<style>\n".toList = _ := toList_eq rfl
  Literal.of hraw [] ['\n'] (by decide +kernel)

/-- From the style to the heading. -/
def styleEnd : Literal :=
  have hraw : "</style>\n</head>\n<body>\n<h1>".toList = _ := toList_eq rfl
  Literal.of hraw [] [] (by decide +kernel)

set_option maxRecDepth 4000 in
/-- The style is character data, without references. -/
theorem htmlCss_plain {c : Char} (h : c ∈ htmlCss.flatMap String.toList) :
    c ≠ '<' ∧ c ≠ '&' ∧ c.toNat < 128 := by
  let plain : Char → Bool := fun c => c ≠ '<' ∧ c ≠ '&' ∧ c.toNat < 128
  have hline : ∀ {s : String} {chars : Text}, String.ofList chars = s →
      chars.all plain = true → s.toList.all plain = true := by
    intro s chars hs hchars
    rwa [toList_eq hs]
  have hlines : ∀ line ∈ htmlCss, line.toList.all plain = true := by
    simp only [htmlCss, List.forall_mem_cons]
    repeat' apply And.intro
    all_goals first
      | exact hline rfl (by decide +kernel)
      | exact fun _ h => absurd h List.not_mem_nil
  obtain ⟨line, hline, hmem⟩ := List.mem_flatMap.mp h
  exact of_decide_eq_true (List.all_eq_true.mp (hlines line hline) _ hmem)

/-- The style sheet opens no tag. -/
theorem not_mem_htmlCss : '<' ∉ htmlCss.flatMap String.toList := fun h => (htmlCss_plain h).1 rfl

/-- The page from its title to its heading. -/
def styleLiteral : Literal := styleStart.between styleEnd _ not_mem_htmlCss

/-- The literal of the style sheet is what the page writes. -/
theorem styleLiteral_raw : styleLiteral.raw = htmlStyle := rfl

/-- The verdict. -/
def verdictLiteral : Bool → Literal
  | true =>
    have hraw : " — <span class=\"".toList ++ ("pass".toList ++ ("\">".toList ++ ("passed".toList
        ++ "</span></h1>\n<div class=\"sub\">".toList))) = _ :=
      toList_append_eq rfl (toList_append_eq rfl (toList_append_eq rfl (toList_append_eq rfl
        (toList_eq rfl))))
    Literal.of hraw " — ".toList [] (by decide +kernel)
  | false =>
    have hraw : " — <span class=\"".toList ++ ("fail".toList ++ ("\">".toList ++ ("failed".toList
        ++ "</span></h1>\n<div class=\"sub\">".toList))) = _ :=
      toList_append_eq rfl (toList_append_eq rfl (toList_append_eq rfl (toList_append_eq rfl
        (toList_eq rfl))))
    Literal.of hraw " — ".toList [] (by decide +kernel)

/-- What stands in front of the environment. -/
def environmentStart : Literal :=
  have hraw : "environment <b>".toList = _ := toList_eq rfl
  Literal.of hraw "environment ".toList [] (by decide +kernel)

/-- What stands behind it. -/
def environmentEnd : Literal :=
  have hraw : "</b> · ".toList = _ := toList_eq rfl
  Literal.of hraw [] " · ".toList (by decide +kernel)

/-- The totals start. -/
def totalsStart : Literal :=
  have hraw : "</div>\n<div class=\"totals\">\n".toList = _ := toList_eq rfl
  Literal.of hraw [] ['\n'] (by decide +kernel)

/-- A total starts, up to its class. -/
def totalStart : Literal :=
  have hraw : "  <div class=\"total\">".toList ++ "<b>".toList = _ :=
    toList_append_eq rfl (toList_eq rfl)
  Literal.of hraw [' ', ' '] [] (by decide +kernel)

/-- The total of the requests that passed. -/
def totalPass : Literal :=
  have hraw : "  <div class=\"total\">".toList ++ "<b class=\"pass\">".toList = _ :=
    toList_append_eq rfl (toList_eq rfl)
  Literal.of hraw [' ', ' '] [] (by decide +kernel)

/-- The total of the requests that failed. -/
def totalFail : Literal :=
  have hraw : "  <div class=\"total\">".toList ++ "<b class=\"fail\">".toList = _ :=
    toList_append_eq rfl (toList_eq rfl)
  Literal.of hraw [' ', ' '] [] (by decide +kernel)

/-- The total of the requests that could not be sent. -/
def totalError : Literal :=
  have hraw : "  <div class=\"total\">".toList ++ "<b class=\"error\">".toList = _ :=
    toList_append_eq rfl (toList_eq rfl)
  Literal.of hraw [' ', ' '] [] (by decide +kernel)

/-- A number ends, and its label starts. -/
def totalLabel : Literal :=
  have hraw : "</b><span>".toList = _ := toList_eq rfl
  Literal.of hraw [] [] (by decide +kernel)

/-- A total ends. -/
def totalEnd : Literal :=
  have hraw : "</span></div>\n".toList = _ := toList_eq rfl
  Literal.of hraw [] ['\n'] (by decide +kernel)

/-- A block ends. -/
def divEnd : Literal :=
  have hraw : "</div>\n".toList = _ := toList_eq rfl
  Literal.of hraw [] ['\n'] (by decide +kernel)

/-- A request that passed starts, folded. -/
def passedStart : Literal :=
  have hraw : "<details class=\"case\"".toList ++ (">\n  <summary><span class=\"".toList
      ++ ("pass".toList ++ "\">●</span> <span class=\"id\">".toList)) = _ :=
    toList_append_eq rfl (toList_append_eq rfl (toList_append_eq rfl (toList_eq rfl)))
  Literal.of hraw [] [] (by decide +kernel)

/-- A request that failed starts, unfolded. -/
def failedStart : Literal :=
  have hraw : "<details class=\"case\"".toList ++ (" open".toList
      ++ (">\n  <summary><span class=\"".toList
      ++ ("fail".toList ++ "\">●</span> <span class=\"id\">".toList))) = _ :=
    toList_append_eq rfl (toList_append_eq rfl (toList_append_eq rfl (toList_append_eq rfl
      (toList_eq rfl))))
  Literal.of hraw [] [] (by decide +kernel)

/-- A request that could not be sent starts, unfolded. -/
def erroredStart : Literal :=
  have hraw : "<details class=\"case\"".toList ++ (" open".toList
      ++ (">\n  <summary><span class=\"".toList
      ++ ("error".toList ++ "\">●</span> <span class=\"id\">".toList))) = _ :=
    toList_append_eq rfl (toList_append_eq rfl (toList_append_eq rfl (toList_append_eq rfl
      (toList_eq rfl))))
  Literal.of hraw [] [] (by decide +kernel)

/-- How a request starts, by its outcome. -/
def caseStart : CaseOutcome → Literal
  | .passed => passedStart
  | .failed => failedStart
  | .errored _ => erroredStart

/-- The name of a request ends, and its method starts. -/
def caseMethod : Literal :=
  have hraw : "</span> <span class=\"method\">".toList = _ := toList_eq rfl
  Literal.of hraw [] [] (by decide +kernel)

/-- The method ends, and the URL starts. -/
def caseUrl : Literal :=
  have hraw : "</span> <span class=\"url\">".toList = _ := toList_eq rfl
  Literal.of hraw [] [] (by decide +kernel)

/-- The URL ends, the outcome follows, and the body starts up to the status. -/
def caseBody : CaseOutcome → Literal
  | .passed =>
    have hraw : "</span> <span class=\"".toList ++ ("pass".toList ++ ("\">".toList
        ++ ("passed".toList ++ ("</span></summary>\n  <div class=\"body\">\n".toList
        ++ "    <div class=\"actual\">status ".toList)))) = _ :=
      toList_append_eq rfl (toList_append_eq rfl (toList_append_eq rfl (toList_append_eq rfl
        (toList_append_eq rfl (toList_eq rfl)))))
    Literal.of hraw [] "status ".toList (by decide +kernel)
  | .failed =>
    have hraw : "</span> <span class=\"".toList ++ ("fail".toList ++ ("\">".toList
        ++ ("failed".toList ++ ("</span></summary>\n  <div class=\"body\">\n".toList
        ++ "    <div class=\"actual\">status ".toList)))) = _ :=
      toList_append_eq rfl (toList_append_eq rfl (toList_append_eq rfl (toList_append_eq rfl
        (toList_append_eq rfl (toList_eq rfl)))))
    Literal.of hraw [] "status ".toList (by decide +kernel)
  | .errored _ =>
    have hraw : "</span> <span class=\"".toList ++ ("error".toList ++ ("\">".toList
        ++ ("errored".toList ++ ("</span></summary>\n  <div class=\"body\">\n".toList
        ++ "    <div class=\"actual\">status ".toList)))) = _ :=
      toList_append_eq rfl (toList_append_eq rfl (toList_append_eq rfl (toList_append_eq rfl
        (toList_append_eq rfl (toList_eq rfl)))))
    Literal.of hraw [] "status ".toList (by decide +kernel)

/-- The reason why a request was not sent starts. -/
def reasonStart : Literal :=
  have hraw : "    <p class=\"reason\">".toList = _ := toList_eq rfl
  Literal.of hraw "    ".toList [] (by decide +kernel)

/-- The reason ends. -/
def reasonEnd : Literal :=
  have hraw : "</p>\n".toList = _ := toList_eq rfl
  Literal.of hraw [] ['\n'] (by decide +kernel)

/-- The list of assertions starts. -/
def listStart : Literal :=
  have hraw : "    <ul>\n".toList = _ := toList_eq rfl
  Literal.of hraw "    ".toList ['\n'] (by decide +kernel)

/-- The list ends. -/
def listEnd : Literal :=
  have hraw : "    </ul>\n".toList = _ := toList_eq rfl
  Literal.of hraw "    ".toList ['\n'] (by decide +kernel)

/-- An assertion starts with its mark. -/
def markLiteral : Bool → Literal
  | true =>
    have hraw : "      <li>".toList ++ "<span class=\"pass\">✓</span>".toList = _ :=
      toList_append_eq rfl (toList_eq rfl)
    Literal.of hraw "      ".toList [] (by decide +kernel)
  | false =>
    have hraw : "      <li>".toList ++ "<span class=\"fail\">✗</span>".toList = _ :=
      toList_append_eq rfl (toList_eq rfl)
    Literal.of hraw "      ".toList [] (by decide +kernel)

/-- What an assertion found starts. -/
def gotStart : Literal :=
  have hraw : " <span class=\"actual\">— got ".toList = _ := toList_eq rfl
  Literal.of hraw [' '] "— got ".toList (by decide +kernel)

/-- What it found ends. -/
def gotEnd : Literal :=
  have hraw : "</span>".toList = _ := toList_eq rfl
  Literal.of hraw [] [] (by decide +kernel)

/-- An assertion ends. -/
def itemEnd : Literal :=
  have hraw : "</li>\n".toList = _ := toList_eq rfl
  Literal.of hraw [] ['\n'] (by decide +kernel)

/-- A request ends. -/
def caseEnd : Literal :=
  have hraw : "  </div>\n</details>\n".toList = _ := toList_eq rfl
  Literal.of hraw [' ', ' '] ['\n'] (by decide +kernel)

set_option maxRecDepth 4000 in
/-- The end of the page. -/
def footLiteral : Literal :=
  have hraw : htmlFoot = _ := toList_append_eq rfl (toList_eq rfl)
  Literal.of hraw [] ['\n'] (by decide +kernel)

end Literals

/-- The literals of the page. -/
def htmlLiterals : List Literal :=
  [startLiteral, styleLiteral, verdictLiteral true, verdictLiteral false, environmentStart,
    environmentEnd, totalsStart, totalStart, totalPass, totalFail, totalError, totalLabel, totalEnd,
    divEnd, caseStart .passed, caseStart .failed, caseStart (.errored []), caseMethod, caseUrl,
    caseBody .passed, caseBody .failed, caseBody (.errored []), reasonStart, reasonEnd, listStart,
    listEnd, markLiteral true, markLiteral false, gotStart, gotEnd, itemEnd, caseEnd, footLiteral]

/-- The words of the page next to its values. -/
def htmlWords : List Text :=
  [[], ['\n'], "Gabriel".toList, "run".toList, "—".toList, "environment".toList, "·".toList,
    "requests".toList, "passed".toList, "failed".toList, "errored".toList, "total".toList,
    "status".toList, "got".toList]

/-- A property of texts that holds of the fixed texts of the page, and of a text with a space
exactly when it holds of what is around it. -/
structure PageProperty (P : Text → Prop) : Prop where
  space : ∀ a b, P (a ++ ' ' :: b) ↔ P a ∧ P b
  inside : ∀ l ∈ htmlLiterals, ∀ s ∈ l.inside, P (unescape htmlRefs s)
  words : ∀ word ∈ htmlWords, P word

/-- After `t`, a reader of the page is at the text `u`, and what it saw before has the property
exactly when `A`. -/
def At (P : Text → Prop) (t u : Text) (A : Prop) : Prop :=
  Reads (fun s => P (unescape htmlRefs s)) t (html u) A

section At

variable {P : Text → Prop} {t u : Text} {A : Prop}

/-- An escaped value moves the place in the page over the value itself. -/
theorem At.value (h : At P t u A) (x : Text) : At P (t ++ html x) (u ++ x) A := by
  rw [At, html_append]
  exact h.data (not_mem_html x)

/-- A text without special characters is a value. -/
theorem At.plain (h : At P t u A) {x : Text} (hx : html x = x) : At P (t ++ x) (u ++ x) A := by
  have hvalue := h.value x
  rwa [hx] at hvalue

/-- A literal ends a text. -/
theorem At.literal (h : At P t u A) (hP : PageProperty P) {l : Literal} (hl : l ∈ htmlLiterals)
    {f w : Text} (hf : l.first = html f) (hw : l.last = html w) {B : Prop}
    (hiff : A ∧ P (u ++ f) ↔ B) : At P (t ++ l.raw) w B := by
  have hread := Reads.literal h l (hP.inside l hl)
  rw [hf, hw, ← html_append] at hread
  simp only [unescape_html] at hread
  exact hread.congr hiff

/-- A literal that ends a fixed text. -/
theorem At.skip (h : At P t u A) (hP : PageProperty P) {l : Literal} (hl : l ∈ htmlLiterals)
    {f w : Text} (hf : l.first = html f) (hw : l.last = html w) (hfixed : P (u ++ f)) :
    At P (t ++ l.raw) w A := h.literal hP hl hf hw (and_iff_left hfixed)

end At

section Page

variable {P : Text → Prop} (hP : PageProperty P)

include hP

/-- The empty text has the property. -/
theorem PageProperty.nil : P [] := hP.words [] (by decide)

/-- Spaces have the property. -/
theorem PageProperty.spaces (n : Nat) : P (List.replicate n ' ') := by
  induction n with
  | zero => exact hP.nil
  | succ n ih => exact (hP.space [] (List.replicate n ' ')).mpr ⟨hP.nil, ih⟩

/-- So has every line break, whatever it is indented by. -/
theorem PageProperty.line (n : Nat) : P ('\n' :: List.replicate n ' ') := by
  cases n with
  | zero => exact hP.words ['\n'] (by decide)
  | succ n =>
    exact (hP.space ['\n'] (List.replicate n ' ')).mpr ⟨hP.words ['\n'] (by decide), hP.spaces n⟩

/-- A space at an end changes nothing. -/
theorem PageProperty.space_end (a : Text) : P (a ++ [' ']) ↔ P a :=
  (hP.space a []).trans (and_iff_left hP.nil)

/-- A dot in front changes nothing. -/
theorem PageProperty.dot (a : Text) : P (" · ".toList ++ a) ↔ P a := by
  rw [show " · ".toList = ' ' :: ("·".toList ++ [' ']) from rfl, List.cons_append,
    List.append_assoc]
  show P ([] ++ ' ' :: ("·".toList ++ ' ' :: a)) ↔ _
  rw [hP.space, hP.space, and_iff_right hP.nil, and_iff_right (hP.words "·".toList (by decide))]

/-- A total. -/
theorem at_htmlTotal {t : Text} {A : Prop} (h : At P t ['\n'] A) {l : Literal}
    (hl : l ∈ htmlLiterals) {tag : Text} (hraw : l.raw = "  <div class=\"total\">".toList ++ tag)
    (hf : l.first = [' ', ' ']) (hw : l.last = []) (count : Text) {label : Text}
    (hlabel : label ∈ htmlWords) (hplain : html label = label) :
    At P (t ++ htmlTotal tag (html count) label) ['\n'] (A ∧ P count) := by
  have h₁ := h.skip hP hl (f := [' ', ' ']) (w := []) hf hw (hP.line 2)
  have h₂ := (h₁.value count).literal hP (l := totalLabel) (f := []) (w := [])
    (by simp [htmlLiterals]) rfl rfl (B := A ∧ P count) (by rw [List.append_nil, List.nil_append])
  have h₃ := (h₂.plain hplain).skip hP (l := totalEnd) (f := []) (w := ['\n'])
    (by simp [htmlLiterals]) rfl rfl (by simpa using hP.words label hlabel)
  rw [hraw] at h₃
  unfold htmlTotal
  simpa only [totalLabel, totalEnd, Literal.of, List.append_assoc] using h₃

/-- One assertion. -/
theorem at_htmlAssertion {t : Text} {A : Prop} (h : At P t ['\n'] A) (redactor : Redactor)
    (assertion : AssertionLine) :
    At P (t ++ htmlAssertion redactor assertion) ['\n'] (A ∧
      ∀ x ∈ assertion.description :: if assertion.passed then [] else [assertion.actual],
        P (redactor.apply x)) := by
  -- The text goes on value by value and literal by literal; `P` is asked of each word between the
  -- marks.
  have h₁ : At P (t ++ (markLiteral assertion.passed).raw) [] A := by
    cases assertion.passed with
    | true => exact h.skip hP (by simp [htmlLiterals]) (f := "      ".toList) rfl rfl (hP.line 6)
    | false => exact h.skip hP (by simp [htmlLiterals]) (f := "      ".toList) rfl rfl (hP.line 6)
  have h₂ := (h₁.plain (x := [' ']) rfl).value (redactor.apply assertion.description)
  -- The blank in front of the description is a word by itself.
  have hdescription : P ([] ++ [' '] ++ redactor.apply assertion.description)
      ↔ P (redactor.apply assertion.description) :=
    (hP.space [] _).trans (and_iff_right hP.nil)
  -- `got` and the dash are words of the page.
  have hgot : P ("— got ".toList ++ redactor.apply assertion.actual)
      ↔ P (redactor.apply assertion.actual) := by
    show P ("—".toList ++ ' ' :: ("got".toList ++ ' ' :: redactor.apply assertion.actual)) ↔ _
    rw [hP.space, hP.space, and_iff_right (hP.words "—".toList (by decide)),
      and_iff_right (hP.words "got".toList (by decide))]
  unfold htmlAssertion
  -- What was found stands behind the description when the assertion failed.
  cases hpassed : assertion.passed with
  | true =>
    have h₃ := h₂.literal hP (l := itemEnd) (by simp [htmlLiterals]) (f := []) (w := ['\n']) rfl rfl
      (B := A ∧ P (redactor.apply assertion.description))
      (by rw [List.append_nil, hdescription])
    rw [hpassed] at h₃
    simpa [markLiteral, itemEnd, Literal.of, -String.reduceToList] using h₃
  | false =>
    have h₃ := h₂.literal hP (l := gotStart) (by simp [htmlLiterals]) (f := [' '])
      (w := "— got ".toList) rfl rfl (B := A ∧ P (redactor.apply assertion.description))
      (by rw [hP.space_end, hdescription])
    have h₄ := (h₃.value (redactor.apply assertion.actual)).literal hP (l := gotEnd)
      (by simp [htmlLiterals]) (f := []) (w := []) rfl rfl
      (B := A ∧ P (redactor.apply assertion.description) ∧ P (redactor.apply assertion.actual))
      (by rw [List.append_nil, hgot, and_assoc])
    have h₅ := h₄.skip hP (l := itemEnd) (by simp [htmlLiterals]) (f := []) (w := ['\n']) rfl rfl
      hP.nil
    rw [hpassed] at h₅
    simpa [markLiteral, itemEnd, gotStart, gotEnd, Literal.of, -String.reduceToList] using h₅

/-- The assertions of a request. -/
theorem at_assertions {t : Text} {A : Prop} (h : At P t ['\n'] A) (redactor : Redactor)
    (assertions : List AssertionLine) :
    At P (t ++ assertions.flatMap (htmlAssertion redactor)) ['\n'] (A ∧
      ∀ x ∈ assertions.flatMap fun assertion =>
        assertion.description :: if assertion.passed then [] else [assertion.actual],
        P (redactor.apply x)) := by
  induction assertions generalizing t A with
  | nil => simpa using h
  | cons assertion rest ih =>
    have hrest := ih (at_htmlAssertion hP h redactor assertion)
    rw [List.flatMap_cons, List.flatMap_cons, List.forall_mem_append, ← and_assoc,
      ← List.append_assoc]
    exact hrest

/-- The reason why a request was not sent. -/
def reasonTexts : CaseOutcome → List Text
  | .errored reason => [reason]
  | _ => []

/-- The texts of a request that the page redacts. -/
def pageTexts (case : CaseResult) : List Text :=
  case.id :: case.url :: (reasonTexts case.outcome ++ case.assertions.flatMap fun assertion =>
    assertion.description :: if assertion.passed then [] else [assertion.actual])

/-- The texts of a request that the page does not redact. -/
def pageNumbers (tools : PrintTools) (case : CaseResult) : List Text :=
  [statusOr case.status [], formatDuration tools case.durationMs]

/-- The line above the body of a request. -/
theorem at_summary {t : Text} {A : Prop} (h : At P t ['\n'] A) (tools : PrintTools)
    (redactor : Redactor) (case : CaseResult) (first second : Literal)
    (hfirst : first ∈ htmlLiterals ∧ first.first = [] ∧ first.last = [])
    (hsecond : second ∈ htmlLiterals ∧ second.first = [] ∧ second.last = "status ".toList) :
    At P (t ++ first.raw ++ html (redactor.apply case.id) ++ caseMethod.raw ++ html case.method
        ++ caseUrl.raw ++ html (redactor.apply case.url) ++ second.raw
        ++ statusOr case.status ['—'] ++ " · ".toList
        ++ html (formatDuration tools case.durationMs) ++ divEnd.raw) ['\n']
      (A ∧ P (redactor.apply case.id) ∧ P case.method ∧ P (redactor.apply case.url) ∧
        ∀ x ∈ pageNumbers tools case, P x) := by
  -- Digits and the dash have nothing to escape.
  have hstatus : html (statusOr case.status ['—']) = statusOr case.status ['—'] := by
    cases case.status with
    | none => rfl
    | some status => exact html_natText _
  -- The line of the numbers falls into the words of the page, the status and the duration.
  have hline : P ("status ".toList ++ statusOr case.status ['—'] ++ " · ".toList
      ++ formatDuration tools case.durationMs) ↔ ∀ x ∈ pageNumbers tools case, P x := by
    have hwhole : "status ".toList ++ statusOr case.status ['—'] ++ " · ".toList
        ++ formatDuration tools case.durationMs = "status".toList ++ ' ' ::
          (statusOr case.status ['—'] ++ ' ' :: ("·".toList ++ ' ' ::
            formatDuration tools case.durationMs)) := by
      rw [show "status ".toList = "status".toList ++ [' '] from rfl,
        show " · ".toList = ' ' :: ("·".toList ++ [' ']) from rfl]
      simp
    -- A request without an answer has a dash, which is a word of the page.
    have hnone : P (statusOr case.status ['—']) ↔ P (statusOr case.status []) := by
      cases case.status with
      | none => exact iff_of_true (hP.words "—".toList (by decide)) hP.nil
      | some status => exact Iff.rfl
    rw [hwhole, hP.space, hP.space, hP.space, hnone,
      and_iff_right (hP.words "status".toList (by decide)),
      and_iff_right (hP.words "·".toList (by decide))]
    simp [pageNumbers]
  -- The pieces in the order of the page: id, method, URL, status and duration.
  have h₁ := h.skip hP hfirst.1 (f := []) (w := []) hfirst.2.1 hfirst.2.2 (hP.line 0)
  have h₂ := (h₁.value (redactor.apply case.id)).literal hP (l := caseMethod)
    (by simp [htmlLiterals]) (f := []) (w := []) rfl rfl (B := A ∧ P (redactor.apply case.id))
    (by rw [List.append_nil, List.nil_append])
  have h₃ := (h₂.value case.method).literal hP (l := caseUrl) (by simp [htmlLiterals]) (f := [])
    (w := []) rfl rfl (B := A ∧ P (redactor.apply case.id) ∧ P case.method)
    (by rw [List.append_nil, List.nil_append, and_assoc])
  have h₄ := (h₃.value (redactor.apply case.url)).literal hP hsecond.1 (f := [])
    (w := "status ".toList) hsecond.2.1 hsecond.2.2
    (B := A ∧ P (redactor.apply case.id) ∧ P case.method ∧ P (redactor.apply case.url))
    (by rw [List.append_nil, List.nil_append, and_assoc, and_assoc])
  have h₅ := (h₄.plain hstatus).plain (x := " · ".toList) rfl
  exact (h₅.value (formatDuration tools case.durationMs)).literal hP (by simp [htmlLiterals])
    (f := []) (w := ['\n']) rfl rfl
    (by rw [List.append_nil, hline, and_assoc, and_assoc, and_assoc])

/-- The rest of a request: why it was not sent, its assertions, and the end. -/
theorem at_details {t : Text} {A : Prop} (h : At P t ['\n'] A) (redactor : Redactor)
    (case : CaseResult) :
    At P (t ++ (match case.outcome with
        | .errored reason =>
          "    <p class=\"reason\">".toList ++ html (redactor.apply reason) ++ "</p>\n".toList
        | _ => [])
      ++ (if case.assertions = [] then []
        else "    <ul>\n".toList ++ case.assertions.flatMap (htmlAssertion redactor)
          ++ "    </ul>\n".toList)
      ++ "  </div>\n</details>\n".toList) ['\n']
      (A ∧ (∀ x ∈ reasonTexts case.outcome, P (redactor.apply x)) ∧
        ∀ x ∈ case.assertions.flatMap fun assertion =>
          assertion.description :: if assertion.passed then [] else [assertion.actual],
          P (redactor.apply x)) := by
  -- An error has a paragraph of its own.
  have hreason : At P (t ++ (match case.outcome with
        | .errored reason =>
          "    <p class=\"reason\">".toList ++ html (redactor.apply reason) ++ "</p>\n".toList
        | _ => [])) ['\n'] (A ∧ ∀ x ∈ reasonTexts case.outcome, P (redactor.apply x)) := by
    cases case.outcome with
    | errored reason =>
      have h₁ := h.skip hP (l := reasonStart) (by simp [htmlLiterals]) (f := "    ".toList)
        (w := []) rfl rfl (hP.line 4)
      have h₂ := (h₁.value (redactor.apply reason)).literal hP (l := reasonEnd)
        (by simp [htmlLiterals]) (f := []) (w := ['\n']) rfl rfl
        (B := A ∧ P (redactor.apply reason)) (by rw [List.append_nil, List.nil_append])
      simpa [reasonTexts, reasonStart, reasonEnd, Literal.of, -String.reduceToList] using h₂
    | passed => simpa [reasonTexts] using h
    | failed => simpa [reasonTexts] using h
  -- The assertions are in a list, which is left out when there are none.
  have hassertions := by
    have h₁ := hreason.skip hP (l := listStart) (by simp [htmlLiterals]) (f := "    ".toList)
      (w := ['\n']) rfl rfl (hP.line 4)
    have h₂ := at_assertions hP h₁ redactor case.assertions
    exact h₂.skip hP (l := listEnd) (by simp [htmlLiterals]) (f := "    ".toList) (w := ['\n']) rfl
      rfl (hP.line 4)
  have hend : ∀ {u : Text} {B : Prop}, At P u ['\n'] B →
      At P (u ++ "  </div>\n</details>\n".toList) ['\n'] B := fun hu =>
    hu.skip hP (l := caseEnd) (by simp [htmlLiterals]) (f := [' ', ' ']) (w := ['\n']) rfl rfl
      (hP.line 2)
  -- Then the details close, with or without the list.
  by_cases hnone : case.assertions = []
  · rw [if_pos hnone, List.append_nil]
    have h₃ := hend hreason
    simpa [hnone] using h₃
  · rw [if_neg hnone]
    have h₃ := hend hassertions
    simpa [listStart, listEnd, Literal.of, and_assoc, -String.reduceToList] using h₃

/-- One request. -/
theorem at_htmlCase {t : Text} {A : Prop} (h : At P t ['\n'] A) (tools : PrintTools)
    (redactor : Redactor) (case : CaseResult) :
    At P (t ++ htmlCase tools redactor case) ['\n'] (A ∧
      (∀ x ∈ pageNumbers tools case, P x) ∧ P case.method ∧
        ∀ x ∈ pageTexts case, P (redactor.apply x)) := by
  -- The marks of the summary depend on the outcome; all of them are literals of the page.
  have hlits : (caseStart case.outcome ∈ htmlLiterals ∧ (caseStart case.outcome).first = []
      ∧ (caseStart case.outcome).last = []) ∧ caseBody case.outcome ∈ htmlLiterals
      ∧ (caseBody case.outcome).first = [] ∧ (caseBody case.outcome).last = "status ".toList := by
    cases case.outcome with
    | passed => exact ⟨⟨by simp [htmlLiterals], rfl, rfl⟩, by simp [htmlLiterals], rfl, rfl⟩
    | failed => exact ⟨⟨by simp [htmlLiterals], rfl, rfl⟩, by simp [htmlLiterals], rfl, rfl⟩
    | errored reason =>
      have hstart : caseStart (.errored reason) = caseStart (.errored []) := rfl
      have hbody : caseBody (.errored reason) = caseBody (.errored []) := rfl
      rw [hstart, hbody]
      exact ⟨⟨by simp [htmlLiterals], rfl, rfl⟩, by simp [htmlLiterals], rfl, rfl⟩
  have h₁ := at_summary hP h tools redactor case _ _ hlits.1 hlits.2
  have h₂ := at_details hP h₁ redactor case
  -- The texts of the summary and of the details, in the order of `pageTexts`.
  have hiff : ((A ∧ P (redactor.apply case.id) ∧ P case.method ∧ P (redactor.apply case.url) ∧
      ∀ x ∈ pageNumbers tools case, P x) ∧
      (∀ x ∈ reasonTexts case.outcome, P (redactor.apply x)) ∧
        ∀ x ∈ case.assertions.flatMap fun assertion =>
          assertion.description :: if assertion.passed then [] else [assertion.actual],
          P (redactor.apply x)) ↔ A ∧ (∀ x ∈ pageNumbers tools case, P x) ∧ P case.method ∧
        ∀ x ∈ pageTexts case, P (redactor.apply x) := by
    rw [pageTexts, List.forall_mem_cons, List.forall_mem_cons, List.forall_mem_append]
    constructor
    · rintro ⟨⟨ha, hid, hmethod, hurl, hnumbers⟩, hreason, hassertions⟩
      exact ⟨ha, hnumbers, hmethod, hid, hurl, hreason, hassertions⟩
    · rintro ⟨ha, hnumbers, hmethod, hid, hurl, hreason, hassertions⟩
      exact ⟨⟨ha, hid, hmethod, hurl, hnumbers⟩, hreason, hassertions⟩
  have h₃ : At P _ ['\n'] _ := h₂.congr hiff
  -- The three forms of the summary differ in the marks alone.
  unfold htmlCase
  cases houtcome : case.outcome with
  | passed =>
    rw [houtcome] at h₃
    simpa [caseStatus, caseStart, passedStart, caseMethod, caseUrl, caseBody, divEnd,
      Literal.of, -String.reduceToList] using h₃
  | failed =>
    rw [houtcome] at h₃
    simpa [caseStatus, caseStart, failedStart, caseMethod, caseUrl, caseBody, divEnd,
      Literal.of, -String.reduceToList] using h₃
  | errored reason =>
    rw [houtcome] at h₃
    simpa [caseStatus, caseStart, erroredStart, caseMethod, caseUrl, caseBody, divEnd,
      Literal.of, -String.reduceToList] using h₃

/-- The requests. -/
theorem at_cases {t : Text} {A : Prop} (h : At P t ['\n'] A) (tools : PrintTools)
    (redactor : Redactor) (cases : List CaseResult) :
    At P (t ++ cases.flatMap (htmlCase tools redactor)) ['\n'] (A ∧ ∀ case ∈ cases,
      (∀ x ∈ pageNumbers tools case, P x) ∧ P case.method ∧
        ∀ x ∈ pageTexts case, P (redactor.apply x)) := by
  induction cases generalizing t A with
  | nil => simpa using h
  | cons case rest ih =>
    have hrest := ih (at_htmlCase hP h tools redactor case)
    rw [List.flatMap_cons, List.forall_mem_cons, ← and_assoc, ← List.append_assoc]
    exact hrest

/-- The numbers above the requests. -/
def headNumbers (tools : PrintTools) (report : RunReport) : List Text :=
  [formatIso8601 report.startedMs, natText report.total, natText report.passed,
    natText report.failures, natText report.errors, formatDuration tools report.durationMs]

/-- The page up to its totals. -/
theorem at_top (report : RunReport) (redactor : Redactor) :
    At P (htmlStart ++ html (redactor.apply report.collection) ++ htmlStyle
        ++ html (redactor.apply report.collection) ++ (verdictLiteral report.isGreen).raw
        ++ (report.environment.elim [] fun environment =>
          "environment <b>".toList ++ html (redactor.apply environment) ++ "</b> · ".toList)
        ++ html (formatIso8601 report.startedMs) ++ totalsStart.raw) ['\n']
      ((∀ x ∈ report.collection :: report.environment.toList, P (redactor.apply x)) ∧
        P (formatIso8601 report.startedMs)) := by
  -- The title and the heading are the name with words of the page around it.
  have htitle : P ("Gabriel run — ".toList ++ redactor.apply report.collection)
      ↔ P (redactor.apply report.collection) := by
    have hwords : "Gabriel run — ".toList ++ redactor.apply report.collection
        = "Gabriel".toList ++ ' ' :: ("run".toList ++ ' ' ::
          ("—".toList ++ ' ' :: redactor.apply report.collection)) := by
      rw [toList_eq (s := "Gabriel run — ") rfl, toList_eq (s := "Gabriel") rfl,
        toList_eq (s := "run") rfl, toList_eq (s := "—") rfl]
      rfl
    rw [hwords, hP.space, hP.space, hP.space, and_iff_right (hP.words "Gabriel".toList (by decide)),
      and_iff_right (hP.words "run".toList (by decide)),
      and_iff_right (hP.words "—".toList (by decide))]
  have hheading : P (redactor.apply report.collection ++ " — ".toList)
      ↔ P (redactor.apply report.collection) := by
    have hdash : P "— ".toList := (hP.space_end "—".toList).mpr (hP.words "—".toList (by decide))
    exact (hP.space _ "— ".toList).trans (and_iff_left hdash)
  have henv : P ([] ++ "environment ".toList) :=
    (hP.space_end "environment".toList).mpr (hP.words "environment".toList (by decide))
  have hstarted : P (" · ".toList ++ formatIso8601 report.startedMs)
      ↔ P (formatIso8601 report.startedMs) := hP.dot _
  have hstart : At P [] [] True := reads_nil
  have h₁ := hstart.skip hP (l := startLiteral) (by simp [htmlLiterals]) (f := [])
    (w := "Gabriel run — ".toList) rfl rfl hP.nil
  have h₂ := (h₁.value (redactor.apply report.collection)).literal hP (l := styleLiteral)
    (by simp [htmlLiterals]) (f := []) (w := []) rfl rfl
    (B := P (redactor.apply report.collection)) (by rw [List.append_nil, htitle, true_and])
  -- The verdict is one of two literals.
  have hverdict : verdictLiteral report.isGreen ∈ htmlLiterals
      ∧ (verdictLiteral report.isGreen).first = html " — ".toList
      ∧ (verdictLiteral report.isGreen).last = html [] := by
    cases report.isGreen with
    | true => exact ⟨by simp [htmlLiterals], rfl, rfl⟩
    | false => exact ⟨by simp [htmlLiterals], rfl, rfl⟩
  have h₃ := (h₂.value (redactor.apply report.collection)).literal hP hverdict.1 hverdict.2.1
    hverdict.2.2 (B := P (redactor.apply report.collection))
    (by rw [List.nil_append, hheading, and_self])
  -- The environment is shown when there is one.
  cases henvironment : report.environment with
  | none =>
    have h₄ := (h₃.value (formatIso8601 report.startedMs)).literal hP (l := totalsStart)
      (by simp [htmlLiterals]) (f := []) (w := ['\n']) rfl rfl
      (B := P (redactor.apply report.collection) ∧ P (formatIso8601 report.startedMs))
      (by rw [List.append_nil, List.nil_append])
    rw [styleLiteral_raw] at h₄
    simpa [startLiteral, Literal.of, -String.reduceToList] using h₄
  | some environment =>
    have h₄ := h₃.skip hP (l := environmentStart) (by simp [htmlLiterals])
      (f := "environment ".toList) (w := []) rfl rfl henv
    have h₅ := (h₄.value (redactor.apply environment)).literal hP (l := environmentEnd)
      (by simp [htmlLiterals]) (f := []) (w := " · ".toList) rfl rfl
      (B := P (redactor.apply report.collection) ∧ P (redactor.apply environment))
      (by rw [List.append_nil, List.nil_append])
    have h₆ := (h₅.value (formatIso8601 report.startedMs)).literal hP (l := totalsStart)
      (by simp [htmlLiterals]) (f := []) (w := ['\n']) rfl rfl
      (B := (P (redactor.apply report.collection) ∧ P (redactor.apply environment))
        ∧ P (formatIso8601 report.startedMs)) (by rw [List.append_nil, hstarted])
    rw [styleLiteral_raw] at h₆
    simpa [startLiteral, environmentStart, environmentEnd, Literal.of,
        -String.reduceToList] using h₆

/-- The page up to the requests. -/
theorem at_htmlHead (tools : PrintTools) (report : RunReport) (redactor : Redactor) :
    At P (htmlHead tools report redactor) ['\n'] ((∀ x ∈ headNumbers tools report, P x) ∧
      ∀ x ∈ report.collection :: report.environment.toList, P (redactor.apply x)) := by
  -- The five totals one after the other.
  have h₁ := at_htmlTotal hP (at_top hP report redactor) (l := totalStart) (by simp [htmlLiterals])
    rfl rfl rfl (natText report.total)
    (show "requests".toList ∈ htmlWords by decide) rfl
  have h₂ := at_htmlTotal hP h₁ (l := totalPass) (by simp [htmlLiterals])
    rfl rfl rfl (natText report.passed)
    (show "passed".toList ∈ htmlWords by decide) rfl
  have h₃ := at_htmlTotal hP h₂ (l := totalFail) (by simp [htmlLiterals])
    rfl rfl rfl (natText report.failures)
    (show "failed".toList ∈ htmlWords by decide) rfl
  have h₄ := at_htmlTotal hP h₃ (l := totalError) (by simp [htmlLiterals])
    rfl rfl rfl (natText report.errors)
    (show "errored".toList ∈ htmlWords by decide) rfl
  have h₅ := at_htmlTotal hP h₄ (l := totalStart) (by simp [htmlLiterals])
    rfl rfl rfl (formatDuration tools report.durationMs)
    (show "total".toList ∈ htmlWords by decide) rfl
  have h₆ := h₅.skip hP (l := divEnd) (by simp [htmlLiterals]) (f := []) (w := ['\n']) rfl rfl
    (hP.line 0)
  -- The verdict in the words of the source.
  have hverdict : (verdictLiteral report.isGreen).raw = " — <span class=\"".toList
      ++ ((runStatus report).1 ++ ("\">".toList ++ ((runStatus report).2
        ++ "</span></h1>\n<div class=\"sub\">".toList))) := by
    unfold runStatus
    cases report.isGreen with
    | true => rfl
    | false => rfl
  -- The numbers and the texts, in the order in which they were collected.
  have hiff : (((((((∀ x ∈ report.collection :: report.environment.toList, P (redactor.apply x)) ∧
      P (formatIso8601 report.startedMs)) ∧ P (natText report.total)) ∧ P (natText report.passed)) ∧
      P (natText report.failures)) ∧ P (natText report.errors)) ∧
      P (formatDuration tools report.durationMs)) ↔ (∀ x ∈ headNumbers tools report, P x) ∧
        ∀ x ∈ report.collection :: report.environment.toList, P (redactor.apply x) := by
    simp only [headNumbers, List.forall_mem_cons]
    constructor
    · rintro ⟨⟨⟨⟨⟨⟨htexts, hstarted⟩, htotal⟩, hpassed⟩, hfailed⟩, herrored⟩, hduration⟩
      exact ⟨⟨hstarted, htotal, hpassed, hfailed, herrored, hduration,
        fun _ h => absurd h List.not_mem_nil⟩, htexts⟩
    · rintro ⟨⟨hstarted, htotal, hpassed, hfailed, herrored, hduration, -⟩, htexts⟩
      exact ⟨⟨⟨⟨⟨⟨htexts, hstarted⟩, htotal⟩, hpassed⟩, hfailed⟩, herrored⟩, hduration⟩
  have h₇ : At P _ ['\n'] _ := h₆.congr hiff
  simp only [html_natText, hverdict] at h₇
  unfold htmlHead
  simpa only [totalsStart, divEnd, Literal.of, List.append_assoc] using h₇

end Page

/-- A property of texts holds of all that a reader of the page sees exactly when it holds of the
texts that the page does not redact and of the redacted ones. -/
theorem forall_segments_toHtml {P : Text → Prop} (hP : PageProperty P) (tools : PrintTools)
    (report : RunReport) (redactor : Redactor) :
    (∀ s ∈ segments (toHtml tools report redactor), P (unescape htmlRefs s)) ↔
      ((∀ x ∈ headNumbers tools report, P x) ∧
        ∀ x ∈ report.collection :: report.environment.toList, P (redactor.apply x)) ∧
      ∀ case ∈ report.cases, (∀ x ∈ pageNumbers tools case, P x) ∧ P case.method ∧
        ∀ x ∈ pageTexts case, P (redactor.apply x) := by
  have hcases := at_cases hP (at_htmlHead hP tools report redactor) tools redactor report.cases
  have hpage := hcases.skip hP (l := footLiteral) (by simp [htmlLiterals]) (f := []) (w := ['\n'])
    rfl rfl (hP.line 0)
  have hsegments := Reads.segments hpage
  have hline : P ['\n'] := hP.words ['\n'] (by decide)
  rw [unescape_html, and_iff_left hline] at hsegments
  exact hsegments

end Gabriel.Cli
