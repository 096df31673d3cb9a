import Gabriel.Proofs.HtmlPage
import Gabriel.Proofs.JunitTree
import Gabriel.Proofs.OutputSecrets

/-!
# `Gabriel.Proofs.ReportSecrets`: known secrets in the reports

A report outlives its run, so no reader of it should see a secret. What a reader sees is what a
scanner of the document finds in its attribute values and texts, with the references read
(`KeepsSecrets`).

Both formats redact a text before they escape it. The method is not redacted, and neither are the
numbers. And `xml` drops control characters behind the back of the redactor: a secret with such a
character in it is no secret to the redactor, and is one to the reader. Whether a report shows a
value that is clear of its fixed texts (`ClearOfReports`) is a property of texts in the sense of
`Proofs/JunitTree` and `Proofs/HtmlPage`, so it is a matter of the values in the report. The
theorems:

* `junit_keeps_iff`: what a reader of the JUnit report sees of a value.
* `html_keeps_iff`: what a reader of the HTML report sees of a known secret.
* `reports_keep_secrets_iff`: both keep every known secret exactly when none is in a number or in a
  method, and dropping controls spells none.
-/

set_option autoImplicit false

namespace Gabriel.Cli

open Gabriel.Core Text Markup

/-- No attribute value and no text of a report holds a secret, once its references are read. -/
def KeepsSecrets (refs : Refs) (redactor : Redactor) (document : Text) : Prop :=
  ∀ v ∈ redactor.secrets, ∀ s ∈ segments document, ¬ v <:+: unescape refs s

/-- The fixed texts of both reports. -/
def reportTexts : List Text :=
  [[], "1.0".toList, "UTF-8".toList] ++ junitWords ++ htmlWords
    ++ htmlLiterals.flatMap fun l => l.inside.map (unescape htmlRefs)

/-- A value that overlaps neither the fixed texts of the reports nor the mask. -/
structure ClearOfReports (v : Text) : Prop where
  space : ' ' ∉ v
  line : '\n' ∉ v
  comma : ¬ Overlap v ", got ".toList
  mask : ¬ Overlap v mask
  texts : ∀ t ∈ reportTexts, ¬ v <:+: t

section Clear

variable {v : Text} (h : ClearOfReports v)

include h

/-- Whether the JUnit report shows the value does not depend on its fixed texts. -/
theorem ClearOfReports.textwise : Textwise fun t => ¬ v <:+: withoutControls t where
  space a b := by
    have hwhole : withoutControls (a ++ ' ' :: b)
        = withoutControls a ++ ' ' :: withoutControls b := by simp [withoutControls, isDropped]
    rw [hwhole, infix_append_cons_iff h.space, not_or]
  line a b := by
    have hwhole : withoutControls (a ++ '\n' :: b)
        = withoutControls a ++ '\n' :: withoutControls b := by simp [withoutControls, isDropped]
    rw [hwhole, infix_append_cons_iff h.line, not_or]
  comma a := by
    have hwhole : withoutControls (a ++ [',']) = withoutControls a ++ [','] := by
      simp [withoutControls, isDropped]
    rw [hwhole]
    refine not_congr ⟨fun hin => ?_, fun hin => hin.trans (List.prefix_append _ _).isInfix⟩
    have hlong : v <:+: withoutControls a ++ ", got ".toList :=
      hin.trans ⟨[], " got ".toList, by simp⟩
    exact (infix_fixed_right_iff h.comma _).mp hlong
  words word hword := by
    have hplain : ∀ word ∈ junitWords, withoutControls word = word := by decide
    have hmem : word ∈ reportTexts :=
      List.mem_append_left _ (List.mem_append_left _ (List.mem_append_right _ hword))
    rw [hplain word hword]
    exact h.texts word hmem

/-- The same for the HTML report. -/
theorem ClearOfReports.page : PageProperty fun t => ¬ v <:+: t where
  space a b := by rw [infix_append_cons_iff h.space, not_or]
  inside l hl s hs := by
    refine h.texts _ (List.mem_append_right _ (List.mem_flatMap.mpr ⟨l, hl, ?_⟩))
    exact List.mem_map_of_mem hs
  words word hword :=
    h.texts word (List.mem_append_left _ (List.mem_append_right _ hword))

end Clear

/-- The numbers that the two reports show. -/
def shownNumbers (tools : PrintTools) (report : RunReport) (redactor : Redactor) : List Text :=
  junitNumbers report redactor ++ headNumbers tools report
    ++ report.cases.flatMap (pageNumbers tools)

/-- Digits and points are no controls. -/
theorem withoutControls_numbers {report : RunReport} {redactor : Redactor} {t : Text}
    (h : t ∈ junitNumbers report redactor) : withoutControls t = t := by
  refine List.filter_eq_self.mpr fun c hc => ?_
  rcases junitNumbers_plain h hc with hdigit | rfl
  · have hzero : '0'.toNat = 48 := rfl
    rw [Char.isDigit_iff_toNat] at hdigit
    have hlow : ¬ c.toNat < 0x20 := by omega
    simp [isDropped, hlow]
  · decide

/-- What a reader of the JUnit report sees of a value. -/
theorem junit_keeps_iff {v : Text} (h : ClearOfReports v) (report : RunReport)
    (redactor : Redactor) :
    (∀ s ∈ segments (toJunit report redactor), ¬ v <:+: unescape xmlRefs s) ↔
      (∀ t ∈ junitNumbers report redactor, ¬ v <:+: t) ∧
      (∀ case ∈ report.cases, ¬ v <:+: withoutControls case.method) ∧
      ∀ t ∈ redactedTexts report, ¬ v <:+: withoutControls (redactor.apply t) := by
  have hdeclaration : ∀ s ∈ [[], "1.0".toList, "UTF-8".toList], ¬ v <:+: unescape xmlRefs s := by
    have hplain : ∀ s ∈ [[], "1.0".toList, "UTF-8".toList], unescape xmlRefs s = s := by decide
    intro s hs
    rw [hplain s hs]
    exact h.texts s (List.mem_append_left _ (List.mem_append_left _ (List.mem_append_left _ hs)))
  have hread : ∀ t, unescape xmlRefs (xmlEscaper.escape t) = withoutControls t := fun t =>
    (xmlEscaper.unescape_escape t).trans (kept_eq t)
  have hnumbers : (∀ t ∈ junitNumbers report redactor, ¬ v <:+: withoutControls t) ↔
      ∀ t ∈ junitNumbers report redactor, ¬ v <:+: t :=
    forall₂_congr fun t ht => by rw [withoutControls_numbers ht]
  rw [segments_toJunit, List.forall_mem_append, and_iff_right hdeclaration, List.forall_mem_map]
  simp only [hread]
  rw [h.textwise.forall_junitTree, hnumbers]

/-- What a reader of the HTML report sees of a known secret. -/
theorem html_keeps_iff {v : Text} (h : ClearOfReports v) (tools : PrintTools) (report : RunReport)
    {redactor : Redactor} (hv : v ∈ redactor.secrets) :
    (∀ s ∈ segments (toHtml tools report redactor), ¬ v <:+: unescape htmlRefs s) ↔
      (∀ t ∈ headNumbers tools report, ¬ v <:+: t) ∧
      ∀ case ∈ report.cases, (∀ t ∈ pageNumbers tools case, ¬ v <:+: t) ∧ ¬ v <:+: case.method := by
  have hmasked : ∀ texts : List Text, ∀ t ∈ texts, ¬ v <:+: redactor.apply t := fun _ t _ =>
    Redactor.not_infix_apply hv h.mask t
  rw [forall_segments_toHtml h.page, and_iff_left (hmasked _)]
  refine and_congr_right fun _ => forall₂_congr fun case _ => ?_
  rw [and_iff_left (hmasked _)]

/-- Both reports keep every known secret exactly when none is in a number or in a method, with or
without its controls, and none is in a redacted text once the controls are dropped. -/
theorem reports_keep_secrets_iff (tools : PrintTools) (report : RunReport) (redactor : Redactor)
    (hclear : ∀ v ∈ redactor.secrets, ClearOfReports v) :
    (KeepsSecrets xmlRefs redactor (toJunit report redactor) ∧
        KeepsSecrets htmlRefs redactor (toHtml tools report redactor)) ↔
      ∀ v ∈ redactor.secrets,
        (∀ t ∈ shownNumbers tools report redactor, ¬ v <:+: t) ∧
        (∀ case ∈ report.cases, ¬ v <:+: case.method ∧ ¬ v <:+: withoutControls case.method) ∧
        ∀ t ∈ redactedTexts report, ¬ v <:+: withoutControls (redactor.apply t) := by
  rw [KeepsSecrets, KeepsSecrets, ← forall₂_and]
  refine forall₂_congr fun v hv => ?_
  rw [junit_keeps_iff (hclear v hv), html_keeps_iff (hclear v hv) tools report hv, shownNumbers,
    List.forall_mem_append, List.forall_mem_append, List.forall_mem_flatMap]
  simp only [forall_and]
  constructor
  · rintro ⟨⟨hjunit, hcontrols, htexts⟩, hhead, hpage, hmethods⟩
    exact ⟨⟨⟨hjunit, hhead⟩, hpage⟩, ⟨hmethods, hcontrols⟩, htexts⟩
  · rintro ⟨⟨⟨hjunit, hhead⟩, hpage⟩, ⟨hmethods, hcontrols⟩, htexts⟩
    exact ⟨⟨hjunit, hcontrols, htexts⟩, hhead, hpage, hmethods⟩

/-! ### A secret in an answer -/

/-- A value with a letter that no fixed text holds. -/
def passphrase : Text := "pässword1".toList

/-- The texts of the reports have no umlaut. -/
theorem umlaut_not_mem {t : Text} (h : t ∈ reportTexts) : 'ä' ∉ t := by
  have hwords : ∀ t ∈ [[], "1.0".toList, "UTF-8".toList] ++ junitWords ++ htmlWords, 'ä' ∉ t := by
    decide +kernel
  have hends : ∀ s ∈ styleStart.inside ++ styleEnd.inside, 'ä' ∉ unescape htmlRefs s := by
    decide +kernel
  have hothers : ∀ l ∈ htmlLiterals.take 1 ++ htmlLiterals.drop 2, ∀ s ∈ l.inside,
      'ä' ∉ unescape htmlRefs s := by
    decide +kernel
  have hstyle : ∀ s ∈ styleLiteral.inside, 'ä' ∉ unescape htmlRefs s := by
    have hcss : 'ä' ∉ unescape htmlRefs (['\n'] ++ htmlCss.flatMap String.toList ++ []) := by
      rw [List.append_nil, unescape_of_plain]
      · intro hmem
        rcases List.mem_append.mp hmem with hmem | hmem
        · exact absurd hmem (by decide)
        · exact absurd (htmlCss_plain hmem).2.2 (by decide)
      · intro hmem
        rcases List.mem_append.mp hmem with hmem | hmem
        · exact absurd hmem (by decide)
        · exact (htmlCss_plain hmem).2.1 rfl
    rw [List.forall_mem_append] at hends
    rw [styleLiteral, Literal.inside_between, List.forall_mem_append, List.forall_mem_cons]
    exact ⟨hends.1, hcss, hends.2⟩
  rcases List.mem_append.mp h with h | h
  · exact hwords t h
  · obtain ⟨l, hl, ht⟩ := List.mem_flatMap.mp h
    obtain ⟨s, hs, rfl⟩ := List.mem_map.mp ht
    have hsplit : htmlLiterals
        = htmlLiterals.take 1 ++ styleLiteral :: htmlLiterals.drop 2 := rfl
    rw [hsplit] at hl
    rcases List.mem_append.mp hl with hl | hl
    · exact hothers l (List.mem_append_left _ hl) s hs
    · rcases List.mem_cons.mp hl with rfl | hl
      · exact hstyle s hs
      · exact hothers l (List.mem_append_right _ hl) s hs

example : 'ä' ∉ unescape htmlRefs "&lt;</li>\n".toList := by decide +kernel

/-- A passphrase with an umlaut is in none of them. -/
theorem clearOfReports_passphrase : ClearOfReports passphrase where
  space := by decide +kernel
  line := by decide +kernel
  comma := by decide +kernel
  mask := by decide +kernel
  texts t ht hin := umlaut_not_mem ht (hin.subset (by decide))

/-- A redactor that knows the value. -/
def passphraseRedactor : Redactor := Redactor.new [passphrase]

/-- The redactor of the sample knows the passphrase only. -/
theorem secrets_passphraseRedactor : passphraseRedactor.secrets = [passphrase] := by decide +kernel

/-- So nothing that it knows is in a text of the reports. -/
theorem clear_passphraseRedactor : ∀ v ∈ passphraseRedactor.secrets, ClearOfReports v := by
  rw [secrets_passphraseRedactor, List.forall_mem_singleton]
  exact clearOfReports_passphrase

/-- A server that answers with the value, a control character in its middle. -/
def splitAnswer : RunReport where
  collection := "shop".toList
  environment := none
  startedMs := 0
  cases := [{
    id := "items".toList, method := "GET".toList, url := "https://shop.test/items".toList
    status := some 200, durationMs := 3, outcome := .failed
    assertions := [⟨"$.name equals \"lamp\"".toList, false, "päss\x01word1".toList⟩] }]

/-- The redactor does not find it, and the JUnit report shows it whole. -/
theorem not_reports_keep_secrets :
    (∀ v ∈ passphraseRedactor.secrets, ClearOfReports v) ∧
    ¬ (KeepsSecrets xmlRefs passphraseRedactor (toJunit splitAnswer passphraseRedactor) ∧
      KeepsSecrets htmlRefs passphraseRedactor
        (toHtml plainTools splitAnswer passphraseRedactor)) := by
  refine ⟨clear_passphraseRedactor, fun h => ?_⟩
  have hjunit := (junit_keeps_iff clearOfReports_passphrase splitAnswer passphraseRedactor).mp
    (h.1 passphrase (by decide +kernel))
  exact hjunit.2.2 "päss\x01word1".toList (by decide +kernel) (by decide +kernel)

/-- A run of one request that passed. -/
def plainAnswer : RunReport where
  collection := "shop".toList
  environment := none
  startedMs := 0
  cases := [{
    id := "items".toList, method := "GET".toList
    url := "https://shop.test/items?key=pässword1".toList
    status := some 200, durationMs := 3, outcome := .passed, assertions := [] }]

/-- The secret of its URL is masked. -/
theorem reports_keep_secrets_plainAnswer :
    (∀ v ∈ passphraseRedactor.secrets, ClearOfReports v) ∧
    KeepsSecrets xmlRefs passphraseRedactor (toJunit plainAnswer passphraseRedactor) ∧
    KeepsSecrets htmlRefs passphraseRedactor
        (toHtml plainTools plainAnswer passphraseRedactor) := by
  refine ⟨clear_passphraseRedactor, (reports_keep_secrets_iff plainTools plainAnswer
    passphraseRedactor clear_passphraseRedactor).mpr ?_⟩
  rw [secrets_passphraseRedactor, List.forall_mem_singleton]
  exact ⟨by decide +kernel, by decide +kernel, by decide +kernel⟩

end Gabriel.Cli
