import Gabriel.Proofs.JunitTree

/-!
# `Gabriel.Proofs.JunitDocument`: what a CI server reads in the JUnit report

The report is a document for every run, and its tree is found again (`JunitTree`). What can go wrong
is in the characters and in the totals. The escaper drops the C0 controls, so an id loses them, and
it leaves U+FFFE and U+FFFF alone, which XML does not allow either (`NoNonchar`). The totals count
requests, and the suites count assertions.

Both claims are about the document that is read back: `SaysRun` compares its suites and test cases
with the run, and `AddsUp` its numbers with its elements. The theorems:

* `elements_testcasesTree`, `testcases_suiteTree`, `suites_suitesTree`: what is read back.
* `countsElements_suite`: the attributes of every suite are the numbers of its elements.
* `sumsUp_iff`: when an attribute of the root is the sum of those of the suites.
* `junit_totals`: the totals of a run, in the suites and in the root.
* `forall_mem_toJunit_iff`: the characters of the report are allowed exactly when those of its texts
  are.
* `junit_document`: the report is one document that says what the run did, but for the C0 controls.
-/

set_option autoImplicit false

namespace Gabriel.Cli

open Gabriel.Core Text Markup

/-! ### The elements that are read back -/

/-- The elements of a test case that is read back. -/
def testcaseBody (junitCase : JunitCase) : Forest :=
  match junitCase.kind with
  | .passed => .text []
  | .failure => (problemTree (failureTag junitCase) junitCase).clean xmlEscaper
  | .error => (problemTree (errorTag junitCase) junitCase).clean xmlEscaper

/-- The elements of the test cases: one for each, with what it holds. -/
theorem elements_testcasesTree (redactor : Redactor) (case : CaseResult) (cases : List JunitCase) :
    ((testcasesTree redactor case cases).clean xmlEscaper).elements
      = cases.map fun junitCase =>
        ((testcaseTag redactor case junitCase).clean xmlEscaper, testcaseBody junitCase) := by
  induction cases with
  | nil => rfl
  | cons junitCase rest ih =>
    rw [List.map_cons, ← ih, testcasesTree, testcaseBody]
    cases junitCase.kind with
    | passed => rfl
    | failure => rfl
    | error => rfl

/-- The test cases of a suite. -/
theorem testcases_suiteTree (redactor : Redactor) (case : CaseResult) :
    ((suiteTree redactor case).clean xmlEscaper).named "testcase".toList
      = (junitCases case redactor).map fun junitCase =>
        ((testcaseTag redactor case junitCase).clean xmlEscaper, testcaseBody junitCase) := by
  rw [Forest.named, suiteTree, Forest.clean, Forest.elements, elements_testcasesTree,
    List.filter_cons_of_neg (by simp [Tag.clean, propertiesTag, Tag.ofKeys])]
  refine List.filter_eq_self.mpr fun element helement => ?_
  obtain ⟨junitCase, -, rfl⟩ := List.mem_map.mp helement
  exact decide_eq_true rfl

/-- The suites of a report. -/
theorem suites_suitesTree (redactor : Redactor) (cases : List CaseResult) :
    ((suitesTree redactor cases).clean xmlEscaper).named "testsuite".toList
      = cases.map fun case =>
        ((suiteTag redactor case).clean xmlEscaper,
            (suiteTree redactor case).clean xmlEscaper) := by
  induction cases with
  | nil => rfl
  | cons case rest ih =>
    rw [List.map_cons, ← ih, Forest.named, suitesTree, Forest.clean, Forest.elements]
    exact List.filter_cons_of_pos (decide_eq_true rfl)

/-- Whether a test case has an element of a kind. -/
theorem named_testcaseBody_failure (junitCase : JunitCase) :
    ((testcaseBody junitCase).named "failure".toList).length
      = if junitCase.kind = .failure then 1 else 0 := by
  unfold testcaseBody
  cases junitCase.kind with
  | passed => rfl
  | failure => rfl
  | error => rfl

/-- A test case holds an error when it is one. -/
theorem named_testcaseBody_error (junitCase : JunitCase) :
    ((testcaseBody junitCase).named "error".toList).length
      = if junitCase.kind = .error then 1 else 0 := by
  unfold testcaseBody
  cases junitCase.kind with
  | passed => rfl
  | failure => rfl
  | error => rfl

/-! ### Totals -/

/-- The number in an attribute. -/
def numberOf (tag : Tag) (key : Text) : Option Nat := (tag.attr key).bind parseDigits

/-- The elements of a name in the test cases of a suite. -/
def inTestcases (suite : Tag × Forest) (name : Text) : List (Tag × Forest) :=
  (suite.2.named "testcase".toList).flatMap fun testcase => testcase.2.named name

/-- The attributes of a suite are the numbers of its elements. -/
structure CountsElements (suite : Tag × Forest) : Prop where
  tests : numberOf suite.1 "tests".toList = some (suite.2.named "testcase".toList).length
  failures : numberOf suite.1 "failures".toList = some (inTestcases suite "failure".toList).length
  errors : numberOf suite.1 "errors".toList = some (inTestcases suite "error".toList).length

/-- An attribute of the root is the sum of the attributes of the suites. -/
def SumsUp (document : Tag × Forest) (key : Text) : Prop :=
  ∃ numbers : List Nat,
      (document.2.named "testsuite".toList).map (fun suite => numberOf suite.1 key)
      = numbers.map some ∧ numberOf document.1 key = some numbers.sum

/-- The totals of a document add up. -/
structure AddsUp (document : Tag × Forest) : Prop where
  suites : ∀ suite ∈ document.2.named "testsuite".toList, CountsElements suite
  sums : ∀ key ∈ ["tests".toList, "failures".toList, "errors".toList], SumsUp document key

/-! ### Values that are read back -/

/-- An attribute of a tag that is read back. -/
theorem attr_clean (tag : Tag) (key : Text) :
    (tag.clean xmlEscaper).attr key = (tag.attr key).map xmlEscaper.cleanValue := by
  show ((tag.attrs.map fun a => (a.1, xmlEscaper.cleanValue a.2)).find? _).map Prod.snd = _
  rw [List.find?_map, Tag.attr, Option.map_map, Option.map_map]
  rfl

/-- A line break that is read is a line feed. -/
theorem mem_lineEnds {t : Text} {c : Char} (h : c ∈ lineEnds t) :
    c ≠ '\r' ∧ (c = '\n' ∨ c ∈ t) := by
  fun_induction lineEnds t with
  | case1 rest ih =>
    rcases List.mem_cons.mp h with rfl | h
    · exact ⟨by decide, Or.inl rfl⟩
    · exact ⟨(ih h).1, (ih h).2.imp_right fun hc =>
          List.mem_cons_of_mem _ (List.mem_cons_of_mem _ hc)⟩
  | case2 rest _ ih =>
    rcases List.mem_cons.mp h with rfl | h
    · exact ⟨by decide, Or.inl rfl⟩
    · exact ⟨(ih h).1, (ih h).2.imp_right fun hc => List.mem_cons_of_mem _ hc⟩
  | case3 d rest _ hreturn ih =>
    rcases List.mem_cons.mp h with rfl | h
    · exact ⟨fun heq => hreturn heq, Or.inr List.mem_cons_self⟩
    · exact ⟨(ih h).1, (ih h).2.imp_right fun hc => List.mem_cons_of_mem _ hc⟩
  | case4 => exact absurd h List.not_mem_nil

/-- Without a carriage return nothing changes. -/
theorem lineEnds_of_plain {t : Text} (h : '\r' ∉ t) : lineEnds t = t := by
  fun_induction lineEnds t with
  | case1 rest ih => exact absurd List.mem_cons_self h
  | case2 rest _ ih => exact absurd List.mem_cons_self h
  | case3 d rest _ _ ih => rw [ih fun hc => h (List.mem_cons_of_mem _ hc)]
  | case4 => rfl

/-- A value comes back unchanged exactly when it holds no control character. -/
theorem cleanValue_eq_self_iff (t : Text) :
    xmlEscaper.cleanValue t = t ↔ ∀ c ∈ t, 0x20 ≤ c.toNat := by
  constructor
  · intro h c hc
    rw [← h] at hc
    obtain ⟨d, hd, rfl⟩ := List.mem_map.mp hc
    obtain ⟨hreturn, hd⟩ := mem_lineEnds hd
    -- Tabs and line feeds become spaces, and a kept character is no control character.
    by_cases hblank : d = '\t' ∨ d = '\n'
    · rw [if_pos hblank]
      decide
    · rw [if_neg hblank]
      have hmem : d ∈ withoutControls t := by
        rw [← kept_eq]
        exact hd.resolve_left fun hline => hblank (Or.inr hline)
      have hkept := (List.mem_filter.mp hmem).2
      rw [not_or] at hblank
      by_contra hlow
      -- Any other control character was dropped, so it could not be in the text.
      have hdropped : isDropped d = true := by
        simp only [isDropped, decide_eq_true_eq]
        exact ⟨hblank.1, hblank.2, hreturn, by omega⟩
      rw [hdropped] at hkept
      exact Bool.false_ne_true hkept
  · intro h
    -- In a text without control characters nothing is dropped, joined or made a space.
    have hne : ∀ d : Char, d.toNat < 0x20 → d ∉ t := by
      intro d hd hmem
      have hhigh := h d hmem
      omega
    have hkept : xmlEscaper.kept t = t := by
      rw [kept_eq]
      refine List.filter_eq_self.mpr fun c hc => ?_
      have hlow : ¬ c.toNat < 0x20 := Nat.not_lt.mpr (h c hc)
      simp [isDropped, hlow]
    have hblanks : blanks t = t := by
      refine (List.map_congr_left fun c hc => if_neg ?_).trans (List.map_id t)
      rintro (rfl | rfl)
      · exact hne '\t' (by decide) hc
      · exact hne '\n' (by decide) hc
    rw [Escaper.cleanValue, hkept, lineEnds_of_plain (hne '\r' (by decide)), hblanks]

/-- A number comes back unchanged. -/
theorem cleanValue_natText (n : Nat) : xmlEscaper.cleanValue (natText n) = natText n := by
  refine (cleanValue_eq_self_iff _).mpr fun c hc => ?_
  have hzero : '0'.toNat = 48 := rfl
  have hdigit := Nat.isDigit_of_mem_toDigits (by decide) (by decide) hc
  rw [Char.isDigit_iff_toNat] at hdigit
  omega

/-- The number in an attribute that holds one. -/
theorem numberOf_clean {tag : Tag} {key : Text} {n : Nat} (h : tag.attr key = some (natText n)) :
    numberOf (tag.clean xmlEscaper) key = some n := by
  rw [numberOf, attr_clean, h, Option.map_some, cleanValue_natText, Option.bind_some,
    parseDigits_natText]

/-- Counting is adding ones. -/
theorem sum_map_ite {α : Type*} (p : α → Prop) [DecidablePred p] (l : List α) :
    (l.map fun x => if p x then 1 else 0).sum = l.countP fun x => p x := by
  induction l with
  | nil => rfl
  | cons x l ih =>
    rw [List.map_cons, List.sum_cons, ih, List.countP_cons, Nat.add_comm]
    simp

/-- The attributes of every suite are the numbers of its elements. -/
theorem countsElements_suite (redactor : Redactor) (case : CaseResult) :
    CountsElements ((suiteTag redactor case).clean xmlEscaper,
      (suiteTree redactor case).clean xmlEscaper) := by
  refine ⟨?_, ?_, ?_⟩
  · rw [testcases_suiteTree, List.length_map]
    exact numberOf_clean rfl
  · rw [inTestcases, testcases_suiteTree, List.flatMap_map, List.length_flatMap]
    simp only [named_testcaseBody_failure]
    rw [sum_map_ite]
    exact numberOf_clean rfl
  · rw [inTestcases, testcases_suiteTree, List.flatMap_map, List.length_flatMap]
    simp only [named_testcaseBody_error]
    rw [sum_map_ite]
    exact numberOf_clean rfl

/-- The assertions of a sent request that did not hold. -/
def failedAssertions (case : CaseResult) : Nat :=
  if case.outcome.isErrored then 0 else case.assertions.countP fun assertion => !assertion.passed

/-- The test cases of a request that was sent. -/
theorem sentCases_counts (case : CaseResult) (redactor : Redactor) :
    (sentCases case redactor).length = max 1 case.assertions.length ∧
    countKind .failure (sentCases case redactor)
      = case.assertions.countP (fun assertion => !assertion.passed) ∧
    countKind .error (sentCases case redactor) = 0 := by
  have hkind : ∀ assertion : AssertionLine,
      (if assertion.passed then JunitKind.passed else .failure) ≠ .error := by
    intro assertion
    cases assertion.passed with
    | true => decide
    | false => decide
  unfold sentCases
  by_cases hnone : case.assertions = []
  · simp [hnone, countKind]
  · have hlength : max 1 case.assertions.length = case.assertions.length :=
      max_eq_right (Nat.succ_le_of_lt (List.length_pos_of_ne_nil hnone))
    rw [if_neg hnone, List.length_map, hlength]
    simp [countKind, List.countP_map, Function.comp_def, assertionCase, hkind]

/-- A request that was not sent has one test case, an error. The others have one for each
assertion, or one that passed. -/
theorem junitCases_counts (case : CaseResult) (redactor : Redactor) :
    (junitCases case redactor).length
      = (if case.outcome.isErrored then 1 else max 1 case.assertions.length) ∧
    countKind .failure (junitCases case redactor) = failedAssertions case ∧
    countKind .error (junitCases case redactor) = if case.outcome.isErrored then 1 else 0 := by
  unfold failedAssertions
  cases herrored : case.outcome.isErrored with
  | true =>
    obtain ⟨reason, hreason⟩ := errored_of_isErrored herrored
    unfold junitCases
    rw [hreason]
    exact ⟨rfl, rfl, rfl⟩
  | false =>
    rw [junitCases_of_sent herrored]
    exact sentCases_counts case redactor

/-- An attribute of the root adds up when the numbers do. -/
theorem sumsUp_iff {report : RunReport} {redactor : Redactor} {key : Text} {total : Nat}
    {f : CaseResult → Nat} (hroot : (suitesTag report redactor).attr key = some (natText total))
    (hsuite : ∀ case, (suiteTag redactor case).attr key = some (natText (f case))) :
    SumsUp ((suitesTag report redactor).clean xmlEscaper,
        (suitesTree redactor report.cases).clean xmlEscaper) key ↔
      total = (report.cases.map f).sum := by
  have hnumbers : (((suitesTree redactor report.cases).clean xmlEscaper).named
      "testsuite".toList).map (fun suite => numberOf suite.1 key)
        = (report.cases.map f).map some := by
    rw [suites_suitesTree, List.map_map, List.map_map]
    exact List.map_congr_left fun case _ => numberOf_clean (hsuite case)
  constructor
  · rintro ⟨numbers, hmap, htotal⟩
    have hsame : report.cases.map f = numbers :=
      List.map_injective_iff.mpr (Option.some_injective Nat) (hnumbers.symm.trans hmap)
    rw [numberOf_clean hroot] at htotal
    rw [hsame]
    exact Option.some.inj htotal
  · intro h
    exact ⟨report.cases.map f, hnumbers, h ▸ numberOf_clean hroot⟩

/-- A list is no longer than a sum of positive numbers over it. -/
theorem length_le_sum {α : Type*} {f : α → Nat} {l : List α} (h : ∀ x ∈ l, 1 ≤ f x) :
    l.length ≤ (l.map f).sum := by
  induction l with
  | nil => exact Nat.le_refl 0
  | cons x l ih =>
    have hx := h x List.mem_cons_self
    have hrest := ih fun y hy => h y (List.mem_cons_of_mem _ hy)
    rw [List.map_cons, List.sum_cons, List.length_cons]
    omega

/-- Positive numbers add up to their count exactly when each is one. -/
theorem length_eq_sum_iff {α : Type*} {f : α → Nat} {l : List α} (h : ∀ x ∈ l, 1 ≤ f x) :
    l.length = (l.map f).sum ↔ ∀ x ∈ l, f x = 1 := by
  induction l with
  | nil => simp
  | cons x l ih =>
    have hx := h x List.mem_cons_self
    have hpos : ∀ y ∈ l, 1 ≤ f y := fun y hy => h y (List.mem_cons_of_mem _ hy)
    have hle := length_le_sum hpos
    rw [List.forall_mem_cons, ← ih hpos, List.map_cons, List.sum_cons, List.length_cons]
    omega

/-- The attributes of every suite are the numbers of its elements. The totals of the root count
requests: the suites, the requests that failed, and those that were not sent. The last one is the
sum of the suites. The others are the sums exactly when no sent request has more than one
assertion, and when as many requests failed as assertions did. -/
theorem junit_totals (report : RunReport) (redactor : Redactor) :
    ∃ document, readDocument (toJunit report redactor) = some document ∧
      (∀ suite ∈ document.2.named "testsuite".toList, CountsElements suite) ∧
      numberOf document.1 "tests".toList
        = some (document.2.named "testsuite".toList).length ∧
      numberOf document.1 "failures".toList = some report.failures ∧
      SumsUp document "errors".toList ∧
      (SumsUp document "tests".toList ↔
        ∀ case ∈ report.cases, case.outcome.isErrored = false → case.assertions.length ≤ 1) ∧
      (SumsUp document "failures".toList ↔
        report.failures = (report.cases.map failedAssertions).sum) := by
  -- The tree that was written is read back clean, so its numbers are those of the tree.
  let document := ((suitesTag report redactor).clean xmlEscaper,
    (suitesTree redactor report.cases).clean xmlEscaper)
  have hcounts := fun case => junitCases_counts case redactor
  have hsuites : ∀ suite ∈ document.2.named "testsuite".toList, CountsElements suite := by
    intro suite hsuite
    rw [suites_suitesTree] at hsuite
    obtain ⟨case, -, rfl⟩ := List.mem_map.mp hsuite
    exact countsElements_suite redactor case
  have hlength : numberOf document.1 "tests".toList
      = some (document.2.named "testsuite".toList).length := by
    rw [suites_suitesTree, List.length_map]
    exact numberOf_clean rfl
  -- Every suite has one test at least, so the sum is the number of cases or more.
  have htests : SumsUp document "tests".toList ↔
      ∀ case ∈ report.cases, case.outcome.isErrored = false → case.assertions.length ≤ 1 := by
    have hsum : SumsUp document "tests".toList ↔ report.cases.length
        = (report.cases.map fun case => (junitCases case redactor).length).sum :=
      sumsUp_iff rfl fun _ => rfl
    have hpos : ∀ case ∈ report.cases, 1 ≤ (junitCases case redactor).length := by
      intro case _
      rw [(hcounts case).1]
      split_ifs
      · exact Nat.le_refl 1
      · exact Nat.le_max_left 1 _
    rw [hsum, length_eq_sum_iff hpos]
    refine forall₂_congr fun case _ => ?_
    rw [(hcounts case).1]
    cases case.outcome.isErrored with
    | true => simp
    | false => simp
  -- The root counts requests that failed, the suites count their assertions.
  have hfailures : SumsUp document "failures".toList ↔
      report.failures = (report.cases.map failedAssertions).sum := by
    have hsum : SumsUp document "failures".toList ↔ report.failures
        = (report.cases.map fun case => countKind .failure (junitCases case redactor)).sum :=
      sumsUp_iff rfl fun _ => rfl
    rw [hsum, List.map_congr_left fun case _ => (hcounts case).2.1]
  -- A request that was not sent is the one error of its suite.
  have herrors : SumsUp document "errors".toList := by
    have hsum : SumsUp document "errors".toList ↔ report.errors
        = (report.cases.map fun case => countKind .error (junitCases case redactor)).sum :=
      sumsUp_iff rfl fun _ => rfl
    rw [hsum, List.map_congr_left fun case _ => (hcounts case).2.2, sum_map_ite]
    simp [RunReport.errors]
  exact ⟨document, readDocument_toJunit report redactor, hsuites, hlength, numberOf_clean rfl,
    herrors, htests, hfailures⟩

/-- A run of one request that two assertions check. -/
def checkedTwice : RunReport where
  collection := "shop".toList
  environment := none
  startedMs := 0
  cases := [{
    id := "items".toList, method := "GET".toList, url := "https://shop.test/items".toList
    status := some 200, durationMs := 3, outcome := .passed
    assertions := [⟨"status equals 200".toList, true, "200".toList⟩,
      ⟨"duration below 500".toList, true, "3".toList⟩] }]

/-- The root says that there is one test, and the suite says two. -/
theorem not_junit_totals_sums : ¬ ∃ document,
    readDocument (toJunit checkedTwice Redactor.empty) = some document ∧ AddsUp document := by
  rintro ⟨document, hread, hadds⟩
  rw [readDocument_toJunit] at hread
  obtain rfl := Option.some.inj hread
  have htests := hadds.sums "tests".toList (by decide)
  have hsum : checkedTwice.total = (checkedTwice.cases.map fun case =>
      (junitCases case Redactor.empty).length).sum := (sumsUp_iff rfl fun _ => rfl).mp htests
  exact absurd hsum (by decide)

/-! ### Characters and elements -/

/-- A text that XML can hold: the escaper leaves U+FFFE and U+FFFF alone. -/
def NoNonchar (t : Text) : Prop := '\uFFFE' ∉ t ∧ '\uFFFF' ∉ t

/-- The escaper writes forbidden characters for U+FFFE and U+FFFF only. -/
theorem all_xmlChar_iff (c : Char) :
    (xmlChar c).all isXmlChar = true ↔ c ≠ '\uFFFE' ∧ c ≠ '\uFFFF' := by
  have hcode : ∀ d : Char, c ≠ d ↔ c.toNat ≠ d.toNat := fun d => Char.toNat_inj.symm.not
  have hfirst : c ≠ '\uFFFE' ↔ c.toNat ≠ 0xFFFE := hcode '\uFFFE'
  have hlast : c ≠ '\uFFFF' ↔ c.toNat ≠ 0xFFFF := hcode '\uFFFF'
  unfold xmlChar
  split_ifs with hamp hlt hgt hquot hapos hblank hlow
  · subst hamp; decide
  · subst hlt; decide
  · subst hgt; decide
  · subst hquot; decide
  · subst hapos; decide
  · rcases hblank with rfl | rfl | rfl <;> decide
  · rw [hfirst, hlast]
    refine iff_of_true rfl ⟨?_, ?_⟩ <;> omega
  · rw [not_or, not_or] at hblank
    rw [hfirst, hlast, List.all_cons, List.all_nil, Bool.and_true, isXmlChar, decide_eq_true_iff]
    simp only [hblank, false_or]
    exact and_iff_right (Nat.not_lt.mp hlow)

/-- What the escaper writes of a text is XML exactly when the text has no noncharacter. -/
theorem allOf_isXmlChar_iff (t : Text) :
    xmlEscaper.AllOf (fun c => isXmlChar c = true) t ↔ NoNonchar t := by
  have hchars : xmlEscaper.AllOf (fun c => isXmlChar c = true) t ↔
      ∀ c ∈ t, c ≠ '\uFFFE' ∧ c ≠ '\uFFFF' := by
    rw [Escaper.AllOf, Escaper.escape, List.forall_mem_flatMap]
    refine forall₂_congr fun c _ => ?_
    rw [← all_xmlChar_iff, List.all_eq_true]
    exact Iff.rfl
  rw [hchars]
  constructor
  · intro h
    exact ⟨fun hmem => (h _ hmem).1 rfl, fun hmem => (h _ hmem).2 rfl⟩
  · rintro ⟨hfirst, hlast⟩ c hc
    exact ⟨fun heq => hfirst (heq ▸ hc), fun heq => hlast (heq ▸ hc)⟩

/-- To have no noncharacter is a property of each part of a text. -/
theorem textwise_noNonchar : Textwise NoNonchar where
  space a b := by simp [NoNonchar, and_and_and_comm]
  line a b := by simp [NoNonchar, and_and_and_comm]
  comma a := by simp [NoNonchar]
  words := by
    intro word hword
    have hall : ∀ word ∈ junitWords, word.all (fun c => c ≠ '\uFFFE' ∧ c ≠ '\uFFFF') = true := by
      decide
    have hchars := List.all_eq_true.mp (hall word hword)
    exact ⟨fun hmem => absurd (hchars _ hmem) (by decide),
      fun hmem => absurd (hchars _ hmem) (by decide)⟩

/-- The numbers of a report have no forbidden character. -/
theorem noNonchar_numbers {report : RunReport} {redactor : Redactor} {t : Text}
    (h : t ∈ junitNumbers report redactor) : NoNonchar t := by
  constructor
  · intro hmem
    exact absurd (junitNumbers_plain h hmem) (by decide)
  · intro hmem
    exact absurd (junitNumbers_plain h hmem) (by decide)

/-- The characters of the report are allowed exactly when those of its texts are. -/
theorem forall_mem_toJunit_iff (report : RunReport) (redactor : Redactor) :
    (∀ c ∈ toJunit report redactor, isXmlChar c = true) ↔
      (∀ case ∈ report.cases, NoNonchar case.method) ∧
        ∀ t ∈ redactedTexts report, NoNonchar (redactor.apply t) := by
  have hletter : ∀ c : Char, c.isAlpha = true → isXmlChar c = true := by
    intro c hc
    simp only [Char.isAlpha, Char.isUpper, Char.isLower, Bool.or_eq_true, Bool.and_eq_true,
      decide_eq_true_eq, UInt32.le_iff_toNat_le] at hc
    have hlow : 0x41 ≤ c.toNat ∧ c.toNat ≤ 0x7A := by
      rcases hc with ⟨hlow, hhigh⟩ | ⟨hlow, hhigh⟩
      · exact ⟨hlow, le_trans hhigh (by decide)⟩
      · exact ⟨le_trans (by decide) hlow, hhigh⟩
    rw [isXmlChar, decide_eq_true_iff]
    refine Or.inr (Or.inr (Or.inr ⟨?_, ?_, ?_⟩)) <;> omega
  have hmarks : ∀ c ∈ "<>/=\" ".toList, isXmlChar c = true := Text.forall_mem_of_all (by decide)
  have hdeclaration : ∀ c ∈ declaration, isXmlChar c = true := Text.forall_mem_of_all (by decide)
  rw [toJunit_eq, List.forall_mem_append, and_iff_right hdeclaration,
    forall_mem_write xmlEscaper hletter hmarks]
  simp only [allOf_isXmlChar_iff]
  rw [textwise_noNonchar.forall_junitTree, and_iff_right fun t => noNonchar_numbers]

/-- Whether a test case holds a failure. -/
def hasFailure (testcase : Tag × Forest) : Bool := testcase.2.named "failure".toList ≠ []

/-- For each test case of a request, whether it failed: one for each assertion, and one that did
not fail when no assertion was checked. -/
def expectedFailures (case : CaseResult) : List Bool :=
  if case.outcome.isErrored ∨ case.assertions = [] then [false]
  else case.assertions.map fun assertion => !assertion.passed

/-- A suite says what a request did, under an id. -/
structure SuiteSays (case : CaseResult) (id : Text) (suite : Tag × Forest) : Prop where
  name : suite.1.attr "name".toList = some id
  failures : (suite.2.named "testcase".toList).map hasFailure = expectedFailures case

/-- The document that is read back says what the run did. The ids are the redacted ones, as
`carried` changes them. -/
def SaysRun (carried : Text → Text) (report : RunReport) (redactor : Redactor) : Prop :=
  ∃ document, readDocument (toJunit report redactor) = some document ∧
    List.Forall₂ (fun case => SuiteSays case (carried (redactor.apply case.id))) report.cases
      (document.2.named "testsuite".toList)

/-- The test cases that are read back failed where the assertions did. -/
theorem map_hasFailure (redactor : Redactor) (case : CaseResult) :
    (((suiteTree redactor case).clean xmlEscaper).named "testcase".toList).map hasFailure
      = expectedFailures case := by
  -- The body of a case says whether it failed.
  have hbody : ∀ tag junitCase,
      hasFailure (tag, testcaseBody junitCase) = decide (junitCase.kind = .failure) := by
    intro tag junitCase
    unfold testcaseBody
    cases junitCase.kind with
    | passed => rfl
    | failure => rfl
    | error => rfl
  rw [testcases_suiteTree, List.map_map]
  simp only [Function.comp_def, hbody]
  unfold expectedFailures
  -- An errored case is no failure; without assertions a sent case is one that passed.
  cases herrored : case.outcome.isErrored with
  | true =>
    obtain ⟨reason, hreason⟩ := errored_of_isErrored herrored
    unfold junitCases
    rw [hreason]
    rfl
  | false =>
    rw [junitCases_of_sent herrored, sentCases]
    by_cases hnone : case.assertions = []
    · simp [hnone]
    · simp [hnone, assertionCase]

/-- The report says what the run did, with ids as an attribute can carry them. -/
theorem saysRun_iff (carried : Text → Text) (report : RunReport) (redactor : Redactor) :
    SaysRun carried report redactor ↔ ∀ case ∈ report.cases,
      xmlEscaper.cleanValue (redactor.apply case.id) = carried (redactor.apply case.id) := by
  have hsuites : SaysRun carried report redactor ↔
      List.Forall₂ (fun case => SuiteSays case (carried (redactor.apply case.id))) report.cases
        (report.cases.map fun case => ((suiteTag redactor case).clean xmlEscaper,
          (suiteTree redactor case).clean xmlEscaper)) := by
    rw [← suites_suitesTree, SaysRun, readDocument_toJunit]
    constructor
    · rintro ⟨document, hdocument, h⟩
      obtain rfl := Option.some.inj hdocument
      exact h
    · intro h
      exact ⟨_, rfl, h⟩
  rw [hsuites, List.forall₂_map_right_iff, List.forall₂_same]
  refine forall₂_congr fun case _ => ?_
  have hname : ((suiteTag redactor case).clean xmlEscaper).attr "name".toList
      = some (xmlEscaper.cleanValue (redactor.apply case.id)) := attr_clean _ _
  constructor
  · intro h
    exact Option.some.inj (hname.symm.trans h.name)
  · intro h
    exact ⟨hname.trans (congrArg some h), map_hasFailure redactor case⟩

/-- The report is one document that says what the run did. Its ids lose their C0 controls, and
the white space in them is read as spaces; an id without control characters is unchanged. The
document is well-formed when no text that is written holds U+FFFE or U+FFFF. -/
theorem junit_document (report : RunReport) (redactor : Redactor) :
    SaysRun xmlEscaper.cleanValue report redactor ∧
      (∀ case ∈ report.cases, (∀ c ∈ redactor.apply case.id, 0x20 ≤ c.toNat) →
        xmlEscaper.cleanValue (redactor.apply case.id) = redactor.apply case.id) ∧
      ((∀ case ∈ report.cases, NoNonchar case.method) ∧
        (∀ t ∈ redactedTexts report, NoNonchar (redactor.apply t)) →
          WellFormed (toJunit report redactor)) := by
  have hsaid := (saysRun_iff xmlEscaper.cleanValue report redactor).mpr fun _ _ => rfl
  have hread : (readDocument (toJunit report redactor)).isSome = true := by
    rw [readDocument_toJunit]
    rfl
  refine ⟨hsaid, fun case _ hplain => (cleanValue_eq_self_iff _).mpr hplain, fun htexts => ?_⟩
  exact ⟨(forall_mem_toJunit_iff report redactor).mpr htexts, hread⟩

/-- A request whose id holds control characters. -/
def strangeId : RunReport where
  collection := "shop".toList
  environment := none
  startedMs := 0
  cases := [{
    id := "weird\x00name".toList, method := "GET".toList, url := "https://shop.test/".toList
    status := some 200, durationMs := 3, outcome := .passed, assertions := [] }]

/-- The id that is read back is `weirdname`. -/
theorem not_junit_document_id :
    ¬ (WellFormed (toJunit strangeId Redactor.empty)
      ∧ SaysRun id strangeId Redactor.empty) := by
  rintro ⟨-, hsaid⟩
  have hid := (saysRun_iff id strangeId Redactor.empty).mp hsaid _ List.mem_cons_self
  exact absurd hid (by decide +kernel)

end Gabriel.Cli
