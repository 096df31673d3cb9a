import Gabriel.Lib.Markup
import Gabriel.Cli.Report

/-!
# `Gabriel.Proofs.JunitTree`: the JUnit report as a document

`toJunit` puts a document together from literals and escaped values. `junitTree` is the tree of
this document, built from the tags and forests of `Lib/Markup`, and the report is its text behind
the declaration. So the lemmas about written forests apply to the report.

`xmlEscaper` is `xml` as an escaper. It drops the C0 controls (`xmlChar_eq_nil_iff`) and leaves
every other character that is not special alone. Numbers and times have no special character, so
they are in the document as they are (`escape_natText`, `escape_seconds`).

The text of the tree is compared with the report element by element, from the test case outwards
(`write_testcasesTree`, `write_suite`, `write_suitesTree`). The `_literal` lemmas cut a literal of
the source into the marks of a tag and the white space around it, which is what the writer of
trees puts there. The theorems:

* `toJunit_eq`: the report is the declaration and the text of the tree.
* `readDocument_toJunit`: the report is read back, as the tree with what the escaper keeps.
* `segments_toJunit`: a reader of the report sees the declaration and the texts of the tree.
* `forall_junitTree`: a property of texts that does not look at the fixed ones (`Textwise`) holds
  of all texts of the report exactly when it holds of its numbers, its methods and the texts that
  the redactor sees.
-/

set_option autoImplicit false

namespace Gabriel.Cli

open Gabriel.Core Text Markup

/-! ### The escaper -/

/-- The C0 controls that XML forbids. -/
def isDropped (c : Char) : Bool := c ≠ '\t' ∧ c ≠ '\n' ∧ c ≠ '\r' ∧ c.toNat < 0x20

/-- The characters of a text that the escaper writes. -/
def withoutControls (t : Text) : Text := t.filter fun c => !isDropped c

/-- What `xml` writes for a character: nothing, the character itself when it is not special, or one
of its references. -/
theorem xmlChar_lawful (c : Char) : xmlChar c = [] ∨ xmlChar c = [c] ∧ c ∉ special ∨
    ∃ r ∈ xmlRefs, r.2 = c ∧ xmlChar c = '&' :: r.1 := by
  unfold xmlChar
  split_ifs with hamp hlt hgt hquot hapos hblank hcontrol
  · exact Or.inr (Or.inr ⟨("amp;".toList, '&'), by decide, hamp.symm, rfl⟩)
  · exact Or.inr (Or.inr ⟨("lt;".toList, '<'), by decide, hlt.symm, rfl⟩)
  · exact Or.inr (Or.inr ⟨("gt;".toList, '>'), by decide, hgt.symm, rfl⟩)
  · exact Or.inr (Or.inr ⟨("quot;".toList, '"'), by decide, hquot.symm, rfl⟩)
  · exact Or.inr (Or.inr ⟨("apos;".toList, '\''), by decide, hapos.symm, rfl⟩)
  · exact Or.inr (Or.inl ⟨rfl, by simp [special, hamp, hlt, hgt, hquot]⟩)
  · exact Or.inl rfl
  · exact Or.inr (Or.inl ⟨rfl, by simp [special, hamp, hlt, hgt, hquot]⟩)

/-- `xml` as an escaper. -/
def xmlEscaper : Escaper where
  refs := xmlRefs
  escapeChar := xmlChar
  names := by
    intro r hr c hc
    have hall : ∀ r ∈ xmlRefs, r.1.all (fun c => c ∉ special) = true := by decide
    exact of_decide_eq_true (List.all_eq_true.mp (hall r hr) c hc)
  apart := by decide
  lawful := xmlChar_lawful

/-- `xml` is this escaper, by definition. -/
theorem xml_eq (t : Text) : xml t = xmlEscaper.escape t := rfl

/-- The escaper drops exactly the controls. -/
theorem xmlChar_eq_nil_iff (c : Char) : xmlChar c = [] ↔ isDropped c = true := by
  unfold xmlChar isDropped
  split_ifs with hamp hlt hgt hquot hapos hblank hlow
  · subst hamp; decide
  · subst hlt; decide
  · subst hgt; decide
  · subst hquot; decide
  · subst hapos; decide
  · rcases hblank with rfl | rfl | rfl <;> decide
  · simp only [not_or] at hblank
    simp [hblank, hlow]
  · simp [hlow]

/-- What the escaper keeps of a text is the text without its controls. -/
theorem kept_eq (t : Text) : xmlEscaper.kept t = withoutControls t := by
  refine List.filter_congr fun c _ => ?_
  have hiff := xmlChar_eq_nil_iff c
  show decide (xmlChar c ≠ []) = !isDropped c
  by_cases h : isDropped c = true
  · simp [hiff.mpr h, h]
  · simp [mt hiff.mp h, h]

/-- A text without special characters and controls is written as it is. -/
theorem escape_of_plain {t : Text} (h : ∀ c ∈ t, xmlChar c = [c]) : xmlEscaper.escape t = t := by
  induction t with
  | nil => rfl
  | cons c t ih =>
    rw [Escaper.escape, List.flatMap_cons, ← Escaper.escape,
      ih fun d hd => h d (List.mem_cons_of_mem _ hd)]
    show xmlChar c ++ t = c :: t
    rw [h c List.mem_cons_self]
    rfl

/-- Digits are written as they are. -/
theorem xmlChar_of_isDigit {c : Char} (h : c.isDigit = true) : xmlChar c = [c] := by
  have hzero : '0'.toNat = 48 := rfl
  have hnine : '9'.toNat = 57 := rfl
  rw [Char.isDigit_iff_toNat] at h
  have hne : ∀ d : Char, d.toNat < 48 ∨ 57 < d.toNat → c ≠ d := by
    rintro d hd rfl
    omega
  unfold xmlChar
  rw [if_neg (hne _ (by decide)), if_neg (hne _ (by decide)), if_neg (hne _ (by decide)),
    if_neg (hne _ (by decide)), if_neg (hne _ (by decide))]
  split_ifs with hblank hcontrol
  · rfl
  · omega
  · rfl

/-- A number is written as it is. -/
theorem escape_natText (n : Nat) : xmlEscaper.escape (natText n) = natText n :=
  escape_of_plain fun _ hc =>
    xmlChar_of_isDigit (Nat.isDigit_of_mem_toDigits (by decide) (by decide) hc)

/-- A time is written as it is. -/
theorem escape_seconds (ms : UInt64) : xmlEscaper.escape (seconds ms) = seconds ms := by
  refine escape_of_plain fun c hc => ?_
  rcases List.mem_append.mp hc with hc | hc
  · exact xmlChar_of_isDigit (Nat.isDigit_of_mem_toDigits (by decide) (by decide) hc)
  · rcases List.mem_cons.mp hc with rfl | hc
    · decide
    · exact xmlChar_of_isDigit (isDigit_of_mem_padded hc)

/-! ### The tree -/

/-- A line break and what the next line starts with. -/
def newLine (n : Nat) : Text := '\n' :: List.replicate n ' '

/-- The keys of the totals. -/
def totalKeys : List Text :=
  ["name".toList, "tests".toList, "failures".toList, "errors".toList, "time".toList]

/-- The tag of the root element. -/
def suitesTag (report : RunReport) (redactor : Redactor) : Tag :=
  Tag.ofKeys "testsuites".toList
    [("name".toList, redactor.apply report.collection), ("tests".toList, natText report.total),
      ("failures".toList, natText report.failures), ("errors".toList, natText report.errors),
      ("time".toList, seconds report.durationMs)]
    totalKeys rfl (by decide)

/-- The number of test cases of a kind. -/
def countKind (kind : JunitKind) (cases : List JunitCase) : Nat :=
  cases.countP fun c => c.kind = kind

/-- The tag of a suite. -/
def suiteTag (redactor : Redactor) (case : CaseResult) : Tag :=
  Tag.ofKeys "testsuite".toList
    [("name".toList, redactor.apply case.id),
      ("tests".toList, natText (junitCases case redactor).length),
      ("failures".toList, natText (countKind .failure (junitCases case redactor))),
      ("errors".toList, natText (countKind .error (junitCases case redactor))),
      ("time".toList, seconds case.durationMs)]
    totalKeys rfl (by decide)

/-- The tag around the properties. -/
def propertiesTag : Tag := Tag.ofKeys "properties".toList [] [] rfl (by decide)

/-- The tag of a property. -/
def propertyTag (name value : Text) : Tag :=
  Tag.ofKeys "property".toList [("name".toList, name), ("value".toList, value)]
    ["name".toList, "value".toList] rfl (by decide)

/-- The tag of a test case. -/
def testcaseTag (redactor : Redactor) (case : CaseResult) (junitCase : JunitCase) : Tag :=
  Tag.ofKeys "testcase".toList
    [("classname".toList, redactor.apply case.id), ("name".toList, junitCase.name),
      ("time".toList, seconds case.durationMs)]
    ["classname".toList, "name".toList, "time".toList] rfl (by decide)

/-- The tag of a failure. -/
def failureTag (junitCase : JunitCase) : Tag :=
  Tag.ofKeys "failure".toList [("message".toList, junitCase.message)] ["message".toList] rfl
    (by decide)

/-- The tag of an error. -/
def errorTag (junitCase : JunitCase) : Tag :=
  Tag.ofKeys "error".toList [("message".toList, junitCase.message)] ["message".toList] rfl
    (by decide)

/-- What a test case that did not pass holds. -/
def problemTree (tag : Tag) (junitCase : JunitCase) : Forest :=
  .element (newLine 6) tag (.text junitCase.detail) (.text (newLine 4))

/-- The test cases of a suite. -/
def testcasesTree (redactor : Redactor) (case : CaseResult) : List JunitCase → Forest
  | [] => .text (newLine 2)
  | junitCase :: rest =>
    let tag := testcaseTag redactor case junitCase
    let tail := testcasesTree redactor case rest
    match junitCase.kind with
    | .passed => .empty (newLine 4) tag tail
    | .failure => .element (newLine 4) tag (problemTree (failureTag junitCase) junitCase) tail
    | .error => .element (newLine 4) tag (problemTree (errorTag junitCase) junitCase) tail

/-- The properties of a suite. -/
def propertiesTree (redactor : Redactor) (case : CaseResult) : Forest :=
  .empty (newLine 6) (propertyTag "method".toList case.method)
    (.empty (newLine 6) (propertyTag "url".toList (redactor.apply case.url))
      (.empty (newLine 6) (propertyTag "status".toList (statusOr case.status []))
        (.text (newLine 4))))

/-- What a suite holds. -/
def suiteTree (redactor : Redactor) (case : CaseResult) : Forest :=
  .element (newLine 4) propertiesTag (propertiesTree redactor case)
    (testcasesTree redactor case (junitCases case redactor))

/-- The suites of a report. -/
def suitesTree (redactor : Redactor) : List CaseResult → Forest
  | [] => .text (newLine 0)
  | case :: rest =>
    .element (newLine 2) (suiteTag redactor case) (suiteTree redactor case)
      (suitesTree redactor rest)

/-- The document. -/
def junitTree (report : RunReport) (redactor : Redactor) : Forest :=
  .element (newLine 0) (suitesTag report redactor) (suitesTree redactor report.cases)
    (.text (newLine 0))

/-! ### The report is the text of the tree -/

/-- White space is written as it is. -/
theorem escape_newLine (n : Nat) : xmlEscaper.escape (newLine n) = newLine n := by
  refine escape_of_plain fun c hc => ?_
  rcases List.mem_cons.mp hc with rfl | hc
  · decide
  · rw [List.eq_of_mem_replicate hc]
    decide

/-! The literals of the report, as the writer of a tree puts them together. -/

section Literals

/-- The root tag up to its first value. -/
theorem suites_literal : "<testsuites name=\"".toList
    = '<' :: ("testsuites".toList ++ ' ' :: ("name".toList ++ "=\"".toList)) := rfl

/-- The tag of a suite, indented by two. -/
theorem suite_literal : "  <testsuite name=\"".toList
    = ' ' :: ' ' :: '<' :: ("testsuite".toList ++ ' ' :: ("name".toList ++ "=\"".toList)) := rfl

/-- The tag of a test case, indented by four. -/
theorem testcase_literal : "    <testcase classname=\"".toList = ' ' :: ' ' :: ' ' :: ' ' :: '<'
    :: ("testcase".toList ++ ' ' :: ("classname".toList ++ "=\"".toList)) := rfl

/-- The tag of a property, indented by six. -/
theorem property_literal : "      <property name=\"".toList = ' ' :: ' ' :: ' ' :: ' ' :: ' ' :: ' '
    :: '<' :: ("property".toList ++ ' ' :: ("name".toList ++ "=\"".toList)) := rfl

/-- What a failure or an error starts with. -/
theorem problem_literal :
    "      <".toList = ' ' :: ' ' :: ' ' :: ' ' :: ' ' :: ' ' :: ['<'] := rfl

/-- A value ends, and a `name` starts. -/
theorem name_literal :
    "\" name=\"".toList = '"' :: ' ' :: ("name".toList ++ "=\"".toList) := rfl

/-- A value ends, and a `value` starts. -/
theorem value_literal :
    "\" value=\"".toList = '"' :: ' ' :: ("value".toList ++ "=\"".toList) := rfl

/-- A value ends, and the number of tests starts. -/
theorem tests_literal :
    "\" tests=\"".toList = '"' :: ' ' :: ("tests".toList ++ "=\"".toList) := rfl

/-- A value ends, and the number of failures starts. -/
theorem failures_literal :
    "\" failures=\"".toList = '"' :: ' ' :: ("failures".toList ++ "=\"".toList) := rfl

/-- A value ends, and the number of errors starts. -/
theorem errors_literal :
    "\" errors=\"".toList = '"' :: ' ' :: ("errors".toList ++ "=\"".toList) := rfl

/-- A value ends, and the time starts. -/
theorem time_literal :
    "\" time=\"".toList = '"' :: ' ' :: ("time".toList ++ "=\"".toList) := rfl

/-- The message of a failure or an error starts. -/
theorem message_literal :
    " message=\"".toList = ' ' :: ("message".toList ++ "=\"".toList) := rfl

/-- The last value of a tag ends, and so do the tag and the line. -/
theorem open_literal : "\">\n".toList = '"' :: '>' :: ['\n'] := rfl

/-- The message ends, and the detail starts. -/
theorem detail_literal : "\">".toList = '"' :: ['>'] := rfl

/-- The last value of an element without content ends. -/
theorem empty_literal : "\"/>\n".toList = '"' :: ("/>".toList ++ ['\n']) := rfl

/-- A test case that passed has no content. -/
theorem passed_literal : "/>\n".toList = "/>".toList ++ ['\n'] := rfl

/-- A tag without a last value ends with the line. -/
theorem line_literal : ">\n".toList = '>' :: ['\n'] := rfl

/-- The end tag of a test case. -/
theorem testcase_end : "    </testcase>\n".toList
    = ' ' :: ' ' :: ' ' :: ' ' :: ("</".toList ++ ("testcase".toList ++ '>' :: ['\n'])) := rfl

/-- The end tag of a suite. -/
theorem suite_end : "  </testsuite>\n".toList
    = ' ' :: ' ' :: ("</".toList ++ ("testsuite".toList ++ '>' :: ['\n'])) := rfl

/-- The end tag of the root. -/
theorem suites_end : "</testsuites>\n".toList
    = "</".toList ++ ("testsuites".toList ++ '>' :: ['\n']) := rfl

/-- The start tag of the properties. -/
theorem properties_start : "    <properties>\n".toList
    = ' ' :: ' ' :: ' ' :: ' ' :: '<' :: ("properties".toList ++ '>' :: ['\n']) := rfl

/-- The end tag of the properties. -/
theorem properties_end : "    </properties>\n".toList
    = ' ' :: ' ' :: ' ' :: ' ' :: ("</".toList ++ ("properties".toList ++ '>' :: ['\n'])) := rfl

/-- The prolog is the declaration on a line of its own. -/
theorem prolog_eq : junitProlog = declaration ++ ['\n'] := rfl

/-- Two blanks. -/
theorem indent_two : "  ".toList = ' ' :: [' '] := rfl

/-- Four blanks. -/
theorem indent_four : "    ".toList = ' ' :: ' ' :: ' ' :: [' '] := rfl

/-- A line that starts at the margin. -/
theorem newLine_zero : newLine 0 = ['\n'] := rfl

/-- A line that is indented by two. -/
theorem newLine_two : newLine 2 = '\n' :: ' ' :: [' '] := rfl

/-- A line that is indented by four. -/
theorem newLine_four : newLine 4 = '\n' :: ' ' :: ' ' :: ' ' :: [' '] := rfl

/-- A line that is indented by six. -/
theorem newLine_six : newLine 6 = '\n' :: ' ' :: ' ' :: ' ' :: ' ' :: ' ' :: [' '] := rfl

end Literals

section Write

variable (redactor : Redactor) (case : CaseResult)

/-- The text of a test case that passed, in front of a tree that starts on a new line. -/
theorem write_passed {junitCase : JunitCase} (hkind : junitCase.kind = .passed) {tail : Forest}
    {after : Text} (htail : tail.write xmlEscaper = '\n' :: after) :
    (Forest.empty (newLine 4) (testcaseTag redactor case junitCase) tail).write xmlEscaper
      = '\n' :: (junitTestcase case redactor junitCase ++ after) := by
  unfold junitTestcase
  rw [Forest.write, htail, hkind, escape_newLine]
  simp only [testcaseTag, Tag.ofKeys, Tag.write, writeAttrs, List.flatMap_cons, List.flatMap_nil,
    escape_seconds, xml_eq, testcase_literal, name_literal, time_literal, passed_literal,
    newLine_four, List.append_assoc, List.cons_append,
    List.nil_append, List.append_nil, -String.reduceToList]

/-- The text of a problem. -/
theorem write_problemTree {tag : Tag} {junitCase : JunitCase}
    (hattrs : tag.attrs = [("message".toList, junitCase.message)]) :
    '>' :: (problemTree tag junitCase).write xmlEscaper ++ "</".toList ++ "testcase".toList
        ++ '>' :: ['\n']
      = junitProblem tag.name junitCase := by
  unfold junitProblem
  rw [problemTree, Forest.write, Forest.write, Forest.write, escape_newLine, escape_newLine]
  simp only [hattrs, Tag.write, writeAttrs, List.flatMap_cons, List.flatMap_nil, xml_eq,
    line_literal, problem_literal, message_literal, detail_literal, testcase_end, newLine_four,
    newLine_six, List.append_assoc, List.cons_append,
    List.nil_append, List.append_nil, -String.reduceToList]

/-- The text of a test case that did not pass. -/
theorem write_problem {junitCase : JunitCase} {tag : Tag}
    (hattrs : tag.attrs = [("message".toList, junitCase.message)])
    (hkind : junitCase.kind = .failure ∧ tag.name = "failure".toList
      ∨ junitCase.kind = .error ∧ tag.name = "error".toList)
    {tail : Forest} {after : Text} (htail : tail.write xmlEscaper = '\n' :: after) :
    (Forest.element (newLine 4) (testcaseTag redactor case junitCase) (problemTree tag junitCase)
        tail).write xmlEscaper
      = '\n' :: (junitTestcase case redactor junitCase ++ after) := by
  have hproblem := write_problemTree hattrs
  have hcase : junitTestcase case redactor junitCase = "    <testcase classname=\"".toList
      ++ xml (redactor.apply case.id) ++ "\" name=\"".toList ++ xml junitCase.name
      ++ "\" time=\"".toList ++ seconds case.durationMs ++ ['"']
      ++ ('>' :: (problemTree tag junitCase).write xmlEscaper ++ "</".toList ++ "testcase".toList
        ++ '>' :: ['\n']) := by
    unfold junitTestcase
    rw [hproblem]
    rcases hkind with ⟨hkind, hname⟩ | ⟨hkind, hname⟩
    · rw [hkind, hname]
    · rw [hkind, hname]
  rw [Forest.write, htail, hcase, escape_newLine]
  simp only [testcaseTag, Tag.ofKeys, Tag.write, writeAttrs, List.flatMap_cons, List.flatMap_nil,
    escape_seconds, xml_eq, testcase_literal, name_literal, time_literal, newLine_four,
    List.append_assoc, List.cons_append,
    List.nil_append, List.append_nil, -String.reduceToList]

/-- The text of the test cases starts with the end of the line before it. -/
theorem write_testcasesTree (cases : List JunitCase) :
    (testcasesTree redactor case cases).write xmlEscaper
      = '\n' :: (cases.flatMap (junitTestcase case redactor) ++ "  ".toList) := by
  induction cases with
  | nil =>
    rw [testcasesTree, Forest.write, escape_newLine]
    rfl
  | cons junitCase rest ih =>
    rw [List.flatMap_cons, List.append_assoc, testcasesTree]
    cases hkind : junitCase.kind with
    | passed => exact write_passed redactor case hkind ih
    | failure => exact write_problem redactor case rfl (Or.inl ⟨hkind, rfl⟩) ih
    | error => exact write_problem redactor case rfl (Or.inr ⟨hkind, rfl⟩) ih

/-- The text of a property. -/
theorem write_property (name value : Text) {tail : Forest} {after : Text}
    (htail : tail.write xmlEscaper = '\n' :: after) :
    (Forest.empty (newLine 6) (propertyTag name value) tail).write xmlEscaper
      = '\n' :: (junitProperty name value ++ after) := by
  unfold junitProperty
  rw [Forest.write, htail, escape_newLine]
  simp only [propertyTag, Tag.ofKeys, Tag.write, writeAttrs, List.flatMap_cons, List.flatMap_nil,
    xml_eq, property_literal, value_literal, empty_literal, newLine_six, List.append_assoc,
    List.cons_append,
    List.nil_append, List.append_nil, -String.reduceToList]

/-- The text of the properties. -/
theorem write_propertiesTree :
    (propertiesTree redactor case).write xmlEscaper
      = '\n' :: (junitProperty "method".toList case.method
        ++ (junitProperty "url".toList (redactor.apply case.url)
        ++ (junitProperty "status".toList (statusOr case.status []) ++ "    ".toList))) := by
  refine write_property _ _ (write_property _ _ (write_property _ _ ?_))
  rw [Forest.write, escape_newLine]
  rfl

/-- The text of a suite. -/
theorem write_suite {tail : Forest} {after : Text}
    (htail : tail.write xmlEscaper = '\n' :: after) :
    (Forest.element (newLine 2) (suiteTag redactor case) (suiteTree redactor case) tail).write
        xmlEscaper
      = '\n' :: (junitSuite redactor case ++ after) := by
  unfold junitSuite
  rw [Forest.write, htail, suiteTree, Forest.write, write_propertiesTree, write_testcasesTree,
    escape_newLine, escape_newLine]
  simp only [suiteTag, propertiesTag, Tag.ofKeys, Tag.write, writeAttrs, List.flatMap_cons,
    List.flatMap_nil, escape_seconds, escape_natText, xml_eq, countKind, suite_literal,
    tests_literal, failures_literal, errors_literal, time_literal, open_literal, properties_start,
    properties_end, suite_end, indent_two, indent_four, newLine_two, newLine_four,
    List.append_assoc, List.cons_append,
    List.nil_append, List.append_nil, -String.reduceToList]

/-- The text of the suites. -/
theorem write_suitesTree (cases : List CaseResult) :
    (suitesTree redactor cases).write xmlEscaper = '\n' :: cases.flatMap (junitSuite redactor) := by
  induction cases with
  | nil =>
    rw [suitesTree, Forest.write, escape_newLine]
    rfl
  | cons case rest ih =>
    rw [List.flatMap_cons]
    exact write_suite redactor case ih

end Write

/-- The report is the declaration and the text of the tree. -/
theorem toJunit_eq (report : RunReport) (redactor : Redactor) :
    toJunit report redactor = declaration ++ (junitTree report redactor).write xmlEscaper := by
  unfold toJunit
  rw [junitTree, Forest.write, Forest.write, write_suitesTree, escape_newLine]
  simp only [suitesTag, Tag.ofKeys, Tag.write, writeAttrs, List.flatMap_cons, List.flatMap_nil,
    escape_seconds, escape_natText, xml_eq, prolog_eq, suites_literal, tests_literal,
    failures_literal, errors_literal, time_literal, open_literal, suites_end, newLine_zero,
    List.append_assoc, List.cons_append,
    List.nil_append, List.append_nil, -String.reduceToList]

/-- A reader of the report sees the declaration and the texts of the tree. -/
theorem segments_toJunit (report : RunReport) (redactor : Redactor) :
    segments (toJunit report redactor)
      = [[], "1.0".toList, "UTF-8".toList]
        ++ (junitTree report redactor).shown.map xmlEscaper.escape := by
  have hscan : scan {} declaration
      = ⟨.data, [], [], [([], "?xml version=\"1.0\" encoding=\"UTF-8\"?".toList)]⟩ := by
    decide +kernel
  rw [toJunit_eq, segments_append_write xmlEscaper hscan]
  rfl

/-- The report is read back. -/
theorem readDocument_toJunit (report : RunReport) (redactor : Redactor) :
    readDocument (toJunit report redactor)
      = some ((suitesTag report redactor).clean xmlEscaper,
        (suitesTree redactor report.cases).clean xmlEscaper) := by
  have hblank : isBlank (xmlEscaper.clean (newLine 0)) = true := by decide
  rw [toJunit_eq]
  exact readDocument_write xmlEscaper rfl hblank hblank _ _

/-! ### The texts of the report -/

/-- The texts about the outcome of a request. -/
def outcomeTexts (case : CaseResult) : List Text :=
  match case.outcome with
  | .errored reason => [reason]
  | _ => case.assertions.flatMap fun assertion =>
      assertion.description :: if assertion.passed then [] else [assertion.actual]

/-- What `isErrored` says. -/
theorem errored_of_isErrored {outcome : CaseOutcome} (h : outcome.isErrored = true) :
    ∃ reason, outcome = .errored reason := by
  cases outcome with
  | errored reason => exact ⟨reason, rfl⟩
  | passed => exact absurd h Bool.false_ne_true
  | failed => exact absurd h Bool.false_ne_true

/-- A request that was sent is written as the cases of its assertions. -/
theorem junitCases_of_sent {case : CaseResult} (h : case.outcome.isErrored = false)
    (redactor : Redactor) : junitCases case redactor = sentCases case redactor := by
  unfold junitCases
  cases houtcome : case.outcome with
  | errored reason =>
    rw [houtcome] at h
    exact absurd h.symm Bool.false_ne_true
  | passed => rfl
  | failed => rfl

/-- The texts of a request that was sent are those of its assertions. -/
theorem outcomeTexts_of_sent {case : CaseResult} (h : case.outcome.isErrored = false) :
    outcomeTexts case = case.assertions.flatMap fun assertion =>
      assertion.description :: if assertion.passed then [] else [assertion.actual] := by
  unfold outcomeTexts
  cases houtcome : case.outcome with
  | errored reason =>
    rw [houtcome] at h
    exact absurd h.symm Bool.false_ne_true
  | passed => rfl
  | failed => rfl

/-- The numbers of a request. -/
def caseNumbers (redactor : Redactor) (case : CaseResult) : List Text :=
  [natText (junitCases case redactor).length,
    natText (countKind .failure (junitCases case redactor)),
    natText (countKind .error (junitCases case redactor)), seconds case.durationMs,
    statusOr case.status []]

/-- The numbers of a report. -/
def junitNumbers (report : RunReport) (redactor : Redactor) : List Text :=
  [natText report.total, natText report.failures, natText report.errors,
    seconds report.durationMs] ++ report.cases.flatMap (caseNumbers redactor)

/-- The numbers of a report hold digits and points. -/
theorem junitNumbers_plain {report : RunReport} {redactor : Redactor} {t : Text}
    (h : t ∈ junitNumbers report redactor) {c : Char} (hc : c ∈ t) :
    c.isDigit = true ∨ c = '.' := by
  -- A count is written in digits, and a time is two numbers around a point.
  have hnumber : ∀ n, c ∈ natText n → c.isDigit = true ∨ c = '.' := fun n hc =>
    Or.inl (Nat.isDigit_of_mem_toDigits (by decide) (by decide) hc)
  have htime : ∀ ms, c ∈ seconds ms → c.isDigit = true ∨ c = '.' := by
    intro ms hc
    rcases List.mem_append.mp hc with hc | hc
    · exact hnumber _ hc
    · rcases List.mem_cons.mp hc with rfl | hc
      · exact Or.inr rfl
      · exact Or.inl (isDigit_of_mem_padded hc)
  have hstatus : ∀ status, c ∈ statusOr status [] → c.isDigit = true ∨ c = '.' := by
    intro status hc
    cases status with
    | none => exact absurd hc List.not_mem_nil
    | some status => exact hnumber _ hc
  -- The totals of the report come first, then the numbers of every case.
  rcases List.mem_append.mp h with h | h
  · simp only [List.mem_cons, List.not_mem_nil, or_false] at h
    rcases h with rfl | rfl | rfl | rfl
    · exact hnumber _ hc
    · exact hnumber _ hc
    · exact hnumber _ hc
    · exact htime _ hc
  · obtain ⟨case, -, h⟩ := List.mem_flatMap.mp h
    simp only [caseNumbers, List.mem_cons, List.not_mem_nil, or_false] at h
    rcases h with rfl | rfl | rfl | rfl | rfl
    · exact hnumber _ hc
    · exact hnumber _ hc
    · exact hnumber _ hc
    · exact htime _ hc
    · exact hstatus _ hc

/-- The texts of a report that the redactor sees. -/
def redactedTexts (report : RunReport) : List Text :=
  report.collection :: report.cases.flatMap fun case => case.id :: case.url :: outcomeTexts case

/-- The words of the report between its spaces and line breaks. -/
def junitWords : List Text :=
  [[], "method".toList, "url".toList, "status".toList, "→".toList, "no".toList,
    "response".toList, "expected".toList, "got".toList, "status:".toList, ['-'],
    "actual:".toList]

/-- A property of texts that holds of the fixed texts of the report, and of a text with fixed
parts exactly when it holds of the others. -/
structure Textwise (P : Text → Prop) : Prop where
  space : ∀ a b, P (a ++ ' ' :: b) ↔ P a ∧ P b
  line : ∀ a b, P (a ++ '\n' :: b) ↔ P a ∧ P b
  comma : ∀ a, P (a ++ [',']) ↔ P a
  words : ∀ word ∈ junitWords, P word

namespace Textwise

variable {P : Text → Prop} (hP : Textwise P)

include hP

/-- The empty text has the property. -/
theorem nil : P [] := hP.words [] (by decide)

/-- So has every line break, whatever the next line is indented by. -/
theorem newLine (n : Nat) : P (newLine n) := by
  have hspaces : P (List.replicate n ' ') := by
    induction n with
    | zero => exact hP.nil
    | succ n ih => exact (hP.space [] (List.replicate n ' ')).mpr ⟨hP.nil, ih⟩
  exact (hP.line [] (List.replicate n ' ')).mpr ⟨hP.nil, hspaces⟩

/-- A status is a number, or a fixed text. -/
theorem statusOr_iff (status : Option UInt16) {otherwise : Text} (h : P otherwise) :
    P (statusOr status otherwise) ↔ P (statusOr status []) := by
  cases status with
  | none => exact iff_of_true h hP.nil
  | some status => exact Iff.rfl

/-- What was sent and what came back, in the name of a case. -/
theorem sent_iff (a b : Text) (status : Option UInt16) :
    P (a ++ ' ' :: b ++ " → ".toList ++ statusOr status "no response".toList)
      ↔ P a ∧ P b ∧ P (statusOr status []) := by
  have hwhole : a ++ ' ' :: b ++ " → ".toList ++ statusOr status "no response".toList
      = a ++ ' ' :: (b ++ ' ' :: ("→".toList ++ ' ' :: statusOr status "no response".toList)) := by
    rw [show " → ".toList = ' ' :: ("→".toList ++ [' ']) from rfl]
    simp
  have hnone : P "no response".toList :=
    (hP.space "no".toList "response".toList).mpr
      ⟨hP.words _ (by decide), hP.words _ (by decide)⟩
  rw [hwhole, hP.space, hP.space, hP.space, hP.statusOr_iff status hnone,
    and_iff_right (hP.words "→".toList (by decide))]

/-- What was expected and what was found, in the message of a failure. -/
theorem message_iff (a b : Text) :
    P ("expected ".toList ++ a ++ ", got ".toList ++ b) ↔ P a ∧ P b := by
  have hwhole : "expected ".toList ++ a ++ ", got ".toList ++ b
      = "expected".toList ++ ' ' :: ((a ++ [',']) ++ ' ' :: ("got".toList ++ ' ' :: b)) := by
    rw [show "expected ".toList = "expected".toList ++ [' '] from rfl,
      show ", got ".toList = ',' :: ' ' :: ("got".toList ++ [' ']) from rfl]
    simp
  rw [hwhole, hP.space, hP.space, hP.space, hP.comma,
    and_iff_right (hP.words "expected".toList (by decide)),
    and_iff_right (hP.words "got".toList (by decide))]

/-- The lines of a detail. -/
theorem detail_iff (a b c d : Text) (status : Option UInt16) :
    P (a ++ ' ' :: b ++ "\nstatus: ".toList ++ statusOr status ['-'] ++ '\n' :: c
        ++ "\nactual: ".toList ++ d)
      ↔ P a ∧ P b ∧ P (statusOr status []) ∧ P c ∧ P d := by
  have hwhole : a ++ ' ' :: b ++ "\nstatus: ".toList ++ statusOr status ['-'] ++ '\n' :: c
        ++ "\nactual: ".toList ++ d
      = a ++ ' ' :: (b ++ '\n' :: ("status:".toList ++ ' ' :: (statusOr status ['-'] ++
        '\n' :: (c ++ '\n' :: ("actual:".toList ++ ' ' :: d))))) := by
    rw [show "\nstatus: ".toList = '\n' :: ("status:".toList ++ [' ']) from rfl,
      show "\nactual: ".toList = '\n' :: ("actual:".toList ++ [' ']) from rfl]
    simp
  rw [hwhole, hP.space, hP.line, hP.space, hP.line, hP.line, hP.space,
    hP.statusOr_iff status (hP.words ['-'] (by decide)),
    and_iff_right (hP.words "status:".toList (by decide)),
    and_iff_right (hP.words "actual:".toList (by decide))]

/-- The texts of the test cases. -/
theorem forall_testcasesTree (redactor : Redactor) (case : CaseResult) (cases : List JunitCase) :
    (∀ t ∈ (testcasesTree redactor case cases).shown, P t) ↔
      ∀ junitCase ∈ cases, P (redactor.apply case.id) ∧ P junitCase.name ∧
        P (seconds case.durationMs) ∧
        (junitCase.kind ≠ .passed → P junitCase.message ∧ P junitCase.detail) := by
  induction cases with
  | nil => simp [testcasesTree, Forest.shown, hP.newLine]
  | cons junitCase rest ih =>
    rw [List.forall_mem_cons, ← ih, testcasesTree]
    cases hkind : junitCase.kind with
    | passed =>
      simp only [Forest.shown, testcaseTag, Tag.ofKeys, List.map_cons, List.map_nil,
        List.forall_mem_cons, List.forall_mem_append]
      simp [hP.newLine, and_assoc]
    | failure =>
      simp only [Forest.shown, testcaseTag, problemTree, failureTag, Tag.ofKeys, List.map_cons,
        List.map_nil, List.forall_mem_cons, List.forall_mem_append]
      simp [hP.newLine, and_assoc]
    | error =>
      simp only [Forest.shown, testcaseTag, problemTree, errorTag, Tag.ofKeys, List.map_cons,
        List.map_nil, List.forall_mem_cons, List.forall_mem_append]
      simp [hP.newLine, and_assoc]

/-- The texts of an outcome, when the other texts of the request have the property. -/
theorem forall_junitCases {redactor : Redactor} {case : CaseResult}
    (hid : P (redactor.apply case.id)) (hmethod : P case.method)
    (hurl : P (redactor.apply case.url)) (hstatus : P (statusOr case.status []))
    (htime : P (seconds case.durationMs)) :
    (∀ junitCase ∈ junitCases case redactor, P (redactor.apply case.id) ∧ P junitCase.name ∧
        P (seconds case.durationMs) ∧
        (junitCase.kind ≠ .passed → P junitCase.message ∧ P junitCase.detail)) ↔
      ∀ t ∈ outcomeTexts case, P (redactor.apply t) := by
  -- One assertion shows its description, and what it found when it failed.
  have hassertion : ∀ assertion, (P (redactor.apply case.id) ∧
      P (assertionCase case redactor assertion).name ∧ P (seconds case.durationMs) ∧
      ((assertionCase case redactor assertion).kind ≠ .passed →
        P (assertionCase case redactor assertion).message ∧
        P (assertionCase case redactor assertion).detail)) ↔
      ∀ t ∈ assertion.description :: if assertion.passed then [] else [assertion.actual],
        P (redactor.apply t) := by
    intro assertion
    simp only [assertionCase]
    rw [hP.message_iff, hP.detail_iff, List.forall_mem_cons]
    cases assertion.passed with
    | true => simp [hid, htime]
    | false => simp [hid, htime, hmethod, hurl, hstatus]
  -- An errored case is shown as one error, without assertions.
  cases herrored : case.outcome.isErrored with
  | true =>
    obtain ⟨reason, hreason⟩ := errored_of_isErrored herrored
    have hname := (hP.space case.method (redactor.apply case.url)).mpr ⟨hmethod, hurl⟩
    unfold junitCases outcomeTexts
    simp [hreason, hid, htime, hname]
  | false =>
    rw [junitCases_of_sent herrored, outcomeTexts_of_sent herrored, sentCases]
    -- A case without assertions is one test under the name of its request.
    by_cases hnone : case.assertions = []
    · have hname := (hP.sent_iff case.method (redactor.apply case.url) case.status).mpr
        ⟨hmethod, hurl, hstatus⟩
      rw [hnone]
      simpa [hid, htime] using hname
    · rw [if_neg hnone, List.forall_mem_map, List.forall_mem_flatMap]
      exact forall₂_congr fun assertion _ => hassertion assertion

/-- The texts of a suite. -/
theorem forall_suite (redactor : Redactor) (case : CaseResult) :
    (∀ value ∈ (suiteTag redactor case).attrs.map Prod.snd, P value) ∧
        (∀ t ∈ (suiteTree redactor case).shown, P t) ↔
      (∀ t ∈ caseNumbers redactor case, P t) ∧ P case.method ∧
        ∀ t ∈ case.id :: case.url :: outcomeTexts case, P (redactor.apply t) := by
  -- The tree is taken apart from the inside: the properties, the suite and its attributes.
  have hproperties : (∀ t ∈ (propertiesTree redactor case).shown, P t) ↔
      P case.method ∧ P (redactor.apply case.url) ∧ P (statusOr case.status []) := by
    simp only [propertiesTree, Forest.shown, propertyTag, Tag.ofKeys, List.map_cons, List.map_nil,
      List.forall_mem_cons, List.forall_mem_append]
    simp [hP.newLine, hP.words "method".toList (by decide), hP.words "url".toList (by decide),
      hP.words "status".toList (by decide), -String.reduceToList]
  have hsuite : (∀ t ∈ (suiteTree redactor case).shown, P t) ↔
      (P case.method ∧ P (redactor.apply case.url) ∧ P (statusOr case.status [])) ∧
        ∀ t ∈ (testcasesTree redactor case (junitCases case redactor)).shown, P t := by
    rw [suiteTree, Forest.shown, List.forall_mem_cons, List.forall_mem_append,
      List.forall_mem_append, hproperties, and_iff_right (hP.newLine 4), and_iff_right]
    exact fun t ht => absurd ht List.not_mem_nil
  have hattrs : (∀ value ∈ (suiteTag redactor case).attrs.map Prod.snd, P value) ↔
      P (redactor.apply case.id) ∧ P (natText (junitCases case redactor).length) ∧
        P (natText (countKind .failure (junitCases case redactor))) ∧
        P (natText (countKind .error (junitCases case redactor))) ∧
        P (seconds case.durationMs) := by
    simp [suiteTag, Tag.ofKeys]
  have hnumbers : (∀ t ∈ caseNumbers redactor case, P t) ↔
      P (natText (junitCases case redactor).length) ∧
        P (natText (countKind .failure (junitCases case redactor))) ∧
        P (natText (countKind .error (junitCases case redactor))) ∧
        P (seconds case.durationMs) ∧ P (statusOr case.status []) := by
    simp [caseNumbers]
  rw [hattrs, hsuite, hnumbers, List.forall_mem_cons, List.forall_mem_cons,
    hP.forall_testcasesTree]
  -- What is left is the same conjunction in another order.
  constructor
  · rintro ⟨⟨hid, htests, hfailures, herrors, htime⟩, ⟨hmethod, hurl, hstatus⟩, hcases⟩
    have houtcome := (hP.forall_junitCases hid hmethod hurl hstatus htime).mp hcases
    exact ⟨⟨htests, hfailures, herrors, htime, hstatus⟩, hmethod, hid, hurl, houtcome⟩
  · rintro ⟨⟨htests, hfailures, herrors, htime, hstatus⟩, hmethod, hid, hurl, houtcome⟩
    have hcases := (hP.forall_junitCases hid hmethod hurl hstatus htime).mpr houtcome
    exact ⟨⟨hid, htests, hfailures, herrors, htime⟩, ⟨hmethod, hurl, hstatus⟩, hcases⟩

/-- The texts of the suites. -/
theorem forall_suitesTree (redactor : Redactor) (cases : List CaseResult) :
    (∀ t ∈ (suitesTree redactor cases).shown, P t) ↔
      ∀ case ∈ cases, (∀ t ∈ caseNumbers redactor case, P t) ∧ P case.method ∧
        ∀ t ∈ case.id :: case.url :: outcomeTexts case, P (redactor.apply t) := by
  induction cases with
  | nil => simp [suitesTree, Forest.shown, hP.newLine]
  | cons case rest ih =>
    rw [List.forall_mem_cons, ← ih, ← hP.forall_suite, suitesTree, Forest.shown,
      List.forall_mem_cons, List.forall_mem_append, List.forall_mem_append,
      and_iff_right (hP.newLine 2), and_assoc]

/-- The texts of the report have the property exactly when its numbers, its methods and its
redacted texts have. -/
theorem forall_junitTree (report : RunReport) (redactor : Redactor) :
    (∀ t ∈ (junitTree report redactor).shown, P t) ↔
      (∀ t ∈ junitNumbers report redactor, P t) ∧ (∀ case ∈ report.cases, P case.method) ∧
        ∀ t ∈ redactedTexts report, P (redactor.apply t) := by
  -- The attributes and the numbers are finite lists of texts.
  have hattrs : (∀ value ∈ (suitesTag report redactor).attrs.map Prod.snd, P value) ↔
      P (redactor.apply report.collection) ∧ P (natText report.total) ∧
        P (natText report.failures) ∧ P (natText report.errors) ∧
        P (seconds report.durationMs) := by
    simp [suitesTag, Tag.ofKeys]
  have hlast : ∀ t ∈ (Forest.text (Cli.newLine 0)).shown, P t := by
    simp [Forest.shown, hP.newLine]
  have hnumbers : (∀ t ∈ junitNumbers report redactor, P t) ↔
      (P (natText report.total) ∧ P (natText report.failures) ∧ P (natText report.errors) ∧
        P (seconds report.durationMs)) ∧
        ∀ case ∈ report.cases, ∀ t ∈ caseNumbers redactor case, P t := by
    rw [junitNumbers, List.forall_mem_append, List.forall_mem_flatMap]
    simp
  rw [junitTree, Forest.shown, List.forall_mem_cons, List.forall_mem_append,
    List.forall_mem_append, and_iff_right (hP.newLine 0), and_iff_left hlast, hattrs,
    hP.forall_suitesTree, hnumbers, redactedTexts, List.forall_mem_cons, List.forall_mem_flatMap]
  -- The cases share the three properties, so they split into three statements.
  simp only [forall_and]
  constructor
  · rintro ⟨⟨hcollection, htotals⟩, hnumbers, hmethods, htexts⟩
    exact ⟨⟨htotals, hnumbers⟩, hmethods, hcollection, htexts⟩
  · rintro ⟨⟨htotals, hnumbers⟩, hmethods, hcollection, htexts⟩
    exact ⟨⟨hcollection, htotals⟩, hnumbers, hmethods, htexts⟩

end Textwise

end Gabriel.Cli
