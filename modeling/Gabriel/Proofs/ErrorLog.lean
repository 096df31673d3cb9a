import Gabriel.Cli.ErrorLog
import Gabriel.Lib.JsonText
import Gabriel.Proofs.Bundle
import Gabriel.Proofs.CaptureSummary

/-!
# `Gabriel.Proofs.ErrorLog`: does the log keep the last fifty failures?

A line of the log is an object of JSON, written by hand. The strings in it are JSON strings,
whatever their characters, so the line is a text of the object that it stands for, and a decoder
that reads the texts of objects (`ReadsObjects`) reads the failure back.

The file is a text of lines. No line has a line break in it, so the file is cut into the same lines
again, and each call drops the first lines but fifty. Dropping again and again drops the same ones,
and so `HoldsLines` carries the induction over the calls. The theorems:

* `stringBody_jsonChars`: the characters of a string, as they are written, are those of a JSON
  string.
* `objectText_errorLine`: a line is a text of the object that it stands for.
* `textLines_logText`: the lines of a file of lines.
* `errorLog_holdsLines`: one call appends its line, and drops the first lines but fifty.
* `file_recordErrors`: the log after any number of calls.
* `readErrors_recordErrors`: the log keeps the last fifty failures of any sequence.
-/

set_option autoImplicit false

namespace Gabriel.Cli

open Gabriel.Core Text JsonText

/-! ### The decoder -/

/-- A value of a member, as the decoder returns it. -/
def scalarJson : Scalar → Json
  | .number n => .number (.posInt (UInt64.ofNat n))
  | .string value => .string value

/-- What is used of the decoder: it reads the texts of an object with keys in increasing order and
with strings and numbers of 64 bits as values. -/
structure ReadsObjects (parse : Text → Option Json) : Prop where
  reads : ∀ members text, ObjectText members text →
    (members.map (·.1)).Pairwise (· < ·) → (∀ e ∈ members, ∀ n, e.2 = .number n → n < 2 ^ 64) →
      parse text = some (.object (members.map fun e => (e.1, scalarJson e.2)))

/-- A decoder of such objects. -/
def readJson (text : Text) : Option Json :=
  (readObject text).map fun members => .object (members.map fun e => (e.1, scalarJson e.2))

/-- The reader of the sample reads objects. -/
theorem readsObjects_readJson : ReadsObjects readJson :=
  ⟨fun members text h _ _ => by rw [readJson, readObject_of_text h]; rfl⟩

/-! ### A line -/

/-- A control character is written by its number. -/
theorem numbered_control {n : Nat} (h : n < 0x20) : ∃ a b c d, paddedHex 4 n = [a, b, c, d] ∧
    numbered a b c d = some (Char.ofNat n) := by
  have hall : ∀ n < 0x20, paddedHex 4 n = [(paddedHex 4 n).getD 0 '0', (paddedHex 4 n).getD 1 '0',
        (paddedHex 4 n).getD 2 '0', (paddedHex 4 n).getD 3 '0'] ∧
      numbered ((paddedHex 4 n).getD 0 '0') ((paddedHex 4 n).getD 1 '0')
        ((paddedHex 4 n).getD 2 '0') ((paddedHex 4 n).getD 3 '0') = some (Char.ofNat n) := by
    decide +kernel
  exact ⟨_, _, _, _, hall n h⟩

/-- The characters of a string, as they are written, are those of a JSON string. -/
theorem stringBody_jsonChars (value : Text) : StringBody (value.flatMap jsonChar) value := by
  -- Induction on the text, with the cases in the order of the writer.
  induction value with
  | nil => exact .nil
  | cons c value ih =>
    rw [List.flatMap_cons]
    by_cases hquote : c = '"'
    · rw [jsonChar, if_pos hquote, hquote]
      exact .short '"' '"' (by decide) ih
    by_cases hslash : c = '\\'
    · rw [jsonChar, if_neg hquote, if_pos hslash, hslash]
      exact .short '\\' '\\' (by decide) ih
    by_cases hline : c = '\n'
    · rw [jsonChar, if_neg hquote, if_neg hslash, if_pos hline, hline]
      exact .short 'n' '\n' (by decide) ih
    by_cases hreturn : c = '\r'
    · rw [jsonChar, if_neg hquote, if_neg hslash, if_neg hline, if_pos hreturn, hreturn]
      exact .short 'r' '\r' (by decide) ih
    by_cases htab : c = '\t'
    · rw [jsonChar, if_neg hquote, if_neg hslash, if_neg hline, if_neg hreturn, if_pos htab, htab]
      exact .short 't' '\t' (by decide) ih
    rw [jsonChar, if_neg hquote, if_neg hslash, if_neg hline, if_neg hreturn, if_neg htab]
    -- What has no short form and is below the space is written with four digits.
    by_cases hlow : c.toNat < 0x20
    · obtain ⟨a, b, x, d, hdigits, hnumber⟩ := numbered_control hlow
      rw [if_pos hlow, hdigits]
      rw [Char.ofNat_toNat] at hnumber
      exact .number a b x d c hnumber ih
    · rw [if_neg hlow]
      exact .plain c (not_lt.mp hlow) hquote hslash ih

/-- What a line stands for. -/
def errorMembers (failure : ErrorRecord) : List (Text × Scalar) :=
  [("at_ms".toList, .number failure.atMs.toNat), ("command".toList, .string failure.command),
    ("message".toList, .string (scrub failure.message))]

/-- A name of letters is its own body. -/
theorem stringBody_self {t : Text}
    (h : ∀ c ∈ t, 0x20 ≤ c.toNat ∧ c ≠ '"' ∧ c ≠ '\\') : StringBody t t := by
  induction t with
  | nil => exact .nil
  | cons c t ih =>
    obtain ⟨hlow, hquote, hslash⟩ := h c List.mem_cons_self
    exact .plain c hlow hquote hslash (ih fun d hd => h d (List.mem_cons_of_mem _ hd))

/-- A line is a text of the object that it stands for. -/
theorem objectText_errorLine (failure : ErrorRecord) :
    ObjectText (errorMembers failure) (errorLine failure) := by
  have hnone : ∀ c ∈ ([] : Text), isBlank c = true := fun c hc => absurd hc List.not_mem_nil
  have hone : ∀ c ∈ [' '], isBlank c = true := fun c hc => by
    rw [List.mem_singleton.mp hc]
    decide
  have hatKey : StringBody "at_ms".toList "at_ms".toList :=
    stringBody_self (forall_mem_of_all (by decide))
  have hcommandKey : StringBody "command".toList "command".toList :=
    stringBody_self (forall_mem_of_all (by decide))
  have hmessageKey : StringBody "message".toList "message".toList :=
    stringBody_self (forall_mem_of_all (by decide))
  have hat := MemberText.intro hatKey (.number failure.atMs.toNat) hnone hone
  have hcommand := MemberText.intro hcommandKey
    (.string (stringBody_jsonChars failure.command)) hone hone
  have hmessage := MemberText.intro hmessageKey
    (.string (stringBody_jsonChars (scrub failure.message))) hone hone
  have hwhole := MembersText.cons hat (MembersText.cons hcommand (MembersText.last hmessage))
  refine ⟨_, ?_, hwhole⟩
  unfold errorLine jsonString natText
  simp

/-- A line is read back. -/
theorem errorOfLine_errorLine {parse : Text → Option Json} (hparse : ReadsObjects parse)
    (failure : ErrorRecord) : errorOfLine parse (errorLine failure)
      = some { failure with message := scrub failure.message } := by
  have hread := hparse.reads _ _ (objectText_errorLine failure)
    (show List.Pairwise (· < ·) ["at_ms".toList, "command".toList, "message".toList] by decide)
    (by
      intro e he n hn
      simp only [errorMembers, List.mem_cons, List.not_mem_nil, or_false] at he
      rcases he with rfl | rfl | rfl
      · obtain rfl : failure.atMs.toNat = n := by simpa using hn
        exact failure.atMs.toNat_lt
      · exact absurd hn (by simp)
      · exact absurd hn (by simp))
  have hat : UInt64.ofNat failure.atMs.toNat = failure.atMs := UInt64.ofNat_toNat
  rw [errorOfLine, hread]
  show some (ErrorRecord.mk (UInt64.ofNat failure.atMs.toNat) failure.command
    (scrub failure.message)) = _
  rw [hat]

/-! ### The file -/

/-- What a file of lines holds. -/
def logText (lines : List Text) : Text := List.intercalate ['\n'] lines ++ ['\n']

/-- A line that a file of lines gives back. -/
structure WholeLine (line : Text) : Prop where
  single : '\n' ∉ line
  noReturn : line.getLast? ≠ some '\r'
  visible : trim line ≠ []

/-- A text of which nothing is left is white space. -/
theorem isWhitespace_of_trim_eq_nil {t : Text} (h : trim t = []) {c : Char} (hc : c ∈ t) :
    isWhitespace c = true := by
  rw [← List.takeWhile_append_dropWhile (p := isWhitespace) (l := t)] at hc
  rcases List.mem_append.mp hc with hc | hc
  · exact List.mem_takeWhile_imp hc
  · exact List.rdropWhile_eq_nil_iff.mp h c hc

/-- The line of a failure is one. -/
theorem wholeLine_errorLine (failure : ErrorRecord) : WholeLine (errorLine failure) := by
  have hdigits : '\n' ∉ natText failure.atMs.toNat := fun h =>
    absurd (isDigit_of_mem_natText h) (by decide)
  have hlast : (errorLine failure).getLast? = some '\x7d' := by
    unfold errorLine
    rw [List.getLast?_append_of_ne_nil _ (List.cons_ne_nil _ _), List.getLast?_singleton]
  refine ⟨?_, ?_, ?_⟩
  · have h1 : '\n' ∉ "\x7b\"at_ms\": ".toList := by decide
    have h2 : '\n' ∉ ", \"command\": ".toList := by decide
    have h3 : '\n' ∉ ", \"message\": ".toList := by decide
    unfold errorLine
    simp only [List.mem_append, not_or]
    exact ⟨⟨⟨⟨⟨⟨h1, hdigits⟩, h2⟩, newline_not_mem_jsonString _⟩, h3⟩,
      newline_not_mem_jsonString _⟩, by decide⟩
  · rw [hlast]
    decide
  · intro hnil
    have hspace := isWhitespace_of_trim_eq_nil hnil (List.mem_of_getLast? hlast)
    exact absurd hspace (by decide)

/-- The lines of a file of lines. -/
theorem textLines_logText {lines : List Text} (hne : lines ≠ [])
    (h : ∀ line ∈ lines, WholeLine line) : textLines (logText lines) = lines := by
  have hsplit : (logText lines).splitOn '\n' = lines ++ [[]] := by
    rw [logText, List.splitOn_eq_splitOnP, List.splitOnP_append_cons _ _ (by simp),
      ← List.splitOn_eq_splitOnP,
      List.splitOn_intercalate _ (fun line hline => (h line hline).single)
        hne]
    rfl
  have hstrip : lines.map stripCarriageReturn = lines := by
    refine (List.map_congr_left ?_).trans (List.map_id lines)
    intro line hline
    exact if_neg (h line hline).noReturn
  unfold textLines
  dsimp only
  rw [hsplit, List.dropLast_concat, hstrip]
  simp

/-- The last lines, as many as the log keeps. -/
def keepLast (lines : List Text) : List Text := lines.drop (lines.length - maxErrors)

/-- Dropping the first lines again and again drops the same ones. -/
theorem keepLast_append (lines : List Text) (line : Text) :
    keepLast (keepLast lines ++ [line]) = keepLast (lines ++ [line]) := by
  unfold keepLast maxErrors
  by_cases hlong : lines.length ≤ 50
  · rw [Nat.sub_eq_zero_of_le hlong, List.drop_zero]
  · have hcut : lines.length - 50 ≤ lines.length := Nat.sub_le _ _
    have hdrop : lines.drop (lines.length - 50) ++ [line]
        = (lines ++ [line]).drop (lines.length - 50) :=
      (List.drop_append_of_le_length hcut).symm
    rw [hdrop, List.drop_drop, List.length_drop, List.length_append, List.length_singleton]
    congr 1
    omega

/-- A log with these lines: there is none yet, or one with their text. -/
def HoldsLines (file : Option (List UInt8)) (lines : List Text) : Prop :=
  (lines = [] ∧ file.getD [] = []) ∨
    (lines ≠ [] ∧ file = some (Utf8.encode (logText lines)))

/-- The lines that a call finds in the log. -/
theorem lines_of_holdsLines {file : Option (List UInt8)} {lines : List Text}
    (hfile : HoldsLines file lines) (h : ∀ line ∈ lines, WholeLine line) :
    textLines ((file.bind Utf8.decode?).getD []) = lines := by
  rcases hfile with ⟨rfl, hnone⟩ | ⟨hne, rfl⟩
  · cases file with
    | none => rfl
    | some bytes =>
      obtain rfl : bytes = [] := hnone
      rfl
  · rw [Option.bind_some, (Utf8.decode?_eq_some_iff _ _).mpr rfl]
    exact textLines_logText hne h

/-- One call appends its line, and drops the first lines but fifty. -/
theorem errorLog_holdsLines {file : Option (List UInt8)} {lines : List Text} {line : Text}
    (hfile : HoldsLines file lines) (h : ∀ line ∈ lines, WholeLine line) :
    errorLog file line = Utf8.encode (logText (keepLast (lines ++ [line]))) := by
  have hvisible : lines.filter (trim · ≠ []) = lines :=
    List.filter_eq_self.mpr fun line hline => by simpa using (h line hline).visible
  unfold errorLog
  dsimp only
  rw [lines_of_holdsLines hfile h, hvisible]
  rfl

section Disk

variable {disk : FileTree} {runtimeDir : TreePath}

/-- A call that succeeds, on the disk: the log is written, and the directories stay. -/
theorem recordError_file (hdir : disk.dir runtimeDir = true)
    (hfree : disk.dir (errorsPath runtimeDir) = false) (line : Text) :
    (recordError runtimeDir line none disk).dir = disk.dir ∧
      (recordError runtimeDir line none disk).file (errorsPath runtimeDir)
        = some (errorLog (disk.file (errorsPath runtimeDir)) line) := by
  have hparent : (errorsPath runtimeDir).dropLast = runtimeDir := List.dropLast_concat
  unfold recordError
  rw [if_pos hdir]
  refine ⟨(FileTree.writeFile_frame (q := []) _ none).1, ?_⟩
  dsimp only
  unfold FileTree.writeFile
  rw [dif_pos ⟨by rw [hparent]; exact hdir, hfree⟩]
  show Function.update disk.file _ _ _ = _
  rw [Function.update_self]
  rfl

/-- The log after any number of calls. -/
theorem file_recordErrors (hdir : disk.dir runtimeDir = true)
    (hfree : disk.dir (errorsPath runtimeDir) = false) {lines : List Text}
    (hfile : HoldsLines (disk.file (errorsPath runtimeDir)) (keepLast lines))
    (hlines : ∀ line ∈ lines, WholeLine line) (failures : List ErrorRecord) :
    HoldsLines ((recordErrors runtimeDir failures disk).file (errorsPath runtimeDir))
      (keepLast (lines ++ failures.map errorLine)) := by
  -- Induction on the calls; the log holds the last fifty lines before each of them.
  induction failures generalizing disk lines with
  | nil => rwa [List.map_nil, List.append_nil]
  | cons failure failures ih =>
    obtain ⟨hdirs, hwritten⟩ := recordError_file hdir hfree (errorLine failure)
    -- The lines that are kept are whole, so they are read back as they were.
    have hkept : ∀ line ∈ keepLast lines, WholeLine line := fun line hline =>
      hlines line (List.mem_of_mem_drop hline)
    have hnew : HoldsLines
        ((recordError runtimeDir (errorLine failure) none disk).file (errorsPath runtimeDir))
        (keepLast (lines ++ [errorLine failure])) := by
      -- The log is never empty after a call, and it holds the last lines and the new one.
      refine Or.inr ⟨?_, ?_⟩
      · intro hnil
        have hcount := congrArg List.length hnil
        unfold keepLast maxErrors at hcount
        rw [List.length_drop, List.length_append, List.length_singleton, List.length_nil] at hcount
        omega
      · rw [hwritten, errorLog_holdsLines hfile hkept, keepLast_append]
    have hlines' : ∀ line ∈ lines ++ [errorLine failure], WholeLine line := by
      intro line hline
      rcases List.mem_append.mp hline with hline | hline
      · exact hlines line hline
      · rw [List.mem_singleton.mp hline]
        exact wholeLine_errorLine failure
    have hall := ih (by rw [hdirs]; exact hdir) (by rw [hdirs]; exact hfree) hnew hlines'
    rwa [List.append_assoc] at hall

end Disk

/-- **The error log keeps the last fifty failures.** Whatever is recorded in a runtime directory
whose log is empty, with commands and messages of any characters and every write done, is read back
as the last fifty failures, or all of them when there are fewer, in their order and with the message
scrubbed; the decoder is any that reads the texts of JSON objects. -/
theorem readErrors_recordErrors {parse : Text → Option Json} (hparse : ReadsObjects parse)
    {disk : FileTree} {runtimeDir : TreePath} (hdir : disk.dir runtimeDir = true)
    (hfree : disk.dir (errorsPath runtimeDir) = false)
    (hempty : (disk.file (errorsPath runtimeDir)).getD [] = []) (failures : List ErrorRecord) :
    readErrors parse ((recordErrors runtimeDir failures disk).file (errorsPath runtimeDir))
      = (failures.drop (failures.length - 50)).map
          fun failure => { failure with message := scrub failure.message } := by
  have hstart : HoldsLines (disk.file (errorsPath runtimeDir)) (keepLast []) := Or.inl ⟨rfl, hempty⟩
  have hfile := file_recordErrors hdir hfree hstart (fun _ h => absurd h List.not_mem_nil) failures
  -- Keeping the last lines and writing them out commute.
  have hkept : keepLast (failures.map errorLine)
      = (failures.drop (failures.length - 50)).map errorLine := by
    rw [keepLast, List.length_map, List.map_drop]
    rfl
  rw [List.nil_append, hkept] at hfile
  generalize failures.drop (failures.length - 50) = last at hfile ⊢
  have hlines : ∀ line ∈ last.map errorLine, WholeLine line := by
    intro line hline
    obtain ⟨failure, -, rfl⟩ := List.mem_map.mp hline
    exact wholeLine_errorLine failure
  -- Every line is read back as its record with the scrubbed message.
  have hread : (last.map errorLine).filterMap (errorOfLine parse)
      = last.map fun failure => { failure with message := scrub failure.message } := by
    rw [List.filterMap_map, ← List.filterMap_eq_map]
    exact List.filterMap_congr fun failure _ => errorOfLine_errorLine hparse failure
  rw [← hread]
  -- The lines of the file are the lines that were written.
  have hfound := lines_of_holdsLines hfile hlines
  unfold readErrors
  cases hdecoded : ((recordErrors runtimeDir failures disk).file (errorsPath runtimeDir)).bind
      Utf8.decode? with
  | none =>
    rw [hdecoded] at hfound
    rw [← hfound]
    rfl
  | some text =>
    rw [hdecoded] at hfound
    exact congrArg (List.filterMap (errorOfLine parse)) hfound

/-- A disk with nothing on it but its root. -/
def bareDisk : FileTree where
  file _ := none
  dir path := path = []
  parent path name h := by
    rcases h with hfile | hdir
    · exact absurd hfile Bool.false_ne_true
    · exact absurd (of_decide_eq_true hdir) (by simp)
  apart _ _ := rfl

/-- Fifty-two failures, two more than the log keeps. Most have quotes and a line break, and the last
one has a secret. -/
def manyFailures : List ErrorRecord :=
  [⟨1, "run".toList, "first".toList⟩, ⟨2, "run".toList, "second".toList⟩]
    ++ List.replicate 49 ⟨3, "run".toList, "said \"no\"\n\\o/".toList⟩
    ++ [⟨4, "auth".toList, "token=abc".toList⟩]

/-- The last fifty are read back. -/
theorem readErrors_recordErrors_many :
    readErrors readJson ((recordErrors [] manyFailures bareDisk).file (errorsPath []))
      = List.replicate 49 ⟨3, "run".toList, "said \"no\"\n\\o/".toList⟩
        ++ [⟨4, "auth".toList, "token=[redacted]".toList⟩] :=
  (readErrors_recordErrors readsObjects_readJson rfl rfl rfl manyFailures).trans (by decide +kernel)

end Gabriel.Cli
