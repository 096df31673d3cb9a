import Gabriel.Lib.EventStream
import Gabriel.Proofs.SseChunks

/-!
# `Gabriel.Proofs.SseMessages`: the parser and the HTML standard

`EventStream` is the algorithm of the standard. The parser keeps the data as a list of lines where
the standard keeps a text, and a flag where the standard looks whether the buffers are empty;
`Agree` relates the two. The parser gives out events that the standard does not dispatch, those
without a data line, so `readNoted` notes with each event whether it had one.

For line ends LF and CR LF both cut a stream into the same lines, with one difference: the parser
takes a byte order mark for a part of the first line, so the first line is no field that it knows.
The reconnection time is read by `u64::from_str`, which takes a plus sign and refuses a number that
is too large. `Plain` excludes these cases where they show. The theorems:

* `agree_takeField`, `agree_blank`, `agree_line`: the simulation of one line.
* `readNoted_messages`: the messages of some lines are those of the standard.
* `linesFrom_eq`: both cut a stream with these line ends into the same lines.
* `takenRetry_eq_iff`: both take the same time from a line exactly when it is plain.
* `follows_iff`: the parser follows the standard on a stream, in any chunks, exactly when it is
  `Plain`.
-/

set_option autoImplicit false

namespace Gabriel.Core.Sse.Parser

open Text EventStream

/-! ### Fields -/

/-- Both read the field of a line alike. -/
theorem fieldOf_eq (line : Text) : fieldOf line = field line := by
  unfold fieldOf
  cases hsplit : splitOnce [':'] line with
  | none => exact (field_of_not_mem (splitOnce_singleton_eq_none.mp hsplit)).symm
  | some e =>
    obtain ⟨name, value⟩ := e
    obtain ⟨rfl, hname⟩ := splitOnce_singleton_iff.mp hsplit
    rw [field_colon hname]
    cases value with
    | nil => rfl
    | cons c value =>
      by_cases hc : c = ' '
      · rw [hc]
        rfl
      · rw [List.head?_cons, if_neg (fun h => hc (Option.some.inj h))]
        split
        · rename_i heq
          rw [Option.some.injEq, Prod.mk.injEq, List.cons.injEq] at heq
          exact absurd heq.2.1 hc
        · rename_i heq
          exact (Option.some.inj heq).symm
        · rename_i heq
          exact absurd heq.symm (Option.some_ne_none _).symm

/-! ### One line -/

/-- What the parser holds, as the standard holds it. -/
structure Agree (parser : Parser) (state : State) : Prop where
  data : state.data = parser.data.flatMap (· ++ ['\n'])
  eventType : state.eventType = parser.name.getD []
  lastId : state.lastId = parser.lastId.getD []
  idle : parser.started = false → parser.data = [] ∧ parser.name = none

/-- An event with whether it had a data line. -/
abbrev Noted := Event × Bool

/-- The message of an event that had a data line. -/
def messageOf (noted : Noted) : Option Message :=
  if noted.2 then
    some ⟨typeOf (noted.1.name.getD []), noted.1.data, noted.1.id.getD []⟩
  else none

/-- The event of a line, and whether the parser had a data line for it. -/
def noteLine (parser : Parser) (text : Text) : List Noted :=
  (parser.line text).1.toList.map fun event => (event, decide (parser.data ≠ []))

/-- Lines that each end with a line break, without the last line break. -/
theorem flatMap_break_eq {lines : List Text} (h : lines ≠ []) :
    lines.flatMap (· ++ ['\n']) = List.intercalate ['\n'] lines ++ ['\n'] := by
  induction lines with
  | nil => exact absurd rfl h
  | cons line rest ih =>
    rw [List.flatMap_cons]
    cases rest with
    | nil => rw [List.intercalate_singleton, List.flatMap_nil, List.append_nil]
    | cons next rest =>
      rw [ih (List.cons_ne_nil next rest), List.intercalate_cons_cons, ← List.append_assoc]

/-- An empty line dispatches the same message, and leaves both empty. -/
theorem agree_blank {parser : Parser} {state : State} (h : Agree parser state) :
    Agree (parser.line []).2 { state with data := [], eventType := [] } ∧
      (noteLine parser []).filterMap messageOf = state.dispatch.toList := by
  unfold noteLine line State.dispatch
  rw [if_pos rfl]
  -- With an event begun, the message goes out when it has data; without one nothing is kept.
  by_cases hstarted : parser.started = true
  · rw [if_pos hstarted]
    refine ⟨⟨rfl, rfl, h.lastId, fun _ => ⟨rfl, rfl⟩⟩, ?_⟩
    -- An event without data is dropped by the standard, and no message of the parser either.
    by_cases hdata : parser.data = []
    · have hstate : state.data = [] := by rw [h.data, hdata, List.flatMap_nil]
      rw [if_pos hstate, hdata]
      rfl
    · have hstate : state.data = List.intercalate ['\n'] parser.data ++ ['\n'] := by
        rw [h.data, flatMap_break_eq hdata]
      have hne : state.data ≠ [] := by
        rw [hstate]
        exact List.append_ne_nil_of_right_ne_nil _ (List.cons_ne_nil _ _)
      rw [if_neg hne, hstate, List.getLast?_concat, if_pos rfl, List.dropLast_concat,
        h.eventType, h.lastId]
      show List.filterMap messageOf [(parser.dispatch.1, decide (parser.data ≠ []))] = _
      rw [decide_eq_true hdata]
      rfl
  -- An event that was not begun has no data and no name.
  · rw [if_neg hstarted]
    obtain ⟨hdata, hname⟩ := h.idle (Bool.eq_false_of_not_eq_true hstarted)
    have hstate : state.data = [] := by rw [h.data, hdata, List.flatMap_nil]
    rw [if_pos hstate]
    refine ⟨⟨?_, ?_, h.lastId, h.idle⟩, rfl⟩
    · rw [hdata, List.flatMap_nil]
    · rw [hname]
      rfl

/-- A field changes both alike. -/
theorem agree_takeField {parser : Parser} {state : State} (h : Agree parser state)
    (name value : Text) : Agree (parser.takeField name value) (state.takeField name value) := by
  -- In the order of the source: `event`, `data`, `id`, `retry`.
  unfold takeField State.takeField
  by_cases hevent : name = "event".toList
  · rw [if_pos hevent, if_pos hevent]
    exact ⟨h.data, rfl, h.lastId, fun hno => nomatch hno⟩
  rw [if_neg hevent, if_neg hevent]
  by_cases hdata : name = "data".toList
  · rw [if_pos hdata, if_pos hdata]
    refine ⟨?_, h.eventType, h.lastId, fun hno => nomatch hno⟩
    show state.data ++ value ++ ['\n'] = (parser.data ++ [value]).flatMap (· ++ ['\n'])
    rw [List.flatMap_append, h.data, List.flatMap_singleton, List.append_assoc]
  rw [if_neg hdata, if_neg hdata]
  by_cases hid : name = "id".toList
  · rw [if_pos hid, if_pos hid]
    refine ⟨?_, ?_, ?_, fun hno => nomatch hno⟩
    · split <;> exact h.data
    · split <;> exact h.eventType
    -- An id with a NUL changes nothing.
    · by_cases hnul : '\x00' ∈ value
      · rw [if_pos hnul]
        show state.lastId = (if '\x00' ∈ value then parser.lastId else some value).getD []
        rw [if_pos hnul, h.lastId]
      · rw [if_neg hnul]
        show value = (if '\x00' ∈ value then parser.lastId else some value).getD []
        rw [if_neg hnul]
        rfl
  rw [if_neg hid, if_neg hid]
  split
  · exact ⟨h.data, h.eventType, h.lastId, fun hno => nomatch hno⟩
  · exact h

/-- A line that is not empty gives out nothing, and takes its field. -/
theorem line_of_ne_nil (parser : Parser) {text : Text} (h : text ≠ []) :
    parser.line text = (none, parser.takeField (field text).1 (field text).2) := by
  unfold line
  rw [if_neg h]
  by_cases hcomment : text.head? = some ':'
  · rw [if_pos hcomment, field_name_eq_nil (Or.inr hcomment)]
    rfl
  · rw [if_neg hcomment, fieldOf_eq]

/-- One line: the messages are the same, and the states agree again. -/
theorem agree_line {parser : Parser} {state : State} (h : Agree parser state) (text : Text) :
    Agree (parser.line text).2 (state.step text).2 ∧
      (noteLine parser text).filterMap messageOf = (state.step text).1.toList := by
  by_cases hempty : text = []
  · rw [hempty]
    exact agree_blank h
  · rw [step_of_ne_nil hempty, noteLine, line_of_ne_nil parser hempty]
    exact ⟨agree_takeField h _ _, rfl⟩

/-! ### All lines -/

/-- The events of some lines, each with whether it had a data line. -/
def readNoted (parser : Parser) : List Text → List Noted
  | [] => []
  | text :: rest => noteLine parser text ++ readNoted (parser.line text).2 rest

/-- They are the events that the parser gives out. -/
theorem readNoted_events (parser : Parser) (lines : List (List UInt8)) :
    (readNoted parser (lines.map fun bytes => Utf8.decodeLossy (stripReturn bytes))).map (·.1)
      = (parser.readLines lines).1 := by
  induction lines generalizing parser with
  | nil => rfl
  | cons bytes rest ih =>
    rw [List.map_cons, readNoted, List.map_append, ih, readLines_cons, noteLine, List.map_map]
    congr 1
    exact List.map_id _

/-- The messages of some lines are those of the standard. -/
theorem readNoted_messages {parser : Parser} {state : State} (h : Agree parser state)
    (lines : List Text) :
    (readNoted parser lines).filterMap messageOf = messagesFrom state lines := by
  induction lines generalizing parser state with
  | nil => rfl
  | cons text rest ih =>
    obtain ⟨hnext, hmessage⟩ := agree_line h text
    rw [readNoted, List.filterMap_append, hmessage, ih hnext]
    rfl

/-! ### The lines of a stream -/

/-- The lines that the parser reads from a stream. -/
def readTexts (stream : List UInt8) : List Text :=
  (stream.splitOn 0x0A).dropLast.map fun bytes => Utf8.decodeLossy (stripReturn bytes)

/-- Every carriage return is followed by a line feed. -/
def LineEnds (text : Text) : Prop :=
  ∀ before after, text = before ++ '\r' :: after → after.head? = some '\n'

/-- A line without the carriage return at its end. -/
def withoutReturn (line : Text) : Text :=
  if line.getLast? = some '\r' then line.dropLast else line

/-- A carriage return is dropped before the decoding as it would be after it. -/
theorem stripReturn_encode (line : Text) :
    stripReturn (Utf8.encode line) = Utf8.encode (withoutReturn line) := by
  unfold stripReturn withoutReturn
  induction line using List.reverseRecOn with
  | nil => rfl
  | append_singleton line c _ =>
    have hbytes : Utf8.encode [c] ≠ [] := by
      rw [Utf8.encode_cons, Utf8.encode_nil, List.append_nil]
      exact String.utf8EncodeChar_ne_nil
    rw [List.getLast?_concat, Utf8.encode_append, List.getLast?_append_of_ne_nil _ hbytes]
    by_cases hc : c = '\r'
    · rw [hc, if_pos rfl, List.dropLast_concat]
      have hreturn : Utf8.encode ['\r'] = [0x0D] := by decide +kernel
      rw [hreturn]
      exact (if_pos rfl).trans List.dropLast_concat
    · have hno : (Utf8.encode [c]).getLast? ≠ some 0x0D := by
        intro hlast
        have hmem := List.mem_of_getLast? hlast
        have hreturn := (Utf8.mem_encode_ascii_iff (c := '\r') (by decide) [c]).mp hmem
        exact hc (List.mem_singleton.mp hreturn).symm
      rw [if_neg hno, if_neg fun h => hc (Option.some.inj h), Utf8.encode_append]

/-- The lines that the parser reads from a text, up to its line feeds. -/
theorem readTexts_encode (text : Text) :
    readTexts (Utf8.encode text) = (text.splitOn '\n').dropLast.map withoutReturn := by
  have hsplit := Utf8.splitOn_encode (c := '\n') (by decide) text
  unfold readTexts
  rw [show (0x0A : UInt8) = UInt8.ofNat '\n'.toNat from rfl, hsplit, ← List.map_dropLast,
    List.map_map]
  refine List.map_congr_left fun line _ => ?_
  show Utf8.decodeLossy (stripReturn (Utf8.encode line)) = withoutReturn line
  rw [stripReturn_encode, Utf8.decodeLossy_encode]

/-- With these line ends, the standard cuts the text at its line feeds too. -/
theorem linesFrom_eq {text : Text} (h : LineEnds text) {line : Text} (hbreak : '\n' ∉ line)
    (hreturn : line.getLast? ≠ some '\r') :
    linesFrom line text = ((line ++ text).splitOn '\n').dropLast.map withoutReturn := by
  have hempty : ([] : Text).getLast? ≠ some '\r' := by decide
  have hcut : ∀ (front rest : Text), '\n' ∉ front →
      ((front ++ '\n' :: rest).splitOn '\n').dropLast = front :: (rest.splitOn '\n').dropLast := by
    intro front rest hfront
    rw [List.splitOn_append_cons_self_of_not_mem hfront,
      List.dropLast_cons_of_ne_nil (List.splitOn_ne_nil _ _)]
  -- The cases of the recursion: the end, CR LF, a single CR, LF, and any other character.
  induction line, text using linesFrom.induct with
  | case1 line =>
    rw [List.append_nil, List.splitOn_eq_singleton hbreak]
    rfl
  | case2 line rest ih =>
    have hrest : LineEnds rest := fun before after heq => h ('\r' :: '\n' :: before) after (by
      rw [heq]
      rfl)
    have hfront : '\n' ∉ line ++ ['\r'] := by
      rw [List.mem_append, List.mem_singleton]
      exact fun hmem => hmem.elim hbreak (by decide)
    rw [linesFrom, ih hrest List.not_mem_nil hempty,
      show line ++ '\r' :: '\n' :: rest = line ++ ['\r'] ++ '\n' :: rest by simp,
      hcut _ _ hfront, List.map_cons, withoutReturn, List.getLast?_concat, if_pos rfl,
      List.dropLast_concat]
    rfl
  -- A single CR is not among the line ends.
  | case3 line rest hno ih =>
    have hnext := h [] rest rfl
    cases rest with
    | nil => exact nomatch hnext
    | cons c rest =>
      rw [List.head?_cons, Option.some.injEq] at hnext
      exact absurd (by rw [hnext]) (hno rest)
  | case4 line rest ih =>
    have hrest : LineEnds rest := fun before after heq => h ('\n' :: before) after (by
      rw [heq]
      rfl)
    rw [linesFrom, ih hrest List.not_mem_nil hempty, hcut _ _ hbreak, List.map_cons,
      withoutReturn, if_neg hreturn]
    rfl
  | case5 line c rest hcrlf hcr hlf ih =>
    have hrest : LineEnds rest := fun before after heq => h (c :: before) after (by
      rw [heq]
      rfl)
    have hline : '\n' ∉ line ++ [c] := by
      rw [List.mem_append, List.mem_singleton]
      exact fun hmem => hmem.elim hbreak fun hc => hlf hc.symm
    have hlast : (line ++ [c]).getLast? ≠ some '\r' := by
      rw [List.getLast?_concat]
      exact fun hc => hcr (Option.some.inj hc)
    rw [linesFrom.eq_5 line c rest hcrlf hcr hlf, ih hrest hline hlast, List.append_assoc]
    rfl

/-- What was read of the first line stands in front of it. -/
theorem linesFrom_append (pre line text : Text) :
    linesFrom (pre ++ line) text = (linesFrom line text).modifyHead (pre ++ ·) := by
  induction line, text using linesFrom.induct with
  | case1 line => rfl
  | case2 line rest ih => rfl
  | case3 line rest hno ih => rw [linesFrom.eq_3 _ _ hno, linesFrom.eq_3 _ _ hno]; rfl
  | case4 line rest ih => rfl
  | case5 line c rest hcrlf hcr hlf ih =>
    rw [linesFrom.eq_5 _ c rest hcrlf hcr hlf, linesFrom.eq_5 _ c rest hcrlf hcr hlf,
      List.append_assoc, ih]

/-! ### Reconnection times -/

/-- The reconnection times that the parser takes, line by line: what a line leaves where there was
none. -/
def retryRun (parser : Parser) : List Text → List (Option Nat)
  | [] => []
  | text :: rest =>
    (({ parser with retryMs := none } : Parser).line text).2.retryMs.map UInt64.toNat
      :: retryRun (parser.line text).2 rest

/-- The reconnection time that the parser takes from a line. -/
def takenRetry (line : Text) : Option Nat := (valueOf "retry" line).bind parseUsize

/-- A reconnection time that both read alike: it is below `2 ^ 64`, and has no plus sign. -/
def RetryPlain (line : Text) : Prop :=
  ∀ value, valueOf "retry" line = some value →
    (∀ n, parseDigits value = some n → n < 2 ^ 64) ∧
    ∀ digits n, value = '+' :: digits → parseDigits digits = some n → 2 ^ 64 ≤ n

/-- Which times the parser takes depends on the lines only. -/
theorem retryRun_eq (parser : Parser) (lines : List Text) :
    retryRun parser lines = lines.map takenRetry := by
  induction lines generalizing parser with
  | nil => rfl
  -- The time of a line does not depend on what came before it.
  | cons text rest ih =>
    rw [retryRun, ih, List.map_cons]
    congr 1
    unfold takenRetry valueOf
    -- An empty line has no field.
    by_cases hempty : text = []
    · rw [hempty]
      unfold line
      rw [if_pos rfl]
      split <;> rfl
    · rw [line_of_ne_nil _ hempty]
      unfold takeField
      have hnames : "retry".toList ≠ "event".toList ∧ "retry".toList ≠ "data".toList ∧
        "retry".toList ≠ "id".toList := by decide
      -- Of the four names only `retry` takes a time.
      by_cases hretry : (field text).1 = "retry".toList
      · rw [hretry, if_neg hnames.1, if_neg hnames.2.1, if_neg hnames.2.2, if_pos rfl, if_pos rfl]
        show (((parseUsize (field text).2).map UInt64.ofNat).or none).map UInt64.toNat = _
        rw [Option.or_none, Option.map_map, Option.bind_some]
        cases hparsed : parseUsize (field text).2 with
        | none => rfl
        | some n =>
          show some (UInt64.ofNat n).toNat = some n
          rw [UInt64.toNat_ofNat_of_lt' (lt_of_parseUsize hparsed)]
      · rw [if_neg hretry, if_neg hretry]
        split_ifs <;> rfl

/-- Both take the same time from a line exactly when it is plain. -/
theorem takenRetry_eq_iff (line : Text) : takenRetry line = retryValue line ↔ RetryPlain line := by
  unfold takenRetry RetryPlain retryValue valueOf
  by_cases hretry : (field line).1 = "retry".toList
  · rw [if_pos hretry, Option.bind_some]
    simp only [hretry, true_and, Option.some.injEq, forall_eq']
    generalize (field line).2 = value
    have hspec : (if value ≠ [] ∧ value.all Char.isDigit = true then
        some (Nat.ofDigitChars 10 value 0) else none) = parseDigits value := rfl
    rw [hspec, parseUsize_eq]
    -- The source parses with a sign in front, which the standard does not know.
    by_cases hplus : value.head? = some '+'
    · -- The standard refuses a plus sign.
      obtain ⟨digits, rfl⟩ := List.head?_eq_some_iff.mp hplus
      have hnone : parseDigits ('+' :: digits) = none := by
        unfold parseDigits
        refine if_neg fun h => ?_
        have hdigit := List.all_eq_true.mp h.2 '+' List.mem_cons_self
        exact absurd hdigit (by decide)
      rw [if_pos hplus, hnone, List.tail_cons, Option.filter_eq_none_iff]
      constructor
      · refine fun h => ⟨fun n hn => (nomatch hn), fun other n hother hn => ?_⟩
        rw [← (List.cons_eq_cons.mp hother).2] at hn
        have hlarge := h n hn
        rw [decide_eq_true_eq] at hlarge
        omega
      · intro h n hn
        have hlarge := h.2 digits n rfl hn
        rw [decide_eq_true_eq]
        omega
    · have hno : ∀ digits n, value = '+' :: digits → parseDigits digits = some n → 2 ^ 64 ≤ n := by
        intro digits n hvalue
        rw [hvalue] at hplus
        exact absurd rfl hplus
      rw [if_neg hplus, and_iff_left hno]
      cases hdigits : parseDigits value with
      | none => exact iff_of_true rfl fun n hn => nomatch hn
      | some m =>
        rw [Option.filter_some]
        -- A number that does not fit is refused by the source, and taken by the standard.
        by_cases hm : m < 2 ^ 64
        · rw [if_pos (decide_eq_true hm)]
          refine iff_of_true rfl fun n hn => ?_
          rwa [← Option.some.inj hn]
        · rw [if_neg (fun h => hm (of_decide_eq_true h))]
          exact iff_of_false (fun h => nomatch h) fun h => hm (h m rfl)
  · rw [if_neg hretry, if_neg fun h => hretry h.1]
    exact iff_of_true rfl fun value hvalue => nomatch hvalue

/-! ### The stream -/

/-- The parser follows the standard on a stream: the events that had a data line are the messages,
and the reconnection times are taken from the same lines. -/
structure FollowsStandard (text : Text) : Prop where
  messages : (readNoted {} (readTexts (Utf8.encode text))).filterMap messageOf
    = EventStream.messages text
  retries : retryRun {} (readTexts (Utf8.encode text)) = (linesOf text).map retryValue

/-- A stream on which they cannot differ: the messages do not show the line behind a byte order
mark, it sets no reconnection time, and every reconnection time is plain. -/
structure Plain (text : Text) : Prop where
  mark : ∀ rest line lines, text = bom :: rest → linesFrom [] rest = line :: lines →
    ¬ ShowsFirst line lines ∧ retryValue line = none
  retry : ∀ line ∈ linesFrom [] text, RetryPlain line

/-- A line behind a byte order mark is no field that is known. -/
theorem valueOf_bom {name : String} (hname : name.toList.head? ≠ some bom) (line : Text) :
    (field (bom :: line)).1 ≠ name.toList := by
  intro h
  rw [← h] at hname
  refine hname ?_
  unfold field
  dsimp only
  rw [List.takeWhile_cons_of_pos (by decide)]
  rfl

/-- It changes no buffer. -/
theorem takeField_bom (state : State) (line value : Text) :
    state.takeField (field (bom :: line)).1 value = state := by
  unfold State.takeField
  rw [if_neg (valueOf_bom (by decide) line), if_neg (valueOf_bom (by decide) line),
    if_neg (valueOf_bom (by decide) line)]

/-- The lines that the parser reads are those of the text with its byte order mark. -/
theorem readTexts_eq {text : Text} (h : LineEnds text) :
    readTexts (Utf8.encode text) = linesFrom [] text := by
  rw [readTexts_encode, linesFrom_eq h List.not_mem_nil (by decide), List.nil_append]

/-- Nothing was received. -/
theorem agree_new : Agree {} {} := ⟨rfl, rfl, rfl, fun _ => ⟨rfl, rfl⟩⟩

/-- **The parser follows the standard but for a byte order mark and odd reconnection times.** For
every stream of valid UTF-8 whose line ends are LF or CR LF, in any chunks: the events are those
that are noted, and they follow the standard if and only if the stream is plain. -/
theorem follows_iff {chunks : List (List UInt8)} {text : Text}
    (hstream : chunks.flatten = Utf8.encode text) (hends : LineEnds text) :
    (readNoted {} (readTexts (Utf8.encode text))).map (·.1) = (pushAll {} chunks).1 ∧
      (FollowsStandard text ↔ Plain text) := by
  constructor
  · rw [pushAll_eq List.not_mem_nil, hstream, push_eq]
    exact readNoted_events {} _
  -- The parser and the standard read the same fields, so that only the lines are left to compare.
  have hiff : FollowsStandard text ↔
      messagesFrom {} (linesFrom [] text) = messagesFrom {} (linesOf text) ∧
      (linesFrom [] text).map takenRetry = (linesOf text).map retryValue := by
    constructor
    · intro h
      have hmessages := h.messages
      have hretries := h.retries
      rw [readNoted_messages agree_new, readTexts_eq hends] at hmessages
      rw [retryRun_eq, readTexts_eq hends] at hretries
      exact ⟨hmessages, hretries⟩
    · intro h
      refine ⟨?_, ?_⟩
      · rw [readNoted_messages agree_new, readTexts_eq hends]
        exact h.1
      · rw [retryRun_eq, readTexts_eq hends]
        exact h.2
  rw [hiff]
  -- A mark at the beginning belongs to the first line for the source, and is skipped by the
  -- standard.
  by_cases hmark : ∃ rest, text = bom :: rest
  · obtain ⟨rest, rfl⟩ := hmark
    have hcode : linesFrom [] (bom :: rest) = (linesFrom [] rest).modifyHead (bom :: ·) := by
      rw [linesFrom.eq_5 [] bom rest (fun _ h => absurd h (by decide)) (by decide) (by decide)]
      exact linesFrom_append [bom] [] rest
    have hstandard : linesOf (bom :: rest) = linesFrom [] rest := by
      rw [linesOf, withoutBom, if_pos rfl]
    rw [hcode, hstandard]
    cases hlines : linesFrom [] rest with
    | nil =>
      refine iff_of_true ⟨rfl, rfl⟩ ⟨fun rest' line lines heq hcons => ?_, ?_⟩
      · rw [← (List.cons_eq_cons.mp heq).2, hlines] at hcons
        exact absurd hcons.symm (List.cons_ne_nil line lines)
      · rw [hcode, hlines]
        exact fun line hline => absurd hline List.not_mem_nil
    -- With the mark the first line is no field that either of them knows.
    | cons line lines =>
      have htaken : takenRetry (bom :: line) = none := by
        rw [takenRetry, valueOf, if_neg (valueOf_bom (by decide) line)]
        rfl
      have hplain : RetryPlain (bom :: line) := by
        intro value hvalue
        rw [valueOf, if_neg (valueOf_bom (by decide) line)] at hvalue
        exact absurd hvalue.symm (Option.some_ne_none value)
      rw [List.modifyHead_cons, messagesFrom_cons_of_ne_nil (List.cons_ne_nil bom line),
        takeField_bom, List.map_cons, List.map_cons, htaken, List.cons_eq_cons,
        List.map_inj_left, eq_comm, messagesFrom_cons_eq_iff]
      -- What the mark hides is the first field alone, and the rest are the lines without it.
      constructor
      · rintro ⟨hshows, hfirst, hrest⟩
        refine ⟨fun rest' line' lines' heq hcons => ?_, ?_⟩
        · rw [← (List.cons_eq_cons.mp heq).2, hlines] at hcons
          obtain ⟨rfl, rfl⟩ := List.cons_eq_cons.mp hcons
          exact ⟨hshows, hfirst.symm⟩
        · rw [hcode, hlines, List.modifyHead_cons, List.forall_mem_cons]
          exact ⟨hplain, fun other hother => (takenRetry_eq_iff other).mp (hrest other hother)⟩
      · intro h
        obtain ⟨hshows, hfirst⟩ := h.mark rest line lines rfl hlines
        have hretry := h.retry
        rw [hcode, hlines, List.modifyHead_cons, List.forall_mem_cons] at hretry
        exact ⟨hshows, hfirst.symm,
          fun other hother => (takenRetry_eq_iff other).mpr (hretry.2 other hother)⟩
  -- Without the mark the lines are the same, and only the times can differ.
  · have hsame : withoutBom text = text := by
      cases text with
      | nil => rfl
      | cons c rest =>
        rw [withoutBom, if_neg]
        intro hc
        exact hmark ⟨rest, by rw [hc]⟩
    rw [linesOf, hsame, and_iff_right rfl, List.map_inj_left]
    constructor
    · intro h
      refine ⟨fun rest line lines heq => absurd ⟨rest, heq⟩ hmark, fun line hline => ?_⟩
      exact (takenRetry_eq_iff line).mp (h line hline)
    · exact fun h line hline => (takenRetry_eq_iff line).mpr (h.retry line hline)

/-! ### Two streams -/

/-- A text without carriage returns has the right line ends. -/
theorem lineEnds_of_not_mem {text : Text} (h : '\r' ∉ text) : LineEnds text := by
  intro before after heq
  refine absurd ?_ h
  rw [heq]
  exact List.mem_append_right before List.mem_cons_self

/-- A message with an id and a reconnection time. -/
def plainStream : Text := "id: 7\nretry: 10\ndata: a\n\n".toList

/-- The parser follows the standard on it, also when it comes in three chunks. -/
theorem follows_plainStream :
    (readNoted {} (readTexts (Utf8.encode plainStream))).map (·.1)
        = (pushAll {} [(Utf8.encode plainStream).take 3, [], (Utf8.encode plainStream).drop 3]).1 ∧
      FollowsStandard plainStream := by
  have hends : LineEnds plainStream := lineEnds_of_not_mem (by decide)
  have hlines : linesFrom [] plainStream
      = ["id: 7".toList, "retry: 10".toList, "data: a".toList, []] := by decide +kernel
  have hplain : Plain plainStream := by
    refine ⟨fun rest line lines heq => absurd (List.cons_eq_cons.mp heq).1 (by decide), ?_⟩
    have hall : ∀ line ∈ linesFrom [] plainStream, takenRetry line = retryValue line := by
      rw [hlines]
      decide +kernel
    exact fun line hline => (takenRetry_eq_iff line).mp (hall line hline)
  have hstream : [(Utf8.encode plainStream).take 3, [], (Utf8.encode plainStream).drop 3].flatten
      = Utf8.encode plainStream := by decide +kernel
  obtain ⟨hevents, hfollows⟩ := follows_iff hstream hends
  exact ⟨hevents, hfollows.mpr hplain⟩

/-- A stream with a byte order mark, and one with a reconnection time that has a plus sign. -/
theorem not_follows_bom :
    (LineEnds "\uFEFFdata: a\n\n".toList ∧ ¬ FollowsStandard "\uFEFFdata: a\n\n".toList) ∧
    LineEnds "retry: +5\ndata: a\n\n".toList ∧
      ¬ FollowsStandard "retry: +5\ndata: a\n\n".toList := by
  refine ⟨⟨lineEnds_of_not_mem (by decide), fun h => ?_⟩, lineEnds_of_not_mem (by decide),
    fun h => ?_⟩
  · exact absurd h.messages (by decide +kernel)
  · exact absurd h.retries (by decide +kernel)

end Gabriel.Core.Sse.Parser
