import Gabriel.Proofs.SseMessages

/-!
# `Gabriel.Proofs.SseFinish`: what a stream that was cut off shows

`finish` gives out the event that a stream ended without. It takes the bytes in the buffer for a
last line, and leaves out the step by which `push` drops the carriage return of a line end. Pushing
a line end and a blank line instead takes it.

Both come to `flushed`, the event after one more line and a blank one: for `finish` the line with
its carriage return, for the other way the line without it. So what is left is what a carriage
return does to each kind of line (`ReturnIgnored`). The theorems:

* `finish_eq`: `finish` takes the buffer for a line, with its carriage return.
* `push_blank`: a line end and a blank line give out the event of the line in the buffer.
* `flushed_eq`: the event of a line, in terms of what is held after it.
* `flushed_return_iff`: a line and the same line with a carriage return have the same event exactly
  when it is ignored.
* `showsCut_iff`: for every stream in any chunks, when `finish` shows what arrived, and shows it
  once.
-/

set_option autoImplicit false

namespace Gabriel.Core.Sse.Parser

open Text EventStream

/-! ### One more line -/

/-- What is held after a line that is not blank. -/
def after (parser : Parser) (text : Text) : Parser :=
  if text = [] then parser else (parser.line text).2

/-- The event of a blank line behind a line. -/
def flushed (parser : Parser) (text : Text) : Option Event :=
  ((parser.after text).line []).1

/-- A blank line gives out what has started. -/
theorem line_nil (parser : Parser) :
    parser.line [] = if parser.started then (some parser.dispatch.1, parser.dispatch.2)
      else (none, parser) := rfl

/-- A second blank line gives out nothing. -/
theorem line_nil_line_nil (parser : Parser) : ((parser.line []).2.line []).1 = none := by
  rw [line_nil parser]
  by_cases hstarted : parser.started = true
  · rw [if_pos hstarted]
    rfl
  · rw [if_neg hstarted, line_nil, if_neg hstarted]

/-- The buffer is no part of an event. -/
theorem flushed_buffer (parser : Parser) (buffer : List UInt8) (text : Text) :
    flushed { parser with buffer } text = parser.flushed text := by
  unfold flushed after
  by_cases htext : text = []
  · rw [if_pos htext, if_pos htext, line_buffer]
  · rw [if_neg htext, if_neg htext, line_buffer parser buffer text]
    dsimp only
    rw [line_buffer]

/-- A line end and a blank line give out the event of the line in the buffer. -/
theorem push_blank {parser : Parser} (h : 0x0A ∉ parser.buffer) :
    (parser.push [0x0A, 0x0A]).1
      = (parser.flushed (Utf8.decodeLossy (stripReturn parser.buffer))).toList := by
  have hsplit : (parser.buffer ++ [0x0A, 0x0A]).splitOn 0x0A = [parser.buffer, [], []] := by
    rw [List.splitOn_append_cons_self, List.splitOn_eq_singleton h]
    rfl
  rw [push_eq, hsplit]
  show (parser.line (Utf8.decodeLossy (stripReturn parser.buffer))).1.toList
    ++ (((parser.line (Utf8.decodeLossy (stripReturn parser.buffer))).2.line []).1.toList ++ []) = _
  generalize Utf8.decodeLossy (stripReturn parser.buffer) = text
  unfold flushed after
  by_cases htext : text = []
  · rw [htext, if_pos rfl, line_nil_line_nil, Option.toList_none, List.append_nil, List.append_nil]
  · rw [if_neg htext, line_of_ne_nil _ htext, Option.toList_none, List.append_nil, List.nil_append]

/-- `finish` takes the buffer for a line, with its carriage return. -/
theorem finish_eq (parser : Parser) :
    parser.finish.1 = parser.flushed (Utf8.decodeLossy parser.buffer) := by
  unfold finish
  by_cases hbuffer : parser.buffer = []
  · rw [if_pos hbuffer, hbuffer]
    rfl
  · have htext : Utf8.decodeLossy parser.buffer ≠ [] := by
      obtain ⟨b, rest, hcons⟩ := List.exists_cons_of_ne_nil hbuffer
      rw [hcons, Utf8.decodeLossy_cons]
      exact List.cons_ne_nil _ _
    rw [if_neg hbuffer, ← flushed_buffer parser []]
    unfold flushed after
    rw [if_neg htext, line_nil]

/-- A second `finish` gives out nothing. -/
theorem finish_finish (parser : Parser) : parser.finish.2.finish.1 = none := by
  -- A parser with nothing in the buffer and no event started has nothing to give out.
  have hidle : ∀ p : Parser, p.buffer = [] → p.started = false → p.finish.1 = none := by
    intro p hbuffer hstarted
    unfold finish
    rw [if_pos hbuffer]
    dsimp only
    rw [hstarted]
    rfl
  -- Both branches of `finish` leave such a parser.
  have hdone : ∀ p : Parser, p.buffer = [] →
      (if p.started then (some p.dispatch.1, p.dispatch.2) else (none, p)).2.buffer = []
        ∧ (if p.started then (some p.dispatch.1, p.dispatch.2) else (none, p)).2.started
          = false := by
    intro p hbuffer
    cases hstarted : p.started with
    | true => exact ⟨hbuffer, rfl⟩
    | false => exact ⟨hbuffer, hstarted⟩
  obtain ⟨hbuffer, hstarted⟩ : parser.finish.2.buffer = [] ∧ parser.finish.2.started = false := by
    -- What is in the buffer counts as a last line, which leaves the buffer empty.
    unfold finish
    by_cases hbuffer : parser.buffer = []
    · rw [if_pos hbuffer]
      exact hdone _ hbuffer
    · rw [if_neg hbuffer]
      refine hdone _ ?_
      rw [line_buffer]
  exact hidle _ hbuffer hstarted

/-! ### A carriage return behind a line -/

/-- A carriage return goes to the value of a field with a colon. -/
theorem field_return {text : Text} (h : ':' ∈ text) :
    field (text ++ ['\r']) = ((field text).1, (field text).2 ++ ['\r']) := by
  obtain ⟨name, value, rfl, hname⟩ := List.eq_append_cons_of_mem h
  rw [List.append_assoc, List.cons_append, field_colon hname, field_colon hname]
  cases value with
  | nil => rfl
  | cons c value =>
    rw [List.cons_append, List.head?_cons, List.head?_cons]
    by_cases hc : some c = some ' '
    · rw [if_pos hc, if_pos hc]
      rfl
    · rw [if_neg hc, if_neg hc]
      rfl

/-- A line that is not blank takes its field. -/
theorem after_eq {text : Text} (h : text ≠ []) (parser : Parser) :
    parser.after text = parser.takeField (field text).1 (field text).2 := by
  unfold after
  rw [if_neg h, line_of_ne_nil parser h]

/-- A name that is not known changes nothing. -/
theorem takeField_unknown (parser : Parser) {name : Text}
    (h : name ∉ ["event".toList, "data".toList, "id".toList, "retry".toList]) (value : Text) :
    parser.takeField name value = parser := by
  simp only [List.mem_cons, List.not_mem_nil, or_false, not_or] at h
  unfold takeField
  rw [if_neg h.1, if_neg h.2.1, if_neg h.2.2.1, if_neg h.2.2.2]

/-- The event of a line, in terms of what is held after it. -/
theorem flushed_eq (parser : Parser) (text : Text) :
    parser.flushed text
      = if (parser.after text).started then some (parser.after text).dispatch.1 else none := by
  unfold flushed
  rw [line_nil]
  split <;> rfl

/-- The names of the fields. -/
def fieldNames : List Text := ["event".toList, "data".toList, "id".toList, "retry".toList]

/-- The carriage return at the end of a line changes nothing of the event. With a colon the field
is one whose value is not looked at: an unknown one, an id that holds a NUL, or a reconnection time
that is no number or that is held already. Without a colon it is unknown, or leaves the event that
has started as it is. -/
def ReturnIgnored (parser : Parser) (text : Text) : Prop :=
  if ':' ∈ text then
    (fieldOf text).1 ≠ "event".toList ∧ (fieldOf text).1 ≠ "data".toList
      ∧ ((fieldOf text).1 = "id".toList → '\x00' ∈ (fieldOf text).2)
      ∧ ((fieldOf text).1 = "retry".toList →
        ((parseUsize (fieldOf text).2).map UInt64.ofNat).or parser.retryMs = parser.retryMs)
  else text ∈ fieldNames → parser.started = true
    ∧ (text = "event".toList → parser.name = some [])
    ∧ (text = "data".toList → parser.data = [])
    ∧ (text = "id".toList → parser.lastId = some [])

/-- A line behind some lines comes behind a separator. -/
theorem intercalate_concat (sep : Text) {lines : List Text} (h : lines ≠ []) (line : Text) :
    List.intercalate sep (lines ++ [line]) = List.intercalate sep lines ++ sep ++ line := by
  induction lines with
  | nil => exact absurd rfl h
  | cons first rest ih =>
    by_cases hrest : rest = []
    · rw [hrest]
      show List.intercalate sep [first, line] = _
      rw [List.intercalate_cons_cons, List.intercalate_singleton, List.intercalate_singleton]
    · have hne : rest ++ [line] ≠ [] := List.append_ne_nil_of_left_ne_nil hrest _
      rw [List.cons_append, List.intercalate_cons_of_ne_nil hne,
        List.intercalate_cons_of_ne_nil hrest, ih hrest]
      simp only [List.append_assoc]

/-- The end of the last line is the end of the text. -/
theorem intercalate_concat_append (sep : Text) (lines : List Text) (line more : Text) :
    List.intercalate sep (lines ++ [line ++ more])
      = List.intercalate sep (lines ++ [line]) ++ more := by
  by_cases hlines : lines = []
  · rw [hlines]
    show List.intercalate sep [line ++ more] = List.intercalate sep [line] ++ more
    rw [List.intercalate_singleton, List.intercalate_singleton]
  · rw [intercalate_concat sep hlines, intercalate_concat sep hlines]
    simp only [List.append_assoc]

/-- An empty line behind some lines leaves their text as it is when there are none. -/
theorem intercalate_concat_nil_iff (lines : List Text) :
    List.intercalate ['\n'] lines = List.intercalate ['\n'] (lines ++ [[]]) ↔ lines = [] := by
  by_cases hlines : lines = []
  · rw [hlines]
    exact iff_of_true rfl rfl
  · rw [intercalate_concat _ hlines, List.append_nil]
    exact iff_of_false (fun h => List.cons_ne_nil _ _ (List.self_eq_append_right.mp h)) hlines

/-- A number has no carriage return. -/
theorem parseUsize_return (value : Text) : parseUsize (value ++ ['\r']) = none := by
  have hdigits : ∀ t : Text, parseDigits (t ++ ['\r']) = none := by
    intro t
    unfold parseDigits
    refine if_neg fun h => ?_
    have hdigit := List.all_eq_true.mp h.2 '\r' (List.mem_append_right _ List.mem_cons_self)
    exact absurd hdigit (by decide)
  rw [parseUsize_eq]
  cases value with
  | nil => rfl
  | cons c rest =>
    rw [List.cons_append, List.head?_cons, List.tail_cons]
    by_cases hplus : some c = some '+'
    · rw [if_pos hplus, hdigits]
      rfl
    · rw [if_neg hplus, ← List.cons_append, hdigits]
      rfl

/-- The events of two parsers, one of which has started. -/
theorem shown_eq_iff {p q : Parser} (hq : q.started = true) :
    (if p.started then some p.dispatch.1 else none)
      = (if q.started then some q.dispatch.1 else none)
      ↔ p.started = true ∧ p.name = q.name
        ∧ List.intercalate ['\n'] p.data = List.intercalate ['\n'] q.data
        ∧ p.lastId = q.lastId ∧ p.retryMs = q.retryMs := by
  rw [if_pos hq]
  by_cases hp : p.started = true
  · rw [if_pos hp, and_iff_right hp, Option.some.injEq]
    exact Event.mk.injEq .. ▸ Iff.rfl
  · rw [if_neg hp]
    exact iff_of_false (Option.some_ne_none _).symm fun h => hp h.1

/-- A text with a return behind it is another one. -/
theorem append_return_ne (t : Text) : t ++ ['\r'] ≠ t :=
  fun h => List.cons_ne_nil _ _ (List.append_right_eq_self.mp h)

/-- A field name alone changes nothing of an event that has started when its value was empty
before. -/
theorem flushed_name_iff (parser : Parser) {text : Text} (h : text ∈ fieldNames) :
    (if parser.started then some parser.dispatch.1 else none)
        = (if (parser.takeField text []).started then some (parser.takeField text []).dispatch.1
          else none)
      ↔ parser.started = true ∧ (text = "event".toList → parser.name = some [])
        ∧ (text = "data".toList → parser.data = [])
        ∧ (text = "id".toList → parser.lastId = some []) := by
  have hnames : "event".toList ≠ "data".toList ∧ "event".toList ≠ "id".toList
    ∧ "data".toList ≠ "id".toList ∧ "data".toList ≠ "event".toList ∧ "id".toList ≠ "event".toList
    ∧ "id".toList ≠ "data".toList := by decide
  unfold takeField
  -- An `event` without a value sets the empty type.
  by_cases hevent : text = "event".toList
  · have hdata : text ≠ "data".toList := hevent ▸ hnames.1
    have hid : text ≠ "id".toList := hevent ▸ hnames.2.1
    rw [if_pos hevent, shown_eq_iff rfl, forall_prop_of_true hevent, forall_prop_of_false hdata,
      forall_prop_of_false hid]
    simp only [and_true]
  -- A `data` without a value adds an empty line.
  by_cases hdata : text = "data".toList
  · have hid : text ≠ "id".toList := hdata ▸ hnames.2.2.1
    rw [if_neg hevent, if_pos hdata, shown_eq_iff rfl, forall_prop_of_false hevent,
      forall_prop_of_true hdata, forall_prop_of_false hid]
    simp only [intercalate_concat_nil_iff, true_and, and_true]
  -- An `id` without a value sets the empty id, which has no NUL.
  by_cases hid : text = "id".toList
  · rw [if_neg hevent, if_neg hdata, if_pos hid, shown_eq_iff rfl, forall_prop_of_false hevent,
      forall_prop_of_false hdata, forall_prop_of_true hid, if_neg List.not_mem_nil]
    simp only [true_and, and_true]
  -- A `retry` without a value is no number and changes nothing.
  · have hretry : text = "retry".toList := by
      simp only [fieldNames, List.mem_cons, List.not_mem_nil, or_false] at h
      tauto
    rw [if_neg hevent, if_neg hdata, if_neg hid, if_pos hretry, shown_eq_iff rfl,
      forall_prop_of_false hevent, forall_prop_of_false hdata, forall_prop_of_false hid]
    exact and_congr_right fun _ => iff_of_true ⟨rfl, rfl, rfl, rfl⟩ ⟨trivial, trivial, trivial⟩

/-- **A line and the same line with a carriage return have the same event exactly when it is
ignored.** -/
theorem flushed_return_iff (parser : Parser) (text : Text) :
    parser.flushed (text ++ ['\r']) = parser.flushed text ↔ parser.ReturnIgnored text := by
  rw [flushed_eq, flushed_eq,
    after_eq (List.append_ne_nil_of_right_ne_nil _ (List.cons_ne_nil _ _))]
  unfold ReturnIgnored
  by_cases hcolon : ':' ∈ text
  · -- The carriage return is in the value.
    rw [if_pos hcolon, field_return hcolon, after_eq (List.ne_nil_of_mem hcolon), fieldOf_eq]
    generalize (field text).1 = name
    generalize (field text).2 = value
    dsimp only
    unfold takeField
    -- The type and the data take the value with the carriage return, so the event changes.
    by_cases hevent : name = "event".toList
    · rw [if_pos hevent, if_pos hevent, shown_eq_iff rfl, and_iff_right rfl]
      exact iff_of_false (fun h => append_return_ne value (Option.some.inj h.1)) fun h => h.1 hevent
    rw [if_neg hevent, if_neg hevent, and_iff_right hevent]
    by_cases hdata : name = "data".toList
    · rw [if_pos hdata, if_pos hdata, shown_eq_iff rfl, and_iff_right rfl]
      refine iff_of_false (fun h => ?_) fun h => h.1 hdata
      have hlines := h.2.1
      dsimp only at hlines
      rw [intercalate_concat_append] at hlines
      exact append_return_ne _ hlines
    rw [if_neg hdata, if_neg hdata, and_iff_right hdata]
    -- The id is dropped with a NUL in it, and only then the carriage return is as well.
    by_cases hid : name = "id".toList
    · have hretry : name ≠ "retry".toList := by
        rw [hid]
        decide
      have hnul : '\x00' ∈ value ++ ['\r'] ↔ '\x00' ∈ value := by
        rw [List.mem_append, or_iff_left (by decide)]
      rw [if_pos hid, if_pos hid, shown_eq_iff rfl, and_iff_right rfl, forall_prop_of_true hid]
      dsimp only
      rw [and_iff_left fun h => absurd h hretry, and_iff_right rfl, and_iff_right rfl,
        and_iff_left rfl]
      by_cases hin : '\x00' ∈ value
      · rw [if_pos (hnul.mpr hin), if_pos hin]
        exact iff_of_true rfl hin
      · rw [if_neg fun h => hin (hnul.mp h), if_neg hin]
        exact iff_of_false (fun h => append_return_ne value (Option.some.inj h)) hin
    rw [if_neg hid, if_neg hid, and_iff_right fun h => absurd h hid]
    -- A number with a carriage return is no number, so it must have been none before.
    by_cases hretry : name = "retry".toList
    · rw [if_pos hretry, if_pos hretry, shown_eq_iff rfl, and_iff_right rfl,
        forall_prop_of_true hretry,
        parseUsize_return]
      dsimp only
      rw [and_iff_right rfl, and_iff_right rfl, and_iff_right rfl]
      exact eq_comm
    · rw [if_neg hretry, if_neg hretry]
      exact iff_of_true rfl fun h => absurd h hretry
  · -- The carriage return is in the name, which is unknown.
    have hreturn : ':' ∉ text ++ ['\r'] := by
      rw [List.mem_append]
      exact fun h => h.elim hcolon (by decide)
    have hunknown : text ++ ['\r'] ∉ fieldNames := by
      intro hmem
      have hlast : (text ++ ['\r']).getLast? = some '\r' := List.getLast?_concat
      have hall : ∀ name ∈ fieldNames, name.getLast? ≠ some '\r' := by decide
      exact hall _ hmem hlast
    rw [if_neg hcolon, field_of_not_mem hreturn, takeField_unknown parser hunknown]
    -- Without the carriage return it may be the name of a field, with an empty value.
    by_cases hknown : text ∈ fieldNames
    · have hne : text ≠ [] := by
        rintro rfl
        exact absurd hknown (by decide)
      rw [forall_prop_of_true hknown, after_eq hne, field_of_not_mem hcolon]
      exact flushed_name_iff parser hknown
    · rw [forall_prop_of_false hknown]
      refine iff_of_true ?_ trivial
      by_cases hne : text = []
      · rw [after, if_pos hne]
      · rw [after_eq hne, field_of_not_mem hcolon, takeField_unknown parser hknown]

/-! ### The end of a stream -/

/-- `finish` gives out what a line end and a blank line would, and nothing a second time. -/
structure ShowsCut (parser : Parser) : Prop where
  event : parser.finish.1.toList = (parser.push [0x0A, 0x0A]).1
  once : parser.finish.2.finish.1 = none

/-- A text with a carriage return behind it. -/
theorem decodeLossy_return (line : List UInt8) :
    Utf8.decodeLossy (line ++ [0x0D]) = Utf8.decodeLossy line ++ ['\r'] :=
  Utf8.decodeLossy_append_ascii (by decide) line []

/-- **When a cut-off stream shows what arrived.** For every stream, in any chunks: `finish` gives
out the event that a line end and a blank line would, and nothing a second time, exactly when the
carriage return at the end of what is in the buffer is ignored, if there is one. -/
theorem showsCut_iff (chunks : List (List UInt8)) :
    ShowsCut (pushAll {} chunks).2 ↔
      ∀ line, (pushAll {} chunks).2.buffer = line ++ [0x0D] →
        (pushAll {} chunks).2.ReturnIgnored (Utf8.decodeLossy line) := by
  -- No line feed is left in the buffer, so the line end completes exactly what is there.
  have hbuffer : 0x0A ∉ (pushAll {} chunks).2.buffer := by
    rw [pushAll_eq List.not_mem_nil]
    exact newline_not_mem_buffer_push _ _
  generalize (pushAll {} chunks).2 = parser at hbuffer
  -- The event of the blank line is that of the buffer without its carriage return.
  have hevent : ShowsCut parser ↔ parser.flushed (Utf8.decodeLossy parser.buffer)
      = parser.flushed (Utf8.decodeLossy (stripReturn parser.buffer)) := by
    constructor
    · intro h
      have hlist := h.event
      rw [finish_eq, push_blank hbuffer] at hlist
      have hhead := congrArg List.head? hlist
      rwa [Option.head?_toList, Option.head?_toList] at hhead
    · intro h
      refine ⟨?_, finish_finish parser⟩
      rw [finish_eq, push_blank hbuffer, h]
  rw [hevent]
  -- Only a buffer that ends in a carriage return is shown differently.
  by_cases hreturn : parser.buffer.getLast? = some 0x0D
  · obtain ⟨line, hline⟩ := List.getLast?_eq_some_iff.mp hreturn
    rw [stripReturn, if_pos hreturn, hline, List.dropLast_concat, decodeLossy_return,
      flushed_return_iff]
    constructor
    · intro h line' hline'
      rwa [← List.append_left_injective _ hline']
    · exact fun h => h line rfl
  · rw [stripReturn, if_neg hreturn]
    refine iff_of_true rfl fun line hline => ?_
    rw [hline, List.getLast?_concat] at hreturn
    exact absurd rfl hreturn

/-- A stream that was cut between the two bytes of a line end: the carriage return is shown. -/
theorem not_showsCut_data : ¬ ShowsCut (pushAll {} [Utf8.encode "data: a\r".toList]).2 := by
  intro h
  exact absurd h.event (by decide +kernel)

end Gabriel.Core.Sse.Parser
