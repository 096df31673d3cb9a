import Gabriel.Core.Sse

/-!
# `Gabriel.Proofs.SseChunks`: the events do not depend on the chunks

A stream arrives in chunks that end anywhere: inside a line, between the two bytes of a line end,
inside a character. `Parser.push` keeps the bytes after the last line feed in its buffer, so the
lines that it reads are those of the stream.

The step is that pushing two chunks one after the other is pushing them at once. It rests on
`splitOn_append`, by which the last piece of a split goes on with the next chunk, and on the fact
that reading lines does not look at the buffer. The theorems:

* `readLines_buffer`: reading lines does not look at the buffer.
* `readLines_append`: lines are read one after the other.
* `push_append`: pushing two chunks is pushing them at once.
* `pushAll_eq`: pushing chunks is pushing the stream, by induction over the chunks.
* `eventsOf_eq`: the events of a stream, `finish` included, do not depend on its chunks.
-/

set_option autoImplicit false

namespace Gabriel.Core.Sse.Parser

open Text

/-! ### Lines and the buffer -/

/-- Reading a line does not look at the buffer. -/
theorem line_buffer (parser : Parser) (buffer : List UInt8) (text : Text) :
    ({ parser with buffer } : Parser).line text
      = ((parser.line text).1, { (parser.line text).2 with buffer }) := by
  have hfield : ∀ field value : Text, ({ parser with buffer } : Parser).takeField field value
      = { parser.takeField field value with buffer } := by
    intro field value
    unfold takeField
    by_cases hevent : field = "event".toList
    · rw [if_pos hevent, if_pos hevent]
    rw [if_neg hevent, if_neg hevent]
    by_cases hdata : field = "data".toList
    · rw [if_pos hdata, if_pos hdata]
    rw [if_neg hdata, if_neg hdata]
    by_cases hid : field = "id".toList
    · rw [if_pos hid, if_pos hid]
    rw [if_neg hid, if_neg hid]
    by_cases hretry : field = "retry".toList
    · rw [if_pos hretry, if_pos hretry]
    rw [if_neg hretry, if_neg hretry]
  unfold line
  by_cases hempty : text = []
  · rw [if_pos hempty, if_pos hempty]
    show (if parser.started = true then _ else _) = _
    by_cases hstarted : parser.started = true
    · rw [if_pos hstarted, if_pos hstarted]
      rfl
    · rw [if_neg hstarted, if_neg hstarted]
  rw [if_neg hempty, if_neg hempty]
  by_cases hcomment : text.head? = some ':'
  · rw [if_pos hcomment, if_pos hcomment]
  · rw [if_neg hcomment, if_neg hcomment, hfield]

/-- Reading lines does not look at the buffer. -/
theorem readLines_buffer (parser : Parser) (buffer : List UInt8) (lines : List (List UInt8)) :
    ({ parser with buffer } : Parser).readLines lines
      = ((parser.readLines lines).1, { (parser.readLines lines).2 with buffer }) := by
  induction lines generalizing parser with
  | nil => rfl
  | cons bytes rest ih =>
    unfold readLines
    rw [line_buffer]
    dsimp only
    rw [ih]

/-- A line and those after it. -/
theorem readLines_cons (parser : Parser) (bytes : List UInt8) (rest : List (List UInt8)) :
    parser.readLines (bytes :: rest)
      = ((parser.line (Utf8.decodeLossy (stripReturn bytes))).1.toList
          ++ ((parser.line (Utf8.decodeLossy (stripReturn bytes))).2.readLines rest).1,
        ((parser.line (Utf8.decodeLossy (stripReturn bytes))).2.readLines rest).2) := rfl

/-- Lines are read one after the other. -/
theorem readLines_append (parser : Parser) (lines lines' : List (List UInt8)) :
    parser.readLines (lines ++ lines')
      = ((parser.readLines lines).1 ++ ((parser.readLines lines).2.readLines lines').1,
        ((parser.readLines lines).2.readLines lines').2) := by
  induction lines generalizing parser with
  | nil => rfl
  | cons bytes rest ih =>
    rw [List.cons_append, readLines_cons, readLines_cons, ih, List.append_assoc]

/-! ### Chunks -/

/-- A push reads the whole lines, and keeps what follows the last line feed. -/
theorem push_eq (parser : Parser) (chunk : List UInt8) :
    parser.push chunk
      = ((parser.readLines ((parser.buffer ++ chunk).splitOn 0x0A).dropLast).1,
        { (parser.readLines ((parser.buffer ++ chunk).splitOn 0x0A).dropLast).2 with
          buffer := ((parser.buffer ++ chunk).splitOn 0x0A).getLastD [] }) := by
  unfold push
  dsimp only
  rw [readLines_buffer]

/-- Pushing two chunks is pushing them at once. -/
theorem push_append (parser : Parser) (chunk chunk' : List UInt8) :
    parser.push (chunk ++ chunk')
      = ((parser.push chunk).1 ++ ((parser.push chunk).2.push chunk').1,
        ((parser.push chunk).2.push chunk').2) := by
  have hne : ∀ s : List UInt8, s.splitOn 0x0A ≠ [] := List.splitOn_ne_nil 0x0A
  rw [push_eq parser chunk, push_eq parser (chunk ++ chunk'), ← List.append_assoc, splitOn_append,
    List.dropLast_append_of_ne_nil (hne _), readLines_append]
  generalize (parser.buffer ++ chunk).splitOn 0x0A = pieces
  rcases parser.readLines pieces.dropLast with ⟨events, middle⟩
  have hread := readLines_buffer middle (pieces.getLastD [])
    ((pieces.getLastD [] ++ chunk').splitOn 0x0A).dropLast
  have hlast : (pieces.dropLast ++ (pieces.getLastD [] ++ chunk').splitOn 0x0A).getLastD []
      = ((pieces.getLastD [] ++ chunk').splitOn 0x0A).getLastD [] := by
    rw [List.getLastD_eq_getLast?, List.getLast?_append_of_ne_nil _ (hne _),
      ← List.getLastD_eq_getLast?]
  dsimp only
  rw [push_eq]
  dsimp only
  rw [hread, hlast]

/-- Push some chunks, and collect the events they complete. -/
def pushAll (parser : Parser) : List (List UInt8) → List Event × Parser
  | [] => ([], parser)
  | chunk :: chunks =>
    ((parser.push chunk).1 ++ ((parser.push chunk).2.pushAll chunks).1,
      ((parser.push chunk).2.pushAll chunks).2)

/-- Pushing nothing keeps a buffer without a line feed. -/
theorem push_nil {parser : Parser} (h : 0x0A ∉ parser.buffer) : parser.push [] = ([], parser) := by
  rw [push_eq, List.append_nil, List.splitOn_eq_singleton h]
  rfl

/-- No line feed waits in the buffer after a push. -/
theorem newline_not_mem_buffer_push (parser : Parser) (chunk : List UInt8) :
    0x0A ∉ (parser.push chunk).2.buffer := by
  rw [push_eq]
  show 0x0A ∉ ((parser.buffer ++ chunk).splitOn 0x0A).getLastD []
  rw [List.getLastD_eq_getLast?,
    List.getLast?_eq_some_getLast (List.splitOn_ne_nil _ (parser.buffer ++ chunk)),
    Option.getD_some]
  exact not_mem_of_mem_splitOn (List.getLast_mem _)

/-- Pushing chunks is pushing the stream. -/
theorem pushAll_eq {parser : Parser} (h : 0x0A ∉ parser.buffer) (chunks : List (List UInt8)) :
    parser.pushAll chunks = parser.push chunks.flatten := by
  induction chunks generalizing parser with
  | nil => exact (push_nil h).symm
  | cons chunk chunks ih =>
    rw [pushAll, ih (newline_not_mem_buffer_push parser chunk), List.flatten_cons, push_append]

/-- What a stream gives when it ends: the events of its chunks, and the one that `finish` adds. -/
def eventsOf (chunks : List (List UInt8)) : List Event :=
  (pushAll {} chunks).1 ++ (pushAll {} chunks).2.finish.1.toList

/-- **The events of a stream do not depend on its chunks.** For every stream and every division of
it into chunks: the events of the chunks, followed by that of `finish`, are those of the stream
pushed at once, and no line feed waits in the buffer after any push. -/
theorem eventsOf_eq (chunks : List (List UInt8)) :
    eventsOf chunks = eventsOf [chunks.flatten] ∧
      ∀ before after, chunks = before ++ after → 0x0A ∉ (pushAll {} before).2.buffer := by
  have hempty : 0x0A ∉ ({} : Parser).buffer := List.not_mem_nil
  constructor
  · unfold eventsOf
    rw [pushAll_eq hempty, pushAll_eq hempty, List.flatten_singleton]
  · intro before after _
    rw [pushAll_eq hempty]
    exact newline_not_mem_buffer_push _ _

end Gabriel.Core.Sse.Parser
