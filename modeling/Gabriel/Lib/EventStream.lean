import Gabriel.Lib.Text

/-!
# `Gabriel.Lib.EventStream`: the event stream format of the HTML standard

How a decoded event stream is read, by the HTML standard. A leading byte order mark is dropped, the
text is cut into lines, and each line changes three buffers: the data, the event type and the last
event id. An empty line dispatches a message, unless the data buffer is empty.

A buffer that is filled in front of some lines is shown by their messages, or it is not: an empty
line comes first, or another field of the same name. The theorems:

* `step_of_ne_nil`, `messagesFrom_cons_nil`: a line that is not empty, and an empty one.
* `messagesFrom_data`: data is shown by the first empty line.
* `messagesFrom_eventType`: a type is shown by the first message, unless a field replaces it.
* `messagesFrom_lastId`: so is an id.
* `messagesFrom_cons_eq_iff`: a first line makes a difference exactly when the messages show it
  (`ShowsFirst`).
-/

set_option autoImplicit false

namespace EventStream

open Text

/-! ### Lines -/

/-- The byte order mark. -/
def bom : Char := '\uFEFF'

/-- A text without its leading byte order mark. -/
def withoutBom : Text → Text
  | [] => []
  | c :: rest => if c = bom then rest else c :: rest

/-- The lines of a text; `line` is what was read of the first one. A line ends with CR LF, with LF
or with CR, and what follows the last end is no line. -/
def linesFrom (line : Text) : Text → List Text
  | [] => []
  | '\r' :: '\n' :: rest => line :: linesFrom [] rest
  | '\r' :: rest => line :: linesFrom [] rest
  | '\n' :: rest => line :: linesFrom [] rest
  | c :: rest => linesFrom (line ++ [c]) rest

/-- The lines of a stream. -/
def linesOf (text : Text) : List Text := linesFrom [] (withoutBom text)

/-! ### Fields -/

/-- The name and the value of the field of a line. One space after the colon is no part of the
value. -/
def field (line : Text) : Text × Text :=
  let value := (line.dropWhile (· ≠ ':')).drop 1
  (line.takeWhile (· ≠ ':'), if value.head? = some ' ' then value.tail else value)

/-- The buffers. -/
structure State where
  data : Text := []
  eventType : Text := []
  lastId : Text := []
  deriving DecidableEq

/-- A message that is dispatched. -/
structure Message where
  type : Text
  data : Text
  lastId : Text
  deriving DecidableEq

/-- Process a field. -/
def State.takeField (state : State) (name value : Text) : State :=
  if name = "event".toList then { state with eventType := value }
  else if name = "data".toList then { state with data := state.data ++ value ++ ['\n'] }
  else if name = "id".toList then
    if '\x00' ∈ value then state else { state with lastId := value }
  else state

/-- The type of a message: `message` while the buffer is empty. -/
def typeOf (buffer : Text) : Text := if buffer = [] then "message".toList else buffer

/-- Dispatch what the buffers hold. -/
def State.dispatch (state : State) : Option Message :=
  if state.data = [] then none
  else some ⟨typeOf state.eventType,
    if state.data.getLast? = some '\n' then state.data.dropLast else state.data, state.lastId⟩

/-- Process a line: the message that it dispatches, and the buffers after it. -/
def State.step (state : State) (line : Text) : Option Message × State :=
  if line = [] then (state.dispatch, { state with data := [], eventType := [] })
  else if line.head? = some ':' then (none, state)
  else (none, state.takeField (field line).1 (field line).2)

/-- The messages of some lines. -/
def messagesFrom (state : State) : List Text → List Message
  | [] => []
  | line :: rest => (state.step line).1.toList ++ messagesFrom (state.step line).2 rest

/-- The messages of a stream. -/
def messages (text : Text) : List Message := messagesFrom {} (linesOf text)

/-- The reconnection time that a line sets: a `retry` field of ASCII digits only. -/
def retryValue (line : Text) : Option Nat :=
  if (field line).1 = "retry".toList ∧ (field line).2 ≠ [] ∧ (field line).2.all Char.isDigit then
    some (Nat.ofDigitChars 10 (field line).2 0)
  else none

example :
    messages "\uFEFFdata: a\r\ndata:b\n\nid: 7\n\ndata\n\nevent: x\ndata: c\n\n".toList
      = [⟨"message".toList, "a\nb".toList, []⟩, ⟨"message".toList, [], "7".toList⟩,
        ⟨"x".toList, "c".toList, "7".toList⟩] := by decide +kernel

/-! ### What a buffer shows -/

/-- The value of a line that is a field of a name. An empty line and a comment are no field. -/
def valueOf (name : String) (line : Text) : Option Text :=
  if (field line).1 = name.toList then some (field line).2 else none

/-- Whether the first message of some lines is dispatched before another `event` field. `hasData`
says whether the data buffer holds something. -/
def showsType (hasData : Bool) : List Text → Bool
  | [] => false
  | line :: rest =>
    if line = [] then hasData
    else if (valueOf "event" line).isSome then false
    else showsType (hasData || (valueOf "data" line).isSome) rest

/-- Whether a message is dispatched before another `id` field that counts. -/
def showsId (hasData : Bool) : List Text → Bool
  | [] => false
  | line :: rest =>
    if line = [] then hasData || showsId false rest
    else if (valueOf "id" line).any fun value => '\x00' ∉ value then false
    else showsId (hasData || (valueOf "data" line).isSome) rest

/-- The field of a line with a colon. -/
theorem field_colon {name : Text} (h : ':' ∉ name) (value : Text) :
    field (name ++ ':' :: value)
      = (name, if value.head? = some ' ' then value.tail else value) := by
  have hall : ∀ c ∈ name, decide (c ≠ ':') = true :=
    fun c hc => decide_eq_true fun heq => h (heq ▸ hc)
  unfold field
  rw [List.takeWhile_append_of_pos hall, List.dropWhile_append_of_pos hall,
    List.takeWhile_cons_of_neg (by decide), List.dropWhile_cons_of_neg (by decide),
    List.append_nil]
  rfl

/-- A line without a colon is a field without a value. -/
theorem field_of_not_mem {line : Text} (h : ':' ∉ line) : field line = (line, []) := by
  have hall : ∀ c ∈ line, decide (c ≠ ':') = true :=
    fun c hc => decide_eq_true fun heq => h (heq ▸ hc)
  unfold field
  rw [List.takeWhile_eq_self_iff.mpr hall, List.dropWhile_eq_nil_iff.mpr hall]
  rfl

/-- The name in front of the colon of a comment, and of an empty line, is empty. -/
theorem field_name_eq_nil {line : Text} (h : line = [] ∨ line.head? = some ':') :
    (field line).1 = [] := by
  cases line with
  | nil => rfl
  | cons c rest =>
    rcases h with h | h
    · exact nomatch h
    · rw [List.head?_cons, Option.some.injEq] at h
      rw [h]
      rfl

/-- A line that is not empty takes its field. -/
theorem step_of_ne_nil {state : State} {line : Text} (h : line ≠ []) :
    state.step line = (none, state.takeField (field line).1 (field line).2) := by
  unfold State.step
  rw [if_neg h]
  by_cases hcomment : line.head? = some ':'
  · rw [if_pos hcomment, field_name_eq_nil (Or.inr hcomment)]
    rfl
  · rw [if_neg hcomment]

/-- The messages behind a line that is not empty. -/
theorem messagesFrom_cons_of_ne_nil {state : State} {line : Text} (h : line ≠ [])
    (rest : List Text) :
    messagesFrom state (line :: rest)
      = messagesFrom (state.takeField (field line).1 (field line).2) rest := by
  rw [messagesFrom, step_of_ne_nil h]
  rfl

/-- The messages behind an empty line. -/
theorem messagesFrom_cons_nil (state : State) (rest : List Text) :
    messagesFrom state ([] :: rest)
      = state.dispatch.toList ++ messagesFrom { state with data := [], eventType := [] } rest := rfl

/-- **Data in front of some lines is shown by the first empty one.** -/
theorem messagesFrom_data {pre : Text} (hpre : pre ≠ []) (state : State) (lines : List Text) :
    messagesFrom { state with data := pre ++ state.data } lines = messagesFrom state lines ↔
      [] ∉ lines := by
  -- By induction on the lines up to the first empty one, which dispatches.
  induction lines generalizing state with
  | nil => exact iff_of_true rfl List.not_mem_nil
  | cons line rest ih =>
    by_cases hline : line = []
    · -- The first message is longer, or there is one more.
      rw [hline, messagesFrom_cons_nil, messagesFrom_cons_nil]
      refine iff_of_false (fun h => ?_) (not_not.mpr List.mem_cons_self)
      have hfirst := List.append_cancel_right h
      unfold State.dispatch at hfirst
      dsimp only at hfirst
      -- The message has data now; it had none before, or it was shorter.
      rw [if_neg (List.append_ne_nil_of_left_ne_nil hpre _)] at hfirst
      by_cases hdata : state.data = []
      · rw [if_pos hdata] at hfirst
        exact nomatch hfirst
      · rw [if_neg hdata] at hfirst
        have hsame := congrArg Message.data (List.cons_eq_cons.mp hfirst).1
        dsimp only at hsame
        rw [List.getLast?_append_of_ne_nil _ hdata] at hsame
        have hlength := congrArg List.length hsame
        have hpos := List.length_pos_iff.mpr hpre
        split at hlength
        · rw [List.length_dropLast, List.length_dropLast, List.length_append] at hlength
          have hsome := List.length_pos_iff.mpr hdata
          omega
        · rw [List.length_append] at hlength
          omega
    -- A field leaves the data in front.
    · have hfield : ({ state with data := pre ++ state.data } : State).takeField
          (field line).1 (field line).2
          = { state.takeField (field line).1 (field line).2 with
              data := pre ++ (state.takeField (field line).1 (field line).2).data } := by
        unfold State.takeField
        split_ifs <;> simp [List.append_assoc]
      rw [messagesFrom_cons_of_ne_nil hline, messagesFrom_cons_of_ne_nil hline, hfield, ih,
        List.mem_cons, not_or, and_iff_right (Ne.symm hline)]

/-- A `data` field fills the data buffer, and no other field changes it. -/
theorem takeField_data_ne_nil (state : State) (line : Text) :
    decide ((state.takeField (field line).1 (field line).2).data ≠ [])
      = (decide (state.data ≠ []) || (valueOf "data" line).isSome) := by
  unfold valueOf State.takeField
  by_cases hdata : (field line).1 = "data".toList
  · rw [hdata, if_neg (by decide), if_pos rfl, if_pos rfl]
    simp
  · rw [if_neg hdata, if_neg hdata]
    split_ifs <;> simp

/-- **An event type in front of some lines is shown by the first message, unless an `event` field
comes before it.** -/
theorem messagesFrom_eventType (type type' : Text) (state : State) (lines : List Text) :
    messagesFrom { state with eventType := type } lines
        = messagesFrom { state with eventType := type' } lines ↔
      typeOf type = typeOf type' ∨ showsType (state.data ≠ []) lines = false := by
  -- By induction on the lines up to the first message, or the first `event` field.
  induction lines generalizing state with
  | nil => exact iff_of_true rfl (Or.inr rfl)
  | cons line rest ih =>
    by_cases hline : line = []
    · rw [hline, messagesFrom_cons_nil, messagesFrom_cons_nil, List.append_left_inj, showsType,
        if_pos rfl]
      unfold State.dispatch
      dsimp only
      -- Without data the empty line shows nothing and clears the type.
      by_cases hdata : state.data = []
      · rw [if_pos hdata, if_pos hdata]
        exact iff_of_true rfl (Or.inr (decide_eq_false (not_not.mpr hdata)))
      · rw [if_neg hdata, if_neg hdata, decide_eq_true hdata]
        simp
    · rw [messagesFrom_cons_of_ne_nil hline, messagesFrom_cons_of_ne_nil hline, showsType,
        if_neg hline]
      by_cases hevent : (field line).1 = "event".toList
      · have hvalue : (valueOf "event" line).isSome = true := by
          rw [valueOf, if_pos hevent]
          rfl
        rw [if_pos hvalue, State.takeField, State.takeField, if_pos hevent, if_pos hevent]
        exact iff_of_true rfl (Or.inr rfl)
      -- Every other field leaves the type.
      · have hvalue : ¬ (valueOf "event" line).isSome = true := by
          rw [valueOf, if_neg hevent]
          exact Bool.false_ne_true
        have hfield : ∀ other : Text, ({ state with eventType := other } : State).takeField
            (field line).1 (field line).2
            = { state.takeField (field line).1 (field line).2 with eventType := other } := by
          intro other
          unfold State.takeField
          rw [if_neg hevent, if_neg hevent]
          split_ifs <;> rfl
        rw [if_neg hvalue, hfield type, hfield type', ih, takeField_data_ne_nil]

/-- **A last event id in front of some lines is shown by the first message, unless an `id` field
that counts comes before it.** -/
theorem messagesFrom_lastId (id id' : Text) (state : State) (lines : List Text) :
    messagesFrom { state with lastId := id } lines
        = messagesFrom { state with lastId := id' } lines ↔
      id = id' ∨ showsId (state.data ≠ []) lines = false := by
  -- By induction on the lines; the last id goes on from one message to the next.
  induction lines generalizing state with
  | nil => exact iff_of_true rfl (Or.inr rfl)
  | cons line rest ih =>
    by_cases hline : line = []
    -- A message shows the id, and the rest shows it once more.
    · rw [hline, messagesFrom_cons_nil, messagesFrom_cons_nil, showsId, if_pos rfl]
      have hrest := ih { state with data := [], eventType := [] }
      dsimp only at hrest
      rw [decide_eq_false (not_not.mpr rfl)] at hrest
      unfold State.dispatch
      dsimp only
      by_cases hdata : state.data = []
      · rw [if_pos hdata, if_pos hdata, decide_eq_false (not_not.mpr hdata), Bool.false_or]
        exact hrest
      · rw [if_neg hdata, if_neg hdata, decide_eq_true hdata, Bool.true_or]
        simp only [Option.toList_some, List.cons_append, List.nil_append, List.cons.injEq,
          Message.mk.injEq, true_and, hrest, Bool.true_eq_false, or_false]
        exact ⟨fun h => h.1, fun h => ⟨h, Or.inl h⟩⟩
    · rw [messagesFrom_cons_of_ne_nil hline, messagesFrom_cons_of_ne_nil hline, showsId,
        if_neg hline]
      have hname : "id".toList ≠ "event".toList ∧ "id".toList ≠ "data".toList := by decide
      by_cases hid : ((valueOf "id" line).any fun value => '\x00' ∉ value) = true
      · rw [if_pos hid]
        unfold valueOf at hid
        by_cases hfield : (field line).1 = "id".toList
        · rw [if_pos hfield, Option.any_some, decide_eq_true_eq] at hid
          unfold State.takeField
          rw [hfield, if_neg hname.1, if_neg hname.2, if_pos rfl, if_neg hid, if_neg hname.1,
            if_neg hname.2, if_pos rfl, if_neg hid]
          exact iff_of_true rfl (Or.inr rfl)
        · rw [if_neg hfield] at hid
          exact absurd hid Bool.false_ne_true
      -- Every other line leaves the id.
      · have hfield : ∀ other : Text, ({ state with lastId := other } : State).takeField
            (field line).1 (field line).2
            = { state.takeField (field line).1 (field line).2 with lastId := other } := by
          intro other
          unfold valueOf at hid
          unfold State.takeField
          by_cases hfield : (field line).1 = "id".toList
          · rw [if_pos hfield, Option.any_some, decide_eq_true_eq, not_not] at hid
            rw [hfield, if_neg hname.1, if_neg hname.2, if_pos rfl, if_pos hid, if_neg hname.1,
              if_neg hname.2, if_pos rfl, if_pos hid]
          · rw [if_neg hfield, if_neg hfield]
            split_ifs <;> rfl
        rw [if_neg hid, hfield id, hfield id', ih, takeField_data_ne_nil]

/-- Whether the messages of some lines show the line in front of them. -/
def ShowsFirst (line : Text) (rest : List Text) : Prop :=
  (valueOf "data" line ≠ none ∧ [] ∈ rest) ∨
  (∃ type, valueOf "event" line = some type ∧ typeOf type ≠ typeOf [] ∧
    showsType false rest = true) ∨
  (∃ id, valueOf "id" line = some id ∧ '\x00' ∉ id ∧ id ≠ [] ∧ showsId false rest = true)

/-- The value of a field, by its name. -/
theorem valueOf_eq_some_iff {name : String} {line value : Text} :
    valueOf name line = some value ↔ (field line).1 = name.toList ∧ (field line).2 = value := by
  unfold valueOf
  by_cases h : (field line).1 = name.toList
  · rw [if_pos h, Option.some.injEq, and_iff_right h]
  · rw [if_neg h]
    exact iff_of_false (fun hnone => nomatch hnone) fun hboth => h hboth.1

/-- What a line shows, by the name of its field. -/
theorem showsFirst_iff (line : Text) (rest : List Text) :
    ShowsFirst line rest ↔
      ((field line).1 = "data".toList ∧ [] ∈ rest) ∨
      ((field line).1 = "event".toList ∧ typeOf (field line).2 ≠ typeOf [] ∧
        showsType false rest = true) ∨
      ((field line).1 = "id".toList ∧ '\x00' ∉ (field line).2 ∧ (field line).2 ≠ [] ∧
        showsId false rest = true) := by
  unfold ShowsFirst
  refine or_congr (and_congr_left fun _ => ?_) (or_congr ?_ ?_)
  · rw [Ne, Option.eq_none_iff_forall_ne_some, not_forall]
    constructor
    · rintro ⟨value, hvalue⟩
      exact (valueOf_eq_some_iff.mp (not_not.mp hvalue)).1
    · exact fun h => ⟨_, not_not.mpr (valueOf_eq_some_iff.mpr ⟨h, rfl⟩)⟩
  · constructor
    · rintro ⟨type, htype, hshows⟩
      obtain ⟨hname, rfl⟩ := valueOf_eq_some_iff.mp htype
      exact ⟨hname, hshows⟩
    · exact fun h => ⟨_, valueOf_eq_some_iff.mpr ⟨h.1, rfl⟩, h.2⟩
  · constructor
    · rintro ⟨id, hid, hshows⟩
      obtain ⟨hname, rfl⟩ := valueOf_eq_some_iff.mp hid
      exact ⟨hname, hshows⟩
    · exact fun h => ⟨_, valueOf_eq_some_iff.mpr ⟨h.1, rfl⟩, h.2⟩

/-- **A first line makes a difference exactly when the messages show it.** -/
theorem messagesFrom_cons_eq_iff (line : Text) (rest : List Text) :
    messagesFrom {} (line :: rest) = messagesFrom {} rest ↔ ¬ ShowsFirst line rest := by
  have hevent : "event".toList ≠ "data".toList ∧ "event".toList ≠ "id".toList := by decide
  have hid : "id".toList ≠ "data".toList := by decide
  rw [showsFirst_iff]
  -- An empty line changes nothing at the beginning.
  by_cases hline : line = []
  · rw [hline]
    have hname : (field []).1 = [] := rfl
    have hempty : "data".toList ≠ [] ∧ "event".toList ≠ [] ∧ "id".toList ≠ [] := by decide
    rw [hname]
    refine iff_of_true rfl ?_
    rintro (⟨h, -⟩ | ⟨h, -⟩ | ⟨h, -⟩)
    · exact hempty.1 h.symm
    · exact hempty.2.1 h.symm
    · exact hempty.2.2 h.symm
  rw [messagesFrom_cons_of_ne_nil hline]
  unfold State.takeField
  -- The three fields that the standard keeps, and the rest, which it drops.
  by_cases hname : (field line).1 = "event".toList
  · rw [if_pos hname, hname]
    have htype := messagesFrom_eventType (field line).2 [] {} rest
    simp only [hevent.1, hevent.2, false_and, or_false, false_or, true_and]
    rw [show ({ ({} : State) with eventType := [] } : State) = {} from rfl] at htype
    rw [htype, not_and_or, not_not, Bool.not_eq_true]
    rfl
  rw [if_neg hname]
  by_cases hname' : (field line).1 = "data".toList
  · rw [if_pos hname', hname']
    have hdata := messagesFrom_data (List.append_ne_nil_of_right_ne_nil (field line).2
      (List.cons_ne_nil '\n' [])) {} rest
    rw [show ({} : State).data = [] from rfl, List.append_nil] at hdata
    simp only [hevent.1.symm, hid.symm, false_and, or_false, true_and]
    rw [← hdata]
    rfl
  rw [if_neg hname']
  by_cases hname'' : (field line).1 = "id".toList
  · rw [if_pos hname'', hname'']
    simp only [hevent.2.symm, hid, false_and, false_or, true_and]
    by_cases hnul : '\x00' ∈ (field line).2
    · rw [if_pos hnul]
      exact iff_of_true rfl fun h => h.1 hnul
    · rw [if_neg hnul]
      have hlast := messagesFrom_lastId (field line).2 [] {} rest
      rw [show ({ ({} : State) with lastId := [] } : State) = {} from rfl] at hlast
      rw [hlast, and_iff_right hnul, not_and_or, not_not, Bool.not_eq_true]
      rfl
  · rw [if_neg hname'']
    refine iff_of_true rfl ?_
    rintro (⟨h, -⟩ | ⟨h, -⟩ | ⟨h, -⟩)
    · exact hname' h
    · exact hname h
    · exact hname'' h

end EventStream
