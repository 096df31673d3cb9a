import Gabriel.Proofs.Callback

/-!
# `Gabriel.Proofs.CallbackReads`: a callback that arrives in parts

`wait_for_code` reads a connection once and takes what arrived for the whole request. A request
line that is cut is a well-formed shorter line: the words that stand in it are the method and a
prefix of the target. This does not matter when the target has no `?`. Of any other target, the part
up to the `?` is a callback with another state, and a shorter part is no callback.

What a browser sends is a structure (`BrowserRequest`): a method, a target and a version of visible
characters, with blanks between them. The theorems:

* `requestTarget_prefix`: the target that is read from a part of the request is none, or a part of
  the target.
* `requestTarget_whole`: a read that ends behind the target has the target.
* `answerCallback_whole`: such a read decides as the whole request.
* `independentOfReads_iff`: for every request, the decision is independent of what the first read
  gives exactly when the target has no query.
-/

set_option autoImplicit false

namespace Gabriel.Engine

open Gabriel.Core Text

/-! ### What a browser sends -/

/-- A character that stands in a request line between its blanks. -/
def isVisible (c : Char) : Bool := 0x21 ≤ c.toNat && c.toNat < 0x7F

/-- A request as a browser sends it. -/
structure BrowserRequest where
  method : Text
  target : Text
  version : Text
  /-- The header lines and the body. -/
  rest : List UInt8
  method_ne : method ≠ []
  target_ne : target ≠ []
  version_ne : version ≠ []
  visible : ∀ c ∈ method ++ (target ++ version), isVisible c = true
  /-- The request line has at most 8192 bytes. -/
  short : (Utf8.encode (method ++ ' ' :: (target ++ ' ' :: version))).length ≤ 8192

namespace BrowserRequest

/-- The request line. -/
def line (request : BrowserRequest) : Text :=
  request.method ++ ' ' :: (request.target ++ ' ' :: request.version)

/-- The bytes of a request. -/
def bytes (request : BrowserRequest) : List UInt8 :=
  Utf8.encode request.line ++ 0x0D :: 0x0A :: request.rest

variable (request : BrowserRequest)

/-- A visible character is ASCII and no white space. -/
theorem visible_spec {c : Char} (h : isVisible c = true) :
    c.toNat < 0x80 ∧ isWhitespace c = false := by
  simp only [isVisible, Bool.and_eq_true, decide_eq_true_eq] at h
  refine ⟨by omega, ?_⟩
  simp only [isWhitespace, Bool.or_eq_false_iff, Bool.and_eq_false_iff, decide_eq_false_iff_not,
    beq_eq_false_iff_ne]
  omega

/-- The method is visible. -/
theorem method_visible : ∀ c ∈ request.method, isVisible c = true := fun c hc =>
  request.visible c (List.mem_append_left _ hc)

/-- So is the target. -/
theorem target_visible : ∀ c ∈ request.target, isVisible c = true := fun c hc =>
  request.visible c (List.mem_append_right _ (List.mem_append_left _ hc))

/-- So is the version. -/
theorem version_visible : ∀ c ∈ request.version, isVisible c = true := fun c hc =>
  request.visible c (List.mem_append_right _ (List.mem_append_right _ hc))

/-- A character of the request line is visible or a blank. -/
theorem mem_line {c : Char} (hc : c ∈ request.line) : isVisible c = true ∨ c = ' ' := by
  rcases List.mem_append.mp hc with hc | hc
  · exact Or.inl (request.method_visible c hc)
  · rcases List.mem_cons.mp hc with hc | hc
    · exact Or.inr hc
    · rcases List.mem_append.mp hc with hc | hc
      · exact Or.inl (request.target_visible c hc)
      · rcases List.mem_cons.mp hc with hc | hc
        · exact Or.inr hc
        · exact Or.inl (request.version_visible c hc)

/-- The request line is ASCII. -/
theorem line_ascii : ∀ c ∈ request.line, c.toNat < 0x80 := by
  intro c hc
  rcases request.mem_line hc with hc | rfl
  · exact (visible_spec hc).1
  · decide

/-- The request line has no line break. -/
theorem line_break : '\n' ∉ request.line := by
  intro hc
  rcases request.mem_line hc with hc | hc
  · exact absurd hc (by decide)
  · exact absurd hc (by decide)

/-! ### The target of a part -/

/-- The words of a visible text. -/
theorem splitWhitespace_visible {w : Text} (hne : w ≠ []) (h : ∀ c ∈ w, isVisible c = true) :
    splitWhitespace w = [w] :=
  splitWhitespace_word hne fun c hc => (visible_spec (h c hc)).2

/-- A part of a text in two pieces is a part of the first one, or the first one and a part of the
second. -/
theorem prefix_append_cases {α : Type*} {u a b : List α} (h : u <+: a ++ b) :
    u <+: a ∨ ∃ v, u = a ++ v ∧ v <+: b := by
  rcases List.prefix_or_prefix_of_prefix h (List.prefix_append a b) with hfront | ⟨v, rfl⟩
  · exact Or.inl hfront
  · exact Or.inr ⟨v, rfl, (List.prefix_append_right_inj a).mp h⟩

/-- The words of a part of a visible text: none or one. -/
theorem splitWhitespace_inside {w u : Text} (h : ∀ c ∈ w, isVisible c = true)
    (hu : u <+: w) : splitWhitespace u = if u = [] then [] else [u] := by
  by_cases hnil : u = []
  · rw [if_pos hnil, hnil]
    rfl
  · rw [if_neg hnil, splitWhitespace_visible hnil fun c hc => h c (hu.subset hc)]

/-- The first word of a part of a line that begins with a word. -/
theorem firstWord_prefix {w tail u : Text} (hne : w ≠ []) (h : ∀ c ∈ w, isVisible c = true)
    (hu : u <+: w ++ ' ' :: tail) :
    (∀ word ∈ (splitWhitespace u)[0]?, word <+: w) ∧
      (w <+: u → (splitWhitespace u)[0]? = some w) := by
  have hword := splitWhitespace_visible hne h
  -- The part ends within the word, or behind it.
  rcases prefix_append_cases hu with hfront | ⟨v, rfl, hv⟩
  · rw [splitWhitespace_inside h hfront]
    constructor
    · intro word hmem
      split at hmem
      · exact absurd hmem (by simp)
      · rwa [← Option.some.inj hmem]
    · intro hwhole
      obtain rfl := hfront.eq_of_length_le hwhole.length_le
      rw [if_neg hne]
      rfl
  · have hfirst : (splitWhitespace (w ++ v))[0]? = some w := by
      cases v with
      | nil =>
        rw [List.append_nil, hword]
        rfl
      | cons c v =>
        obtain ⟨rfl, -⟩ := List.cons_prefix_cons.mp hv
        rw [splitWhitespace_append (by decide), hword]
        rfl
    rw [hfirst]
    refine ⟨fun word hmem => ?_, fun _ => rfl⟩
    rw [← Option.some.inj hmem]

/-- The second word of a part of the request line is a part of the target, and it is the target
once the part ends behind it. -/
theorem secondWord_prefix {u : Text} (hu : u <+: request.line) :
    (∀ word ∈ (splitWhitespace u)[1]?, word <+: request.target) ∧
      (request.method ++ ' ' :: request.target <+: u →
        (splitWhitespace u)[1]? = some request.target) := by
  -- A text as short as the method is no longer than it.
  have hmethod := splitWhitespace_visible request.method_ne request.method_visible
  have hlonger : ∀ v : Text, v.length ≤ request.method.length →
      ¬ request.method ++ ' ' :: request.target <+: v := by
    intro v hv hwhole
    have hlen := hwhole.length_le
    rw [List.length_append, List.length_cons] at hlen
    omega
  -- The part ends within the method, at its end, or behind the blank.
  rcases prefix_append_cases hu with hfront | ⟨v, rfl, hv⟩
  · -- At most one word.
    have hnone : (splitWhitespace u)[1]? = none := by
      rw [splitWhitespace_inside request.method_visible hfront]
      split
      · rfl
      · rfl
    rw [hnone]
    refine ⟨fun word hmem => absurd hmem (by simp), fun hwhole => ?_⟩
    exact absurd hwhole (hlonger u hfront.length_le)
  · cases v with
    | nil =>
      rw [List.append_nil, hmethod]
      refine ⟨fun word hmem => absurd hmem (by simp), fun hwhole => ?_⟩
      exact absurd hwhole (hlonger _ (Nat.le_refl _))
    -- Behind the blank the second word is the first one of what follows.
    | cons c v =>
      obtain ⟨rfl, htail⟩ := List.cons_prefix_cons.mp hv
      have hsecond : (splitWhitespace (request.method ++ ' ' :: v))[1]?
          = (splitWhitespace v)[0]? := by
        rw [splitWhitespace_append (by decide), hmethod]
        rfl
      obtain ⟨hpart, hwhole⟩ := firstWord_prefix request.target_ne request.target_visible htail
      rw [hsecond]
      refine ⟨hpart, fun hprefix => hwhole ?_⟩
      exact (List.cons_prefix_cons.mp ((List.prefix_append_right_inj _).mp hprefix)).2

/-! ### The target of a read -/

/-- The first line of a read whose text begins with a line without a break. -/
theorem requestLine_append {u s : Text} (hu : u ≠ []) (hbreak : '\n' ∉ u)
    (hs : s = [] ∨ s = ['\r'] ∨ ∃ t, s = '\r' :: '\n' :: t) :
    ∃ line, requestLine (u ++ s) = some line ∧ splitWhitespace line = splitWhitespace u := by
  have hne : u ++ s ≠ [] := fun h => hu (List.append_eq_nil_iff.mp h).1
  unfold requestLine
  rw [if_neg hne]
  -- The break is not there yet, is there by half, or is there.
  rcases hs with rfl | rfl | ⟨t, rfl⟩
  · rw [List.append_nil, splitOnce_singleton_eq_none.mpr hbreak]
    exact ⟨u, rfl, rfl⟩
  · have hno : '\n' ∉ u ++ ['\r'] := by
      intro hmem
      rcases List.mem_append.mp hmem with hmem | hmem
      · exact hbreak hmem
      · exact absurd hmem (by decide)
    rw [splitOnce_singleton_eq_none.mpr hno]
    refine ⟨_, rfl, ?_⟩
    rw [splitWhitespace_append (by decide)]
    exact List.append_nil _
  -- The line is cut at the newline, and the CR before it is dropped.
  · have hcut : splitOnce ['\n'] (u ++ '\r' :: '\n' :: t) = some (u ++ ['\r'], t) := by
      refine splitOnce_singleton_iff.mpr ⟨by simp, fun hmem => ?_⟩
      rcases List.mem_append.mp hmem with hmem | hmem
      · exact hbreak hmem
      · exact absurd hmem (by decide)
    rw [hcut]
    refine ⟨u, ?_, rfl⟩
    dsimp only
    rw [List.getLast?_concat, if_pos rfl, List.dropLast_concat]

/-- The text of a first read: a part of the request line, or all of it and what follows. -/
theorem decodeLossy_read {first : List UInt8} (h : first <+: request.bytes) :
    (∃ u, u <+: request.line ∧ first = Utf8.encode u ∧
      Utf8.decodeLossy (first.take 8192) = u) ∨
    ∃ s, (s = [] ∨ s = ['\r'] ∨ ∃ t, s = '\r' :: '\n' :: t) ∧
      Utf8.encode request.line <+: first ∧
      Utf8.decodeLossy (first.take 8192) = request.line ++ s := by
  have hshort : (Utf8.encode request.line).length ≤ 8192 := request.short
  -- The read ends within the request line, whose characters are one byte each, or behind it.
  rcases prefix_append_cases h with hfront | ⟨v, rfl, hv⟩
  · left
    have hbytes := Utf8.encode_of_lt request.line_ascii
    obtain ⟨u, hu, hfirst⟩ : ∃ u, u <+: request.line ∧ first = Utf8.encode u := by
      refine ⟨request.line.take first.length, List.take_prefix _ _, ?_⟩
      rw [Utf8.encode_of_lt fun c hc => request.line_ascii c (List.mem_of_mem_take hc),
        List.map_take, ← hbytes]
      exact List.prefix_iff_eq_take.mp hfront
    refine ⟨u, hu, hfirst, ?_⟩
    rw [List.take_of_length_le (hfront.length_le.trans hshort), hfirst, Utf8.decodeLossy_encode]
  · right
    have htake : (Utf8.encode request.line ++ v).take 8192
        = Utf8.encode request.line ++ v.take (8192 - (Utf8.encode request.line).length) := by
      rw [List.take_append, List.take_of_length_le hshort]
    have hrest := (List.take_prefix (8192 - (Utf8.encode request.line).length) v).trans hv
    refine ⟨Utf8.decodeLossy (v.take (8192 - (Utf8.encode request.line).length)), ?_,
      List.prefix_append _ _, by rw [htake, Utf8.decodeLossy_encode_append]⟩
    generalize v.take (8192 - (Utf8.encode request.line).length) = w at hrest
    -- What follows begins with CR LF, which may be cut off as well.
    cases w with
    | nil => exact Or.inl rfl
    | cons a w =>
      obtain ⟨rfl, hw⟩ := List.cons_prefix_cons.mp hrest
      cases w with
      | nil => exact Or.inr (Or.inl (by decide))
      | cons b w =>
        obtain ⟨rfl, -⟩ := List.cons_prefix_cons.mp hw
        exact Or.inr (Or.inr ⟨_, Utf8.decodeLossy_encode_append ['\r', '\n'] w⟩)

/-- The target of a read is the second word of a part of the request line, which holds what the
read holds of it. -/
theorem requestTarget_read {first : List UInt8} (hne : first ≠ []) (h : first <+: request.bytes) :
    ∃ u, u <+: request.line ∧ requestTarget first = ((splitWhitespace u)[1]?).getD ['/'] ∧
      ∀ part, part <+: request.line → Utf8.encode part <+: first → part <+: u := by
  have hword : ∀ u s, u ≠ [] → u <+: request.line →
      (s = [] ∨ s = ['\r'] ∨ ∃ t, s = '\r' :: '\n' :: t) →
      Utf8.decodeLossy (first.take 8192) = u ++ s →
      requestTarget first = ((splitWhitespace u)[1]?).getD ['/'] := by
    intro u s hu hpart hs htext
    have hbreak : '\n' ∉ u := fun hmem => request.line_break (hpart.subset hmem)
    obtain ⟨line, hline, hwords⟩ := requestLine_append hu hbreak hs
    rw [requestTarget, htext, hline, Option.bind_some, hwords]
  rcases request.decodeLossy_read h with ⟨u, hu, rfl, htext⟩ | ⟨s, hs, -, htext⟩
  · have hnil : u ≠ [] := fun hnil => hne (by rw [hnil]; rfl)
    refine ⟨u, hu, hword u [] hnil hu (Or.inl rfl) (by rw [htext, List.append_nil]), ?_⟩
    intro part _ hpart
    obtain ⟨x, hx⟩ := hpart
    have hdecoded := congrArg Utf8.decodeLossy hx
    rw [Utf8.decodeLossy_encode_append, Utf8.decodeLossy_encode] at hdecoded
    exact ⟨_, hdecoded⟩
  · have hnil : request.line ≠ [] := by
      intro hnil
      exact request.method_ne (List.append_eq_nil_iff.mp hnil).1
    exact ⟨request.line, List.prefix_rfl, hword _ s hnil List.prefix_rfl hs htext,
      fun part hpart _ => hpart⟩

/-- The target that is read from a part of the request is none or a part of the target. -/
theorem requestTarget_prefix {first : List UInt8} (hne : first ≠ [])
    (h : first <+: request.bytes) :
    requestTarget first = ['/'] ∨ requestTarget first <+: request.target := by
  obtain ⟨u, hu, htarget, -⟩ := request.requestTarget_read hne h
  rw [htarget]
  cases hword : (splitWhitespace u)[1]? with
  | none => exact Or.inl rfl
  | some word => exact Or.inr ((request.secondWord_prefix hu).1 word hword)

/-- A read that ends behind the target has the target. -/
theorem requestTarget_whole {first : List UInt8} (h : first <+: request.bytes)
    (hwhole : Utf8.encode (request.method ++ ' ' :: request.target) <+: first) :
    requestTarget first = request.target := by
  have hne : first ≠ [] := by
    rintro rfl
    have hnil := Utf8.encode_injective ((List.prefix_nil.mp hwhole).trans Utf8.encode_nil.symm)
    exact request.method_ne (List.append_eq_nil_iff.mp hnil).1
  have hpart : request.method ++ ' ' :: request.target <+: request.line :=
    ⟨' ' :: request.version, by simp [line]⟩
  obtain ⟨u, hu, htarget, hholds⟩ := request.requestTarget_read hne h
  rw [htarget, (request.secondWord_prefix hu).2 (hholds _ hpart hwhole)]
  rfl

/-- **A first read that ends behind the target decides as the whole request.** -/
theorem answerCallback_whole (expectedState : Text) {first : List UInt8}
    (h : first <+: request.bytes)
    (hwhole : Utf8.encode (request.method ++ ' ' :: request.target) <+: first) :
    answerCallback expectedState first = answerCallback expectedState request.bytes := by
  have hbytes := request.requestTarget_whole List.prefix_rfl (hwhole.trans h)
  have hquery : requestQuery first = requestQuery request.bytes := by
    rw [requestQuery, requestQuery, hbytes, request.requestTarget_whole h hwhole]
  unfold answerCallback
  rw [hquery]

/-! ### The decision -/

/-- The wait ends the same way whatever the first read of a request gives, and whatever comes
after it. -/
def IndependentOfReads (expectedState : Text) : Prop :=
  ∀ first, first ≠ [] → first <+: request.bytes → ∀ after,
    (waitForCode expectedState (.ok first :: after)).result
      = (waitForCode expectedState (.ok request.bytes :: after)).result

/-- A read whose target has no `?` is not the callback. -/
theorem waitForCode_noQuery {expectedState : Text} {first : List UInt8}
    (h : '?' ∉ requestTarget first) (after : List (Except Text (List UInt8))) :
    waitForCode expectedState (.ok first :: after) = waitForCode expectedState after := by
  have hnone : requestQuery first = none := by
    rw [requestQuery, splitOnce_singleton_eq_none.mpr h]
    rfl
  rw [waitForCode, answerCallback_noQuery hnone]

/-- A part of the request line is a part of the request, and its target is its second word. -/
theorem requestTarget_encode {u : Text} (hne : u ≠ []) (hu : u <+: request.line) :
    Utf8.encode u <+: request.bytes ∧
      requestTarget (Utf8.encode u) = ((splitWhitespace u)[1]?).getD ['/'] := by
  obtain ⟨v, hv⟩ := hu
  have hline : Utf8.encode u <+: Utf8.encode request.line := by
    rw [← hv, Utf8.encode_append]
    exact List.prefix_append _ _
  have hshort : (Utf8.encode u).length ≤ 8192 := hline.length_le.trans request.short
  have hbreak : '\n' ∉ u := fun hmem => request.line_break (hv ▸ List.mem_append_left _ hmem)
  obtain ⟨line, hread, hwords⟩ := requestLine_append hne hbreak (Or.inl rfl)
  rw [List.append_nil] at hread
  refine ⟨hline.trans (List.prefix_append _ _), ?_⟩
  rw [requestTarget, List.take_of_length_le hshort, Utf8.decodeLossy_encode, hread,
    Option.bind_some, hwords]

/-- A read that ends at the first `?` of the target is a callback without a state. -/
theorem waitForCode_mark (expectedState : Text) {a b : Text}
    (htarget : request.target = a ++ '?' :: b) (ha : '?' ∉ a)
    (after : List (Except Text (List UInt8))) :
    ∃ first, first ≠ [] ∧ first <+: request.bytes ∧
      (waitForCode expectedState (.ok first :: after)).result
        = some (.error (.auth
          "the callback's state did not match — the response was discarded".toList)) := by
  -- The read ends with the `?`, so that the target is its path with an empty query.
  have hmethod := splitWhitespace_visible request.method_ne request.method_visible
  have hpart : a ++ ['?'] <+: request.target := ⟨b, by rw [htarget]; simp⟩
  have hu : request.method ++ ' ' :: (a ++ ['?']) <+: request.line := by
    refine (List.prefix_append_right_inj _).mpr (List.cons_prefix_cons.mpr ⟨rfl, ?_⟩)
    exact hpart.trans (List.prefix_append _ _)
  have hne : request.method ++ ' ' :: (a ++ ['?']) ≠ [] := fun hnil =>
    request.method_ne (List.append_eq_nil_iff.mp hnil).1
  have hwords : (splitWhitespace (request.method ++ ' ' :: (a ++ ['?'])))[1]?
      = some (a ++ ['?']) := by
    rw [splitWhitespace_append (by decide), hmethod,
      splitWhitespace_inside request.target_visible hpart, if_neg (by simp)]
    rfl
  obtain ⟨hbytes, hread⟩ := request.requestTarget_encode hne hu
  rw [hwords, Option.getD_some] at hread
  -- The query is there and empty: it has no parameter, in particular no state.
  have hquery : requestQuery (Utf8.encode (request.method ++ ' ' :: (a ++ ['?']))) = some [] := by
    rw [requestQuery, hread, splitOnce_singleton_iff.mpr ⟨rfl, ha⟩]
    rfl
  have hreadable : ReadableRequest (Utf8.encode (request.method ++ ' ' :: (a ++ ['?']))) := by
    intro query hmem pair hpair
    rw [hquery] at hmem
    rw [← Option.some.inj hmem] at hpair
    exact absurd hpair List.not_mem_nil
  have hparam : ∀ name,
      param (Utf8.encode (request.method ++ ' ' :: (a ++ ['?']))) name = none := by
    intro name
    rw [param, hquery]
    rfl
  have hstate : param (Utf8.encode (request.method ++ ' ' :: (a ++ ['?']))) "state"
      ≠ some expectedState := by
    rw [hparam]
    exact (Option.some_ne_none _).symm
  refine ⟨_, fun hnil => hne (Utf8.encode_injective hnil), hbytes, ?_⟩
  rw [waitForCode, answerCallback_mismatch hquery hreadable (hparam "error") hstate]

/-- **The decision does not depend on the packets exactly when the target has no query.** -/
theorem independentOfReads_iff (expectedState : Text) :
    request.IndependentOfReads expectedState ↔ '?' ∉ request.target := by
  constructor
  · intro h hmark
    obtain ⟨a, b, htarget, ha⟩ := List.eq_append_cons_of_mem hmark
    obtain ⟨first, hne, hfirst, hresult⟩ :=
      request.waitForCode_mark expectedState htarget ha []
    -- The first byte alone is no callback, and the wait goes on.
    obtain ⟨c, method, hc⟩ := List.exists_cons_of_ne_nil request.method_ne
    have hone : [c] <+: request.line := by
      rw [line, hc]
      exact ⟨_, rfl⟩
    obtain ⟨hbytes, hroot⟩ := request.requestTarget_encode (List.cons_ne_nil c []) hone
    have hvisible : isVisible c = true := request.method_visible c (hc ▸ List.mem_cons_self)
    rw [splitWhitespace_visible (List.cons_ne_nil c [])
      fun d hd => List.mem_singleton.mp hd ▸ hvisible] at hroot
    have hno : '?' ∉ requestTarget (Utf8.encode [c]) := by
      rw [hroot]
      show '?' ∉ ['/']
      decide
    have hwait := h _ (fun hnil => List.cons_ne_nil c [] (Utf8.encode_injective hnil)) hbytes []
    rw [waitForCode_noQuery hno, ← h first hne hfirst [], hresult] at hwait
    exact absurd hwait (by simp [waitForCode])
  · intro hmark first hne hfirst after
    have hno : ∀ read, read ≠ [] → read <+: request.bytes → '?' ∉ requestTarget read := by
      intro read hread hpart hmem
      rcases request.requestTarget_prefix hread hpart with hroot | hprefix
      · rw [hroot] at hmem
        exact absurd hmem (by decide)
      · exact hmark (List.IsPrefix.subset hprefix hmem)
    have hbytes : request.bytes ≠ [] := fun hnil => hne (List.prefix_nil.mp (hnil ▸ hfirst))
    rw [waitForCode_noQuery (hno first hne hfirst),
      waitForCode_noQuery (hno _ hbytes List.prefix_rfl)]

/-- A callback with the right state and a code. -/
def callbackRequest : BrowserRequest where
  method := "GET".toList
  target := "/callback?state=s1&code=abcd".toList
  version := "HTTP/1.1".toList
  rest := Utf8.encode "Host: 127.0.0.1\r\n\r\n".toList
  method_ne := List.cons_ne_nil _ _
  target_ne := List.cons_ne_nil _ _
  version_ne := List.cons_ne_nil _ _
  visible := forall_mem_of_all (by decide)
  short := by decide +kernel

/-- A part of its bytes that ends inside the code. -/
def callbackPart : List UInt8 := Utf8.encode "GET /callback?state=s1&code=ab".toList

/-- A first read that ends inside the code gives a shorter code. -/
theorem not_independentOfReads_code : ¬ callbackRequest.IndependentOfReads "s1".toList := by
  intro h
  have hne : callbackPart ≠ [] := by decide +kernel
  have hpart : callbackPart <+: callbackRequest.bytes := by decide +kernel
  have hsame := h callbackPart hne hpart []
  have hshort : (waitForCode "s1".toList [.ok callbackPart]).result = some (.ok "ab".toList) := by
    decide +kernel
  have hlong : (waitForCode "s1".toList [.ok callbackRequest.bytes]).result
      = some (.ok "abcd".toList) := by
    decide +kernel
  rw [hshort, hlong] at hsame
  exact absurd hsame (by decide)

end BrowserRequest

end Gabriel.Engine
