import Gabriel.Proofs.Store

/-!
# `Gabriel.Proofs.TornLog`: a log with a torn append

Whole appends put whole lines at the end of the file, and a whole line is one capture of the
listing. A torn append leaves the head of a line, and the next append goes on behind it, on the same
line. So with a head that is not empty, the line of the next append is lost.

Of the JSON encoder and decoder only `LineFormat` is used: the decoder reads what the encoder
writes, a line has no newline, and the head of a line is no capture, alone or with a line behind it.
The theorems:

* `newestFirst_lines`: whole lines read as their captures.
* `newestFirst_torn`: what the reader makes of the head of a line with whole lines behind it.
* `content_runLog`: whole appends put whole lines at the end of the file, over any events.
* `file_tornRun`: the file after a run, an append that fails after `n` bytes, and a run after it.
* `listsAppended_iff`: the listing has every capture whose append succeeded exactly when the torn
  append left nothing, or nothing was appended after it.
-/

set_option autoImplicit false

namespace Gabriel.Proxy

open Gabriel.Core Text Visit

namespace CaptureStore

/-! ### Whole lines -/

section Lines

variable {parse : List UInt8 → Option Capture} {render : Capture → List UInt8}

/-- What the log needs of the encoder and the decoder, for the captures of a list: the decoder
reads what the encoder wrote, which has no newline; the head of such a text is not a capture, and
neither is one with a whole text behind it. -/
structure LineFormat (parse : List UInt8 → Option Capture) (render : Capture → List UInt8)
    (captures : List Capture) : Prop where
  round : ∀ c ∈ captures, parse (render c) = some c
  line : ∀ c ∈ captures, newline ∉ render c
  text : ∀ c ∈ captures, render c ≠ []
  head : ∀ c ∈ captures, ∀ n < (render c).length, 0 < n → parse ((render c).take n) = none
  joined : ∀ c ∈ captures, ∀ a ∈ captures, ∀ n ≤ (render c).length, 0 < n →
    parse ((render c).take n ++ render a) = none

/-- The first line of a log is its oldest capture. -/
theorem newestFirst_cons {l : List UInt8} (h : newline ∉ l) (rest : List UInt8) :
    newestFirst parse (l ++ newline :: rest)
      = newestFirst parse rest ++ (parseLine parse l).toList := by
  unfold newestFirst
  rw [List.splitOn_append_cons_self, List.splitOn_eq_singleton h, List.filterMap_append,
    List.reverse_append]
  cases hline : parseLine parse l with
  | none => rw [List.filterMap_cons_none hline]; rfl
  | some c => rw [List.filterMap_cons_some hline]; rfl

/-- A log without a newline is one line. -/
theorem newestFirst_line {l : List UInt8} (h : newline ∉ l) :
    newestFirst parse l = (parseLine parse l).toList := by
  unfold newestFirst
  rw [List.splitOn_eq_singleton h]
  cases hline : parseLine parse l with
  | none => rw [List.filterMap_cons_none hline]; rfl
  | some c => rw [List.filterMap_cons_some hline]; rfl

/-- A whole line reads as its capture. -/
theorem parseLine_render {captures : List Capture} (hformat : LineFormat parse render captures)
    {c : Capture} (hc : c ∈ captures) : parseLine parse (render c) = some c := by
  unfold parseLine
  rw [if_neg (hformat.text c hc)]
  exact hformat.round c hc

/-- Whole lines read as their captures. -/
theorem newestFirst_lines {captures : List Capture} (hformat : LineFormat parse render captures)
    {cs : List Capture} (hcs : ∀ c ∈ cs, c ∈ captures) (rest : List UInt8) :
    newestFirst parse (cs.flatMap (lineBytes render) ++ rest)
      = newestFirst parse rest ++ cs.reverse := by
  induction cs with
  | nil => rw [List.flatMap_nil, List.nil_append, List.reverse_nil, List.append_nil]
  | cons c cs ih =>
    have hc := hcs c List.mem_cons_self
    have hbytes : (c :: cs).flatMap (lineBytes render) ++ rest
        = render c ++ newline :: (cs.flatMap (lineBytes render) ++ rest) := by
      simp [lineBytes]
    rw [hbytes, newestFirst_cons (hformat.line c hc),
      ih fun c' hc' => hcs c' (List.mem_cons_of_mem c hc'), parseLine_render hformat hc,
      List.reverse_cons, List.append_assoc]
    rfl

/-- What the reader makes of the head of a line with whole lines behind it: the head and the first
of these lines are one line. -/
theorem newestFirst_torn {captures : List Capture} (hformat : LineFormat parse render captures)
    {torn : Capture} (htorn : torn ∈ captures) {n : Nat} (hn : n ≤ (render torn).length)
    {cs : List Capture} (hcs : ∀ c ∈ cs, c ∈ captures) :
    newestFirst parse ((render torn).take n ++ cs.flatMap (lineBytes render))
      = match cs with
        | [] => if n = (render torn).length then [torn] else []
        | c :: later => later.reverse ++ if n = 0 then [c] else [] := by
  have hhead : newline ∉ (render torn).take n :=
    fun hmem => hformat.line torn htorn (List.mem_of_mem_take hmem)
  cases cs with
  | nil =>
    rw [List.flatMap_nil, List.append_nil, newestFirst_line hhead]
    by_cases hwhole : n = (render torn).length
    · rw [if_pos hwhole, hwhole, List.take_length, parseLine_render hformat htorn]
      rfl
    · rw [if_neg hwhole]
      unfold parseLine
      by_cases hzero : n = 0
      · rw [hzero, List.take_zero, if_pos rfl]
        rfl
      · rw [hformat.head torn htorn n (by omega) (by omega), ite_self]
        rfl
  | cons c later =>
    have hc := hcs c List.mem_cons_self
    have hbytes : (render torn).take n ++ (c :: later).flatMap (lineBytes render)
        = ((render torn).take n ++ render c)
          ++ newline :: (later.flatMap (lineBytes render) ++ []) := by
      simp [lineBytes]
    have hline : newline ∉ (render torn).take n ++ render c := by
      rw [List.mem_append, not_or]
      exact ⟨hhead, hformat.line c hc⟩
    have hnil : newestFirst parse [] = [] := newestFirst_line List.not_mem_nil
    rw [hbytes, newestFirst_cons hline,
      newestFirst_lines hformat fun c' hc' => hcs c' (List.mem_cons_of_mem c hc'), hnil,
      List.nil_append]
    dsimp only
    congr 1
    by_cases hzero : n = 0
    · rw [if_pos hzero, hzero, List.take_zero, List.nil_append, parseLine_render hformat hc]
      rfl
    · -- The decoder refuses the head with a whole text behind it.
      unfold parseLine
      rw [if_neg hzero, hformat.joined torn htorn c hc n hn (by omega), ite_self]
      rfl

end Lines

/-! ### A run with a torn append -/

/-- What happens to a log without a failure. -/
inductive LogEvent where
  | append (capture : Capture)
  /-- Another store takes over the file. -/
  | reopen

/-- The captures that were appended. -/
def appended (events : List LogEvent) : List Capture :=
  events.filterMap fun event =>
    match event with
    | .append capture => some capture
    | .reopen => none

/-- The bytes of the file. -/
def Log.content (log : Log) : List UInt8 := log.file.getD []

section Run

variable (render : Capture → List UInt8)

/-- The log after an event. -/
def Log.step (log : Log) : LogEvent → Log
  | .append capture => append render log capture
  | .reopen => log.reopened

/-- The log after a list of events. -/
def runLog (log : Log) (events : List LogEvent) : Log := events.foldl (Log.step render) log

/-- The log after a run from a new store, an append that fails after `n` bytes, and a run after
it. -/
def tornRun (before : List LogEvent) (torn : Capture) (n : Nat) (after : List LogEvent) : Log :=
  runLog render (tearAppend render (runLog render .new before) torn n) after

/-- An open file takes bytes at its end. -/
theorem file_opened_write (log : Log) (bytes : List UInt8) :
    (log.opened.write bytes).file = some (log.content ++ bytes) := by
  unfold Log.opened Log.content
  by_cases hopen : log.isOpen = true
  · obtain ⟨content, hcontent⟩ := Option.isSome_iff_exists.mp (log.exists_of_open hopen)
    rw [if_pos hopen]
    show log.file.map (· ++ bytes) = _
    rw [hcontent]
    rfl
  · rw [if_neg hopen]
    rfl

/-- Whole appends put whole lines at the end of the file. -/
theorem content_runLog (log : Log) (events : List LogEvent) :
    (runLog render log events).content
      = log.content ++ (appended events).flatMap (lineBytes render) := by
  induction events generalizing log with
  | nil => exact (List.append_nil _).symm
  | cons event events ih =>
    show (runLog render (log.step render event) events).content = _
    rw [ih]
    cases event with
    | append capture =>
      have hfile : (log.step render (.append capture)).content
          = log.content ++ lineBytes render capture :=
        congrArg (Option.getD · []) (file_opened_write log (lineBytes render capture))
      rw [hfile, List.append_assoc]
      rfl
    | reopen => rfl

/-- A file that exists is there after any events. -/
theorem isSome_runLog {log : Log} (h : log.file.isSome = true) (events : List LogEvent) :
    (runLog render log events).file.isSome = true := by
  induction events generalizing log with
  | nil => exact h
  | cons event events ih =>
    have hstep : (log.step render event).file.isSome = true := by
      cases event with
      | append capture =>
        show (log.opened.write (lineBytes render capture)).file.isSome = true
        rw [file_opened_write]
        rfl
      | reopen => exact h
    exact ih hstep

/-- The file after a run with a torn append. -/
theorem file_tornRun (before : List LogEvent) (torn : Capture) (n : Nat) (after : List LogEvent) :
    (tornRun render before torn n after).file
      = some ((appended before).flatMap (lineBytes render) ++ ((lineBytes render torn).take n
        ++ (appended after).flatMap (lineBytes render))) := by
  have htear := file_opened_write (runLog render .new before) ((lineBytes render torn).take n)
  have hsome : (tearAppend render (runLog render .new before) torn n).file.isSome = true := by
    show (Log.write _ _).file.isSome = true
    rw [htear]
    rfl
  obtain ⟨content, hcontent⟩ := Option.isSome_iff_exists.mp (isSome_runLog render hsome after)
  have hbytes : (tornRun render before torn n after).content = content :=
    congrArg (Option.getD · []) hcontent
  have htorn : (tearAppend render (runLog render .new before) torn n).content
      = (runLog render .new before).content ++ (lineBytes render torn).take n :=
    congrArg (Option.getD · []) htear
  rw [tornRun, content_runLog, htorn, content_runLog] at hbytes
  show (runLog render _ after).file = _
  rw [hcontent, ← hbytes, List.append_assoc, List.append_assoc]
  rfl

end Run

/-! ### The listing -/

section Listing

variable (parse : List UInt8 → Option Capture) (render : Capture → List UInt8)

/-- A listing without a filter and with room for everything returns every capture whose append
succeeded, once, newest first, and nothing else but, at most, the torn one in its place. -/
def ListsAppended (before : List LogEvent) (torn : Capture) (n : Nat) (after : List LogEvent) :
    Prop :=
  ∀ limit, (appended before).length + (appended after).length < limit →
    ∃ extra, (extra = [] ∨ extra = [torn]) ∧
      list parse (tornRun render before torn n after).file {} limit
        = (appended after).reverse ++ extra ++ (appended before).reverse

variable {parse render}

/-- **A torn append costs its own record only when nothing is appended after it.** For every log of
whole lines, every append that fails after any number of its bytes, and every run after it: the
listing returns every capture whose append succeeded if and only if the failed append wrote
nothing, or nothing was appended later. -/
theorem listsAppended_iff (parse : List UInt8 → Option Capture) (render : Capture → List UInt8)
    (before after : List LogEvent) (torn : Capture) (n : Nat)
    (hn : n < (lineBytes render torn).length)
    (hformat : LineFormat parse render (appended before ++ torn :: appended after)) :
    ListsAppended parse render before torn n after ↔ n = 0 ∨ appended after = [] := by
  have hle : n ≤ (render torn).length := by
    unfold lineBytes at hn
    rw [List.length_append, List.length_singleton] at hn
    omega
  have htake : (lineBytes render torn).take n = (render torn).take n :=
    List.take_append_of_le_length hle
  have htorn : torn ∈ appended before ++ torn :: appended after :=
    List.mem_append_right _ List.mem_cons_self
  have hread := newestFirst_torn hformat htorn hle fun c hc =>
    List.mem_append_right _ (List.mem_cons_of_mem torn hc)
  have hlist : ∀ limit, list parse (tornRun render before torn n after).file {} limit
      = (newestFirst parse ((render torn).take n
          ++ (appended after).flatMap (lineBytes render)) ++ (appended before).reverse).take
        limit := by
    intro limit
    rw [file_tornRun, htake, list_empty_filter, newestFirst_lines hformat
      fun c hc => List.mem_append_left _ hc]
  unfold ListsAppended
  simp only [hlist, hread]
  cases hafter : appended after with
  | nil =>
    refine iff_of_true ?_ (Or.inr rfl)
    intro limit hlimit
    refine ⟨if n = (render torn).length then [torn] else [], ?_, ?_⟩
    · split
      · exact Or.inr rfl
      · exact Or.inl rfl
    · dsimp only
      rw [List.reverse_nil, List.nil_append, List.take_of_length_le]
      rw [List.length_append, List.length_reverse]
      rw [List.length_nil] at hlimit
      split
      · rw [List.length_singleton]
        omega
      · rw [List.length_nil]
        omega
  | cons c later =>
    by_cases hzero : n = 0
    · refine iff_of_true ?_ (Or.inl hzero)
      intro limit hlimit
      refine ⟨[], Or.inl rfl, ?_⟩
      dsimp only
      rw [if_pos hzero, List.append_nil, List.reverse_cons, List.take_of_length_le]
      simp only [List.length_append, List.length_reverse, List.length_singleton]
      rw [List.length_cons] at hlimit
      omega
    · refine iff_of_false ?_ (by simp [hzero])
      intro hlists
      -- The first capture after the tear is missing, so the listing is too short.
      obtain ⟨extra, -, heq⟩ := hlists _ (Nat.lt_succ_self _)
      dsimp only at heq
      rw [if_neg hzero] at heq
      have hlength := congrArg List.length heq
      simp only [List.length_take, List.length_append, List.length_reverse, List.length_cons,
        List.length_nil] at hlength
      omega

/-- A capture of a page without a response. -/
def pageCapture (id : Text) : Capture where
  id := id
  atMs := 0
  durationMs := 0
  session := none
  page := none
  request :=
    { method := "GET".toList, url := "https://api.test/".toList, httpVersion := [],
      headers := .empty, body := none }
  response := none

/-- The line of such a capture. -/
def pageLine (capture : Capture) : List UInt8 :=
  Utf8.encode ("\x7b\"id\":\"".toList ++ capture.id
    ++ "\",\"at\":0,\"duration_ms\":0,\"request\":\x7b\"method\":\"GET\",".toList
    ++ "\"url\":\"https://api.test/\",\"headers\":\x7b\x7d\x7d\x7d".toList)

/-- Three such captures. -/
def pageCaptures : List Capture := ["a".toList, "b".toList, "c".toList].map pageCapture

/-- A decoder of their lines. -/
def pageParse (line : List UInt8) : Option Capture := pageCaptures.find? fun c => pageLine c = line

/-- Their lines have one length. -/
theorem length_pageLine : ∀ c ∈ pageCaptures, (pageLine c).length = 99 := by decide +kernel

/-- The decoder refuses a part of a line, and more than one. -/
theorem pageParse_eq_none {line : List UInt8} (h : line.length ≠ 99) :
    pageParse line = none := by
  refine List.find?_eq_none.mpr ?_
  intro c hc hline
  rw [← of_decide_eq_true hline] at h
  exact h (length_pageLine c hc)

/-- The lines have the format of the log. -/
theorem pageParse_format : LineFormat pageParse pageLine pageCaptures where
  round := by decide +kernel
  line := by decide +kernel
  text := by decide +kernel
  head c hc n hn _ := by
    refine pageParse_eq_none ?_
    rw [List.length_take]
    have hc' := length_pageLine c hc
    omega
  joined c hc a ha n hn hpos := by
    refine pageParse_eq_none ?_
    rw [List.length_append, List.length_take, length_pageLine c hc, length_pageLine a ha]
    have hc' := length_pageLine c hc
    omega

/-- A write that was interrupted in the middle of the last line. -/
theorem listsAppended_iff_last :
    ListsAppended pageParse pageLine [.append (pageCapture "a".toList), .reopen,
      .append (pageCapture "b".toList)] (pageCapture "c".toList) 20 [] :=
  (listsAppended_iff pageParse pageLine [.append (pageCapture "a".toList), .reopen,
    .append (pageCapture "b".toList)] [] (pageCapture "c".toList) 20 (by decide +kernel)
    pageParse_format).mpr (Or.inr rfl)

/-- After a write that was interrupted after one byte, the next capture is lost. -/
theorem not_listsAppended_next :
    ¬ ListsAppended pageParse pageLine [.append (pageCapture "a".toList)]
      (pageCapture "b".toList) 1 [.append (pageCapture "c".toList)] := by
  intro hlists
  obtain ⟨extra, -, heq⟩ := hlists 3 (by decide)
  rw [file_tornRun, list_empty_filter] at heq
  -- One capture is read, where two were appended.
  have hlength := congrArg List.length heq
  refine absurd hlength (Nat.ne_of_lt (Nat.lt_of_lt_of_le (?read : _ < 2) ?appended))
  case read => decide +kernel
  case appended =>
    simp only [List.length_append, List.length_reverse]
    show 2 ≤ 1 + extra.length + 1
    omega

end Listing

end CaptureStore

end Gabriel.Proxy
