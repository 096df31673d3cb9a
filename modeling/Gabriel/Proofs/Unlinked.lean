import Gabriel.Proofs.TornLog
import Gabriel.Proxy.Processes

/-!
# `Gabriel.Proofs.Unlinked`: a log that another process clears

A clear removes the name of the file. The proxy drops its handle in a clear of its own, so its
next append creates a new file. A clear of another process leaves the handle, and every later
append goes to a file that no reader can open.

A run is cut at its last clear. What counts is whether the proxy held a handle then (`holdsOpen`).
An append has two steps, its start and its end; a clear of another process may come between them,
and nothing else of the proxy does (`Serial`). The theorems:

* `content_of_fresh`: the log is created by the first append after a clear that left no handle.
* `content_of_stale`: nothing names the file of a handle that a clear left.
* `finished_eq_started`: in a run without a clear that starts between two appends, the appends that
  end are those that start.
* `returnsStarted_iff`: for every serial run, a listing returns the captures whose appends started
  after the last clear exactly when the clear left no handle, or nothing was appended after it.
-/

set_option autoImplicit false

namespace Gabriel.Proxy.CaptureStore

open Gabriel.Core Text

/-- A step that is not a clear. -/
def LogStep.keeps : LogStep → Bool
  | .start => true
  | .finish _ _ => true
  | .ownClear => false
  | .otherClear => false

/-- The captures of the appends that start and succeed in a run without a clear. -/
def startedIn : List LogStep → List Capture
  | .start :: .finish capture true :: steps => capture :: startedIn steps
  | _ :: steps => startedIn steps
  | [] => []

/-- Whether the proxy holds its log open after a step. -/
def heldAfter (held : Bool) : LogStep → Bool
  | .start => true
  | .finish _ _ => held
  | .ownClear => false
  | .otherClear => held

/-- Whether the proxy holds its log open after some steps. -/
def holdsOpen (steps : List LogStep) : Bool := steps.foldl heldAfter false

/-- The capture of an append that succeeds. -/
def LogStep.finished : LogStep → Option Capture
  | .finish capture true => some capture
  | _ => none

/-- A clear of either side. -/
inductive Clear where
  | own
  | other

/-- The step of a clear. -/
def Clear.step : Clear → LogStep
  | .own => .ownClear
  | .other => .otherClear

section

variable {parse : List UInt8 → Option Capture} {render : Capture → List UInt8}

/-- The proxy has a handle when it holds its log open. -/
theorem writer_isSome (steps : List LogStep) :
    ((SharedLog.run render {} steps).writer).isSome = holdsOpen steps := by
  induction steps using List.reverseRecOn with
  | nil => rfl
  | append_singleton steps step ih =>
    unfold SharedLog.run holdsOpen at ih ⊢
    rw [List.foldl_append, List.foldl_append, List.foldl_cons, List.foldl_nil, List.foldl_cons,
      List.foldl_nil]
    unfold SharedLog.step
    cases step with
    | start =>
      dsimp only
      split
      · rename_i hwriter
        rw [hwriter]
        rfl
      · rfl
    | finish capture ok =>
      dsimp only
      split <;> exact ih
    | ownClear => rfl
    | otherClear => exact ih

/-- Appends to a file that the path names. -/
theorem content_of_open {file : Nat} {bytes : List UInt8} {log : SharedLog} {steps : List LogStep}
    (hwriter : log.writer = some file) (hlinked : log.disk.linked = some file)
    (hfile : log.disk.files[file]? = some bytes) (hkeeps : ∀ step ∈ steps, step.keeps = true) :
    (log.run render steps).disk.content
      = some (bytes ++ (steps.filterMap LogStep.finished).flatMap (lineBytes render)) := by
  -- Induction on the steps: a finished capture is appended, and no step unlinks the file.
  induction steps generalizing log bytes with
  | nil =>
    show log.disk.linked.bind (log.disk.files[·]?) = _
    rw [hlinked, Option.bind_some, hfile]
    simp
  | cons step steps ih =>
    have hrest : ∀ step ∈ steps, step.keeps = true :=
      fun s hs => hkeeps s (List.mem_cons_of_mem step hs)
    show ((log.step render step).run render steps).disk.content = _
    cases step with
    -- The handle is open, so starting opens nothing.
    | start =>
      have hsame : log.step render .start = log := by
        unfold SharedLog.step
        rw [hwriter]
      rw [hsame, ih hwriter hlinked hfile hrest]
      rfl
    | finish capture ok =>
      cases ok with
      -- A refused write leaves the file as it is.
      | false =>
        have hsame : log.step render (.finish capture false) = log := by
          unfold SharedLog.step
          rw [hwriter]
        rw [hsame, ih hwriter hlinked hfile hrest]
        rfl
      -- A line is appended to the file of the handle, which is the one at the path.
      | true =>
        have hstep : log.step render (.finish capture true)
            = { log with disk := log.disk.write file (lineBytes render capture) } := by
          unfold SharedLog.step
          rw [hwriter]
        have hwritten : (log.disk.write file (lineBytes render capture)).files[file]?
            = some (bytes ++ lineBytes render capture) := by
          unfold Disk.write
          rw [List.getElem?_modify_eq, hfile]
          rfl
        have hafter := @ih _ { log with disk := log.disk.write file (lineBytes render capture) }
          hwriter hlinked hwritten hrest
        rw [hstep, hafter, List.append_assoc]
        rfl
    -- Both clears are excluded.
    | ownClear => exact absurd (hkeeps .ownClear List.mem_cons_self) (by decide)
    | otherClear => exact absurd (hkeeps .otherClear List.mem_cons_self) (by decide)

/-- In a run without a clear that starts between two appends, every append starts in it. -/
theorem finished_eq_started {steps : List LogStep} (hserial : Serial false steps)
    (hkeeps : ∀ step ∈ steps, step.keeps = true) :
    steps.filterMap LogStep.finished = startedIn steps := by
  induction hlength : steps.length using Nat.strong_induction_on generalizing steps with
  | _ n ih =>
    match steps with
    | [] => rfl
    | .finish capture ok :: steps => exact absurd hserial id
    | .ownClear :: steps => exact absurd (hkeeps .ownClear List.mem_cons_self) (by decide)
    | .otherClear :: steps => exact absurd (hkeeps .otherClear List.mem_cons_self) (by decide)
    | [.start] => rfl
    | .start :: .start :: steps => exact absurd hserial id
    | .start :: .ownClear :: steps => exact absurd hserial id
    | .start :: .otherClear :: steps =>
      exact absurd (hkeeps .otherClear (List.mem_cons_of_mem _ List.mem_cons_self)) (by decide)
    | .start :: .finish capture ok :: steps =>
      have hrest := ih steps.length (by rw [← hlength, List.length_cons, List.length_cons]; omega)
        (show Serial false steps from hserial)
        (fun s hs => hkeeps s (List.mem_cons_of_mem _ (List.mem_cons_of_mem _ hs))) rfl
      cases ok with
      | true => exact congrArg (capture :: ·) hrest
      | false => exact hrest

/-- The log is created by the first append after a clear that left no handle. -/
theorem content_of_fresh {log : SharedLog} {steps : List LogStep} (hwriter : log.writer = none)
    (hlinked : log.disk.linked = none) (hserial : Serial false steps)
    (hkeeps : ∀ step ∈ steps, step.keeps = true) :
    (log.run render steps).disk.content.getD [] = (startedIn steps).flatMap (lineBytes render) := by
  rw [← finished_eq_started hserial hkeeps]
  match steps with
  | [] =>
    show (log.disk.linked.bind _).getD [] = _
    rw [hlinked]
    rfl
  | .finish capture ok :: steps => exact absurd hserial id
  | .ownClear :: steps => exact absurd (hkeeps .ownClear List.mem_cons_self) (by decide)
  | .otherClear :: steps => exact absurd (hkeeps .otherClear List.mem_cons_self) (by decide)
  | .start :: steps =>
    -- The new file is the last one of the disk, and empty.
    have hopened : log.step render .start
        = { disk := { files := log.disk.files ++ [[]], linked := some log.disk.files.length },
            writer := some log.disk.files.length } := by
      unfold SharedLog.step Disk.openAppend
      rw [hwriter, hlinked]
    show ((log.step render .start).run render steps).disk.content.getD [] = _
    rw [hopened, content_of_open rfl rfl (List.getElem?_concat_length (a := ([] : List UInt8)))
      fun s hs => hkeeps s (List.mem_cons_of_mem _ hs)]
    rfl

/-- Nothing names the file of a handle that a clear left. -/
theorem content_of_stale {log : SharedLog} {steps : List LogStep} {file : Nat}
    (hwriter : log.writer = some file) (hlinked : log.disk.linked = none)
    (hkeeps : ∀ step ∈ steps, step.keeps = true) :
    (log.run render steps).disk.content = none := by
  -- Induction on the steps; without a clear the handle stays the one it is.
  induction steps generalizing log with
  | nil =>
    show log.disk.linked.bind _ = none
    rw [hlinked]
    rfl
  | cons step steps ih =>
    have hrest : ∀ step ∈ steps, step.keeps = true :=
      fun s hs => hkeeps s (List.mem_cons_of_mem step hs)
    show ((log.step render step).run render steps).disk.content = none
    cases step with
    | start =>
      have hsame : log.step render .start = log := by
        unfold SharedLog.step
        rw [hwriter]
      rw [hsame]
      exact ih hwriter hlinked hrest
    -- What is written goes to the unlinked file, and the path stays empty.
    | finish capture ok =>
      cases ok with
      | false =>
        have hsame : log.step render (.finish capture false) = log := by
          unfold SharedLog.step
          rw [hwriter]
        rw [hsame]
        exact ih hwriter hlinked hrest
      | true =>
        have hstep : log.step render (.finish capture true)
            = { log with disk := log.disk.write file (lineBytes render capture) } := by
          unfold SharedLog.step
          rw [hwriter]
        rw [hstep]
        exact @ih { log with disk := log.disk.write file (lineBytes render capture) }
            hwriter hlinked hrest
    | ownClear => exact absurd (hkeeps .ownClear List.mem_cons_self) (by decide)
    | otherClear => exact absurd (hkeeps .otherClear List.mem_cons_self) (by decide)

end

/-- After some steps of a serial run an append is under way only if the proxy holds its log
open. -/
theorem serial_append {before after : List LogStep} {busy held : Bool}
    (hheld : busy = true → held = true) (h : Serial busy (before ++ after)) :
    ∃ busy', Serial busy' after ∧ (busy' = true → before.foldl heldAfter held = true) := by
  induction before generalizing busy held with
  | nil => exact ⟨busy, h, hheld⟩
  | cons step before ih =>
    cases busy with
    | false =>
      cases step with
      | start => exact @ih true _ (fun _ => rfl) h
      | finish capture ok => exact absurd h id
      | ownClear => exact @ih false _ (fun hbusy => absurd hbusy (by decide)) h
      | otherClear => exact @ih false _ (fun hbusy => absurd hbusy (by decide)) h
    | true =>
      cases step with
      | start => exact absurd h id
      | finish capture ok => exact @ih false _ (fun hbusy => absurd hbusy (by decide)) h
      | ownClear => exact absurd h id
      | otherClear => exact @ih true _ hheld h

/-- A listing without a filter and with room for them returns the captures whose appends started
after the last clear and succeeded. -/
def ReturnsStarted (parse : List UInt8 → Option Capture) (render : Capture → List UInt8)
    (before : List LogStep) (clear : Clear) (after : List LogStep) : Prop :=
  ∀ limit, (startedIn after).length ≤ limit → ∀ capture ∈ startedIn after,
    capture ∈ list parse
      (SharedLog.run render {} (before ++ clear.step :: after)).disk.content {} limit

/-- **A clear loses no later capture exactly when it leaves no handle.** For every run of appends
and clears of both sides, cut at its last clear: the captures that follow are returned if and only
if there is none, the clear is the proxy's own, or the proxy did not hold its log open. -/
theorem returnsStarted_iff (parse : List UInt8 → Option Capture) (render : Capture → List UInt8)
    (before : List LogStep) (clear : Clear) (after : List LogStep)
    (hserial : Serial false (before ++ clear.step :: after))
    (hlast : ∀ step ∈ after, step.keeps = true)
    (hformat : LineFormat parse render (startedIn after)) :
    ReturnsStarted parse render before clear after
      ↔ startedIn after = [] ∨ clear = .own ∨ holdsOpen before = false := by
  have hrun : SharedLog.run render {} (before ++ clear.step :: after)
      = ((SharedLog.run render {} before).step render clear.step).run render after := by
    unfold SharedLog.run
    rw [List.foldl_append, List.foldl_cons]
  -- The listing of a log whose first append creates its file.
  have hfresh : ∀ log : SharedLog, log.writer = none → log.disk.linked = none →
      Serial false after → ∀ limit, (startedIn after).length ≤ limit → ∀ capture ∈ startedIn after,
        capture ∈ list parse (log.run render after).disk.content {} limit := by
    intro log hwriter hlinked hserial limit hlimit capture hcapture
    have hcontent : (log.run render after).disk.content.getD [] = _ :=
      content_of_fresh hwriter hlinked hserial hlast
    cases hfile : (log.run render after).disk.content with
    | none =>
      rw [hfile] at hcontent
      have hnone : startedIn after = [] := by
        cases hstarted : startedIn after with
        | nil => rfl
        | cons c cs =>
          rw [hstarted] at hcontent
          exact absurd hcontent.symm (by simp [lineBytes])
      rw [hnone] at hcapture
      exact absurd hcapture List.not_mem_nil
    | some content =>
      rw [hfile, Option.getD_some] at hcontent
      have hread : newestFirst parse content = (startedIn after).reverse := by
        have hlines := newestFirst_lines hformat (fun c hc => hc) []
        rw [List.append_nil, newestFirst_line List.not_mem_nil] at hlines
        rw [hcontent, hlines]
        rfl
      rw [list_empty_filter, hread, List.take_of_length_le (by rwa [List.length_reverse])]
      exact List.mem_reverse.mpr hcapture
  obtain ⟨busy, hafter, hbusy⟩ := serial_append (fun h : false = true => h) hserial
  unfold ReturnsStarted
  rw [hrun]
  cases clear with
  | own =>
    refine iff_of_true ?_ (Or.inr (Or.inl rfl))
    cases busy with
    | true => exact absurd hafter id
    | false => exact hfresh _ rfl rfl hafter
  | other =>
    cases hopen : holdsOpen before with
    | false =>
      refine iff_of_true ?_ (Or.inr (Or.inr rfl))
      have hwriter : _ = holdsOpen before := @writer_isSome render before
      rw [hopen, Option.isSome_eq_false_iff, Option.isNone_iff_eq_none] at hwriter
      cases busy with
      | true => exact absurd ((hbusy rfl).symm.trans hopen) (by decide)
      | false => exact hfresh _ hwriter rfl hafter
    | true =>
      have hwriter : _ = holdsOpen before := @writer_isSome render before
      rw [hopen, Option.isSome_iff_exists] at hwriter
      obtain ⟨file, hwriter⟩ := hwriter
      have hcontent := @content_of_stale render
        ((SharedLog.run render {} before).step render .otherClear) after file hwriter rfl hlast
      constructor
      · intro h
        refine Or.inl (List.eq_nil_iff_forall_not_mem.mpr ?_)
        intro capture hcapture
        have hlisted := h _ (Nat.le_refl _) capture hcapture
        rw [show Clear.other.step = LogStep.otherClear from rfl, hcontent, list_none] at hlisted
        exact absurd hlisted List.not_mem_nil
      · rintro (hnone | hown | hclosed)
        · intro limit _ capture hcapture
          rw [hnone] at hcapture
          exact absurd hcapture List.not_mem_nil
        · cases hown
        · cases hclosed

/-- An append of a page that succeeds. -/
def pageAppend (id : Text) : List LogStep := [.start, .finish (pageCapture id) true]

/-- After a clear before its first append the proxy's captures are returned. -/
theorem returnsStarted_iff_first :
    ReturnsStarted pageParse pageLine [] .other
      (pageAppend "a".toList ++ pageAppend "b".toList ++ pageAppend "c".toList) :=
  (returnsStarted_iff pageParse pageLine [] .other
    (pageAppend "a".toList ++ pageAppend "b".toList ++ pageAppend "c".toList) trivial
    (by decide) pageParse_format).mpr (Or.inr (Or.inr rfl))

/-- After a clear of a log that the proxy holds open they are not. -/
theorem not_returnsStarted_open :
    ¬ ∀ (before : List LogStep) (clear : Clear) (after : List LogStep),
      Serial false (before ++ clear.step :: after) → (∀ step ∈ after, step.keeps = true) →
      ReturnsStarted pageParse pageLine before clear after := by
  intro h
  have hlisted := h (pageAppend "a".toList) .other (pageAppend "b".toList) trivial (by decide) 1
    (by decide) (pageCapture "b".toList) List.mem_cons_self
  have hcontent : (SharedLog.run pageLine {} (pageAppend "a".toList
      ++ Clear.other.step :: pageAppend "b".toList)).disk.content = none := rfl
  rw [hcontent, list_none] at hlisted
  exact absurd hlisted List.not_mem_nil

end Gabriel.Proxy.CaptureStore
