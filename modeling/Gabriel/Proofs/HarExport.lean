import Gabriel.Cli.HarExport
import Gabriel.Proofs.TornLog

/-!
# `Gabriel.Proofs.HarExport`: what an export says about itself

A HAR export with `--limit` may leave out captures, and then says so in its comment.
`SaysPartial` is what the comment owes its reader: it is there exactly when a capture that matches
the filter is missing, and it counts the entries, the matches and the difference.

`harExport` looks at the number of captures that the limit let through. The limit is at most the
number of matches when it counts as a cut, so a limit that is exactly met counts as one. The total
of the comment is that of the log, not of the matches, and it is read back from the text. The
theorems:

* `list_eq_take`, `count_eq_length`: a listing, and the count of a log.
* `truncated_iff`: a limit counts as a cut when it is at most the number of matches.
* `complete_iff`: the file holds every match exactly when the limit is not smaller.
* `partialComment_total`: the comment tells its total.
* `saysPartial_iff`: for every log, filter and limit, an export says when it is partial exactly when
  its limit does not hide it.
-/

set_option autoImplicit false

namespace Gabriel.Cli

open Gabriel.Core Gabriel.Proxy Text CaptureStore

/-! ### The matches -/

/-- The captures of a log, newest first. -/
def logCaptures (parse : List UInt8 → Option Capture) (file : Option (List UInt8)) :
    List Capture :=
  (file.map (newestFirst parse)).getD []

/-- The captures that match the filter of an export. -/
def HarExport.matching (parse : List UInt8 → Option Capture) (file : Option (List UInt8))
    (args : HarExport) : List Capture :=
  (logCaptures parse file).filter args.filter.matchesCapture

/-- A listing is the first matches. -/
theorem list_eq_take (parse : List UInt8 → Option Capture) (file : Option (List UInt8))
    (filter : CaptureFilter) (limit : Nat) :
    list parse file filter limit
      = ((logCaptures parse file).filter filter.matchesCapture).take limit := by
  cases file with
  | none => exact (list_none parse filter limit).trans (List.take_nil).symm
  | some content => exact list_eq parse content filter limit

/-- The count of a log is the number of its captures. -/
theorem count_eq_length (parse : List UInt8 → Option Capture) (file : Option (List UInt8)) :
    count parse file = (logCaptures parse file).length := by
  cases file with
  | none => rfl
  | some content => exact count_eq parse content

/-- The matches are among the captures. -/
theorem length_matching_le (parse : List UInt8 → Option Capture) (file : Option (List UInt8))
    (args : HarExport) :
    (args.matching parse file).length ≤ (logCaptures parse file).length :=
  List.length_filter_le _ _

/-- A log whose size is a 64-bit number has no more captures than a `usize` counts. -/
theorem length_matching_lt (parse : List UInt8 → Option Capture) {file : Option (List UInt8)}
    (hsize : ∀ content, file = some content → content.length < 2 ^ 64) (args : HarExport) :
    (args.matching parse file).length ≤ usizeMax := by
  refine (length_matching_le parse file args).trans ?_
  cases file with
  | none => exact Nat.zero_le _
  | some content =>
    have hbytes := hsize content rfl
    have hcaptures := length_newestFirst_le parse content
    show (newestFirst parse content).length ≤ 2 ^ 64 - 1
    omega

/-! ### The comment -/

/-- What the comment of an export owes its reader. -/
structure SaysPartial (b64Decode : Text → Option (List UInt8)) (log : Har.Log)
    (matching : List Capture) : Prop where
  /-- It is there exactly when a match is missing from the file. -/
  present : log.comment.isSome = true ↔
    ¬ log.entries.Perm (matching.map (Har.entryFromCapture b64Decode))
  /-- It tells the entries, the matches and the difference. -/
  numbers : ∀ comment, log.comment = some comment →
    comment = Har.partialComment log.entries.length matching.length
      (matching.length - log.entries.length)

/-- A number in front of a space is read back. -/
theorem natText_space_inj {m n : Nat} {s t : Text}
    (h : natText m ++ ' ' :: s = natText n ++ ' ' :: t) : m = n := by
  have hspace : ∀ k, ' ' ∉ natText k := fun k hmem =>
    absurd (isDigit_of_mem_natText hmem) (by decide)
  have hm : splitOnce [' '] (natText m ++ ' ' :: s) = some (natText m, s) :=
    splitOnce_singleton_iff.mpr ⟨rfl, hspace m⟩
  have hn : splitOnce [' '] (natText m ++ ' ' :: s) = some (natText n, t) :=
    splitOnce_singleton_iff.mpr ⟨h, hspace n⟩
  exact natText_injective (congrArg Prod.fst (Option.some.inj (hm.symm.trans hn)))

/-- The comment tells its total. -/
theorem partialComment_total {shown total omitted total' omitted' : Nat}
    (h : Har.partialComment shown total omitted = Har.partialComment shown total' omitted') :
    total = total' := by
  unfold Har.partialComment at h
  simp only [List.append_assoc] at h
  have hrest := List.append_cancel_left (List.append_cancel_left (List.append_cancel_left h))
  rw [show " captures. ".toList = ' ' :: "captures. ".toList by decide, List.cons_append,
    List.cons_append] at hrest
  exact natText_space_inj hrest

/-! ### The export -/

section Export

variable (b64Decode : Text → Option (List UInt8)) (parse : List UInt8 → Option Capture)
  {file : Option (List UInt8)}

/-- The captures that an export holds. -/
def HarExport.exported (parse : List UInt8 → Option Capture) (file : Option (List UInt8))
    (args : HarExport) : List Capture :=
  (args.matching parse file).take (args.limit.getD usizeMax)

/-- The entries of a HAR are those of its captures. -/
theorem build_entries_perm (captures : List Capture) (comment : Option Text) :
    (Har.build b64Decode captures comment).entries.Perm
      (captures.map (Har.entryFromCapture b64Decode)) :=
  List.perm_insertionSort _ _

/-- The export, by what its limit let through. -/
theorem harExport_eq (args : HarExport) :
    harExport b64Decode parse file args
      = if args.limit = some (args.exported parse file).length then
          Har.exportPartial b64Decode (args.exported parse file) (logCaptures parse file).length
        else Har.exportAll b64Decode (args.exported parse file) := by
  unfold harExport
  rw [list_eq_take, count_eq_length]
  show (if (args.limit.any fun n => decide ((args.exported parse file).length = n)) = true then _
    else _) = _
  congr 1
  cases args.limit with
  | none => simp
  | some n => simp [eq_comm]

/-- A limit counts as a cut when it is at most the number of matches. -/
theorem truncated_iff (args : HarExport) :
    args.limit = some (args.exported parse file).length ↔
      ∃ n, args.limit = some n ∧ n ≤ (args.matching parse file).length := by
  unfold HarExport.exported
  rw [List.length_take]
  cases args.limit with
  | none => simp
  | some n => simp

/-- The file holds every match exactly when the limit is not smaller than their number. -/
theorem complete_iff {log : Har.Log} {args : HarExport}
    (hlog : log.entries.Perm
      ((args.exported parse file).map (Har.entryFromCapture b64Decode))) :
    log.entries.Perm ((args.matching parse file).map (Har.entryFromCapture b64Decode)) ↔
      (args.matching parse file).length ≤ args.limit.getD usizeMax := by
  constructor
  · intro hperm
    have hlength := (hlog.symm.trans hperm).length_eq
    rw [List.length_map, List.length_map, HarExport.exported, List.length_take] at hlength
    exact min_eq_right_iff.mp hlength
  · intro hle
    have hall : args.exported parse file = args.matching parse file := List.take_of_length_le hle
    rwa [hall] at hlog

/-- **An export says when it is partial exactly when its limit does not hide it.** For every log,
filter and limit, the comment is there if and only if a match is missing and tells the right
numbers, if and only if the limit, where there is one, is not the number of matches, and a limit
below that number meets a log where everything matches. -/
theorem saysPartial_iff (hsize : ∀ content, file = some content → content.length < 2 ^ 64)
    (args : HarExport) :
    SaysPartial b64Decode (harExport b64Decode parse file args) (args.matching parse file) ↔
      ∀ limit, args.limit = some limit → (args.matching parse file).length ≠ limit ∧
        (limit < (args.matching parse file).length →
          (args.matching parse file).length = (logCaptures parse file).length) := by
  have hroom := length_matching_lt parse hsize args
  rw [harExport_eq]
  by_cases hcut : args.limit = some (args.exported parse file).length
  · -- The comment is there, so a match must be missing and the total must be right.
    obtain ⟨n, hlimit, hle⟩ := (truncated_iff parse args).mp hcut
    have hshown : (args.exported parse file).length = n := Option.some.inj (hcut.symm.trans hlimit)
    -- The entries are those of the exported captures, so they are as many.
    have hperm := build_entries_perm b64Decode (args.exported parse file)
      (some (Har.partialComment (args.exported parse file).length (logCaptures parse file).length
        ((logCaptures parse file).length - (args.exported parse file).length)))
    have hentries := hperm.length_eq
    rw [List.length_map, hshown] at hentries
    have hcomplete := complete_iff b64Decode parse hperm
    rw [hlimit, Option.getD_some] at hcomplete
    rw [if_pos hcut]
    constructor
    -- The comment is there: a match is missing, and its numbers are compared.
    · intro howes limit hsame
      rw [← Option.some.inj (hlimit.symm.trans hsame)]
      have hmissing := (not_congr hcomplete).mp (howes.present.mp rfl)
      refine ⟨fun heq => hmissing (Nat.le_of_eq heq), fun _ => ?_⟩
      have hnumbers := howes.numbers _ rfl
      have hlength : (Har.exportPartial b64Decode (args.exported parse file)
        (logCaptures parse file).length).entries.length = n := hentries
      rw [hlength, hshown] at hnumbers
      exact (partialComment_total hnumbers).symm
    -- The limit is not the number of matches, so one of them is missing.
    · intro hcondition
      obtain ⟨hne, htotal⟩ := hcondition n hlimit
      have hlt : n < (args.matching parse file).length := by omega
      constructor
      · exact iff_of_true rfl ((not_congr hcomplete).mpr (by omega))
      · intro comment hcomment
        have hlength : (Har.exportPartial b64Decode (args.exported parse file)
          (logCaptures parse file).length).entries.length = n := hentries
        rw [← Option.some.inj hcomment, hlength, htotal hlt, hshown]
  · -- There is no comment, and the limit is larger than the number of matches.
    have hperm := build_entries_perm b64Decode (args.exported parse file) none
    -- All matches are there, since the limit did not cut the list.
    have hall : (args.matching parse file).length ≤ args.limit.getD usizeMax := by
      cases hlimit : args.limit with
      | none => exact hroom
      | some n =>
        have hnot := (not_congr (truncated_iff parse args)).mp hcut
        by_contra hlt
        rw [Option.getD_some] at hlt
        exact hnot ⟨n, hlimit, by omega⟩
    rw [if_neg hcut]
    have hcomment : (Har.exportAll b64Decode (args.exported parse file)).comment = none := rfl
    refine iff_of_true ⟨?_, fun comment hsome => ?_⟩ ?_
    · rw [hcomment]
      exact iff_of_false (by decide) (not_not.mpr ((complete_iff b64Decode parse hperm).mpr hall))
    · rw [hcomment] at hsome
      exact nomatch hsome
    · intro limit hlimit
      have hnot := (not_congr (truncated_iff parse args)).mp hcut
      have hlt : (args.matching parse file).length < limit := by
        by_contra hle
        exact hnot ⟨limit, hlimit, by omega⟩
      exact ⟨by omega, fun h => by omega⟩

end Export

/-! ### A log of two methods -/

/-- A request for a page with a method. -/
def methodCapture (method : Text) : Capture :=
  { pageCapture method with request := { (pageCapture method).request with method } }

/-- Its line in the log. -/
def methodLine (method : Text) : List UInt8 :=
  Utf8.encode ("\x7b\"id\":\"".toList ++ method
    ++ "\",\"at\":0,\"duration_ms\":0,\"request\":\x7b\"method\":\"".toList ++ method
    ++ "\",\"url\":\"https://api.test/\",\"headers\":\x7b\x7d\x7d\x7d".toList)

/-- A decoder of two such lines. -/
def methodParse (line : List UInt8) : Option Capture :=
  (["GET".toList, "POST".toList].find? fun method => methodLine method = line).map methodCapture

/-- A log of the two. -/
def methodLog : List UInt8 :=
  methodLine "GET".toList ++ newline :: methodLine "POST".toList ++ [newline]

/-- The captures of that log. -/
theorem logCaptures_methodLog :
    logCaptures methodParse (some methodLog)
      = [methodCapture "POST".toList, methodCapture "GET".toList] := by
  decide +kernel

/-- A limit of one, and no filter. -/
theorem saysPartial_iff_newest :
    SaysPartial (fun _ => none) (harExport (fun _ => none) methodParse (some methodLog)
      { limit := some 1 }) (HarExport.matching methodParse (some methodLog)
          { limit := some 1 }) := by
  refine (saysPartial_iff (fun _ => none) methodParse ?_ { limit := some 1 }).mpr ?_
  · intro content hcontent
    rw [← Option.some.inj hcontent]
    decide +kernel
  · intro limit hlimit
    rw [← Option.some.inj hlimit, HarExport.matching, logCaptures_methodLog]
    decide +kernel

/-- A limit of one, and a filter that one capture matches: the comment says that another one is
missing. -/
theorem not_saysPartial_filtered :
    ¬ SaysPartial (fun _ => none)
      (harExport (fun _ => none) methodParse (some methodLog)
        { method := some "GET".toList, limit := some 1 })
      (HarExport.matching methodParse (some methodLog)
        { method := some "GET".toList, limit := some 1 }) := by
  have hmatching : HarExport.matching methodParse (some methodLog)
      { method := some "GET".toList, limit := some 1 } = [methodCapture "GET".toList] := by
    rw [HarExport.matching, logCaptures_methodLog]
    decide +kernel
  have hexported : HarExport.exported methodParse (some methodLog)
      { method := some "GET".toList, limit := some 1 } = [methodCapture "GET".toList] := by
    rw [HarExport.exported, hmatching]
    decide +kernel
  rw [harExport_eq, hexported, if_pos (by decide), hmatching]
  intro howes
  exact howes.present.mp rfl (build_entries_perm _ _ _)

end Gabriel.Cli
