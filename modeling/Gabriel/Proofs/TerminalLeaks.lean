import Gabriel.Cli.Inspect
import Gabriel.Cli.Live
import Gabriel.Proofs.TerminalOutput

/-!
# `Gabriel.Proofs.TerminalLeaks`: which server texts reach the terminal raw?

`Style.safe` is for every text of a server. Five texts are printed without it: the name of an
event, the algorithm and the key id of a token, the status text of a capture, and the creator of
a HAR; with `--json`, a token is printed as the JSON library writes it, which escapes C0 only.

Each command is read as a row of lines, whose control characters are counted (`controls`, in
`Lib/Ansi`). A stream and an import print texts of other origin too: the content type, and the path
of the file. There, the control characters are compared with those of a stream whose events are
empty (`blankEvent`), and of a HAR whose creator has no name. The theorems:

* `controls_streamLines_iff`: a stream shows no control character of its events exactly when no
  event that was handed over has one in its name.
* `jwtCommand_harmless_iff`: a token is harmless exactly when its algorithm and its key id have
  none, and with `--json` when its strings have no `DEL` and no C1.
* `printCapture_harmless_iff`: a capture is harmless exactly when its status text is clean.
* `controls_importReport_iff`: an import shows none of the creator's name exactly when it has none.
* `terminal_iff`: the four together, each with its own condition.
-/

set_option autoImplicit false

namespace Gabriel.Cli

open Gabriel.Core Gabriel.Engine Text Ansi

/-! ### Streams -/

/-- The control characters of some lines. -/
theorem controls_printed (lines : List Text) :
    controls (printed lines) = lines.flatMap controls := by
  induction lines with
  | nil => rfl
  | cons line lines ih =>
    show controls ((line ++ ['\n']) ++ printed lines) = controls line ++ lines.flatMap controls
    rw [controls_append, controls_append, ih]
    show controls line ++ [] ++ _ = _
    rw [List.append_nil]

/-- The control characters of a painted text are those of the text, between those of the
sequences. -/
theorem controls_paint (style : Style) (code : Text) :
    ∃ first last, ∀ t, controls (style.paint code t) = first ++ controls t ++ last := by
  by_cases henabled : style.enabled = true
  · refine ⟨controls (sgr code), controls (sgr ['0']), fun t => ?_⟩
    rw [← controls_append, ← controls_append]
    show controls (if style.enabled then sgr code ++ t ++ sgr ['0'] else t) = _
    rw [if_pos henabled]
  · refine ⟨[], [], fun t => ?_⟩
    show controls (if style.enabled then _ else t) = _
    rw [if_neg henabled, List.nil_append, List.append_nil]

/-- An event of which nothing is left to show. -/
def blankEvent (event : Sse.Event) : Sse.Event :=
  { event with name := event.name.map fun _ => [], data := [] }

/-- A call that was given events with nothing to show. -/
def blankStream {Url : Type} (run : Except EngineError StreamOutcome × Watched Url Sse.Event) :
    Except EngineError StreamOutcome × Watched Url Sse.Event :=
  (run.1.map fun outcome => { outcome with events := outcome.events.map blankEvent },
    { run.2 with seen := run.2.seen.map blankEvent })

/-- A map over an indexed map. -/
theorem map_mapIdx {α β γ : Type} (f : Nat → α → β) (g : β → γ) (l : List α) :
    (l.mapIdx f).map g = l.mapIdx fun i a => g (f i a) := by
  rw [List.mapIdx_eq_zipIdx_map, List.mapIdx_eq_zipIdx_map, List.map_map]
  rfl

/-- An indexed map over a map. -/
theorem mapIdx_map {α β γ : Type} (f : Nat → β → γ) (g : α → β) (l : List α) :
    (l.map g).mapIdx f = l.mapIdx fun i a => f i (g a) := by
  induction l generalizing f with
  | nil => rfl
  | cons a l ih => rw [List.map_cons, List.mapIdx_cons, List.mapIdx_cons, ih]

/-- Concatenations of lists of which none grows are the same when the lists are. -/
theorem flatMap_mapIdx_eq_iff {α β : Type} {f g : Nat → α → List β} {P : α → Prop}
    (heq : ∀ i a, f i a = g i a ↔ P a) (hle : ∀ i a, (g i a).length ≤ (f i a).length)
    (l : List α) :
    (l.mapIdx f).flatten = (l.mapIdx g).flatten ↔ ∀ a ∈ l, P a := by
  have hlength : ∀ (l : List α) (f g : Nat → α → List β),
      (∀ i a, (g i a).length ≤ (f i a).length) →
      ((l.mapIdx g).flatten).length ≤ ((l.mapIdx f).flatten).length := by
    intro l
    induction l with
    | nil => exact fun _ _ _ => le_refl _
    | cons a l ih =>
      intro f g hle
      rw [List.mapIdx_cons, List.mapIdx_cons, List.flatten_cons, List.flatten_cons,
        List.length_append, List.length_append]
      have := ih (fun i => f (i + 1)) (fun i => g (i + 1)) fun i a => hle (i + 1) a
      have := hle 0 a
      omega
  induction l generalizing f g with
  | nil => exact iff_of_true rfl fun _ ha => absurd ha List.not_mem_nil
  | cons a l ih =>
    have hrest : (l.mapIdx fun i => f (i + 1)).flatten = (l.mapIdx fun i => g (i + 1)).flatten
        ↔ ∀ a ∈ l, P a := ih (fun i a => heq (i + 1) a) fun i a => hle (i + 1) a
    rw [List.mapIdx_cons, List.mapIdx_cons, List.flatten_cons, List.flatten_cons,
      List.forall_mem_cons, ← heq 0 a, ← hrest]
    constructor
    · intro h
      -- The rest does not grow, so that the first lists have one length.
      have hrest := hlength l (fun i => f (i + 1)) (fun i => g (i + 1))
        fun i a => hle (i + 1) a
      have hfirst := hle 0 a
      have htotal := congrArg List.length h
      rw [List.length_append, List.length_append] at htotal
      exact List.append_inj h (by omega)
    · rintro ⟨hfirst, hrest⟩
      rw [hfirst, hrest]

section Stream

variable {Url : Type} {terminal : Terminal}

/-- The control characters of the line of an event: those of the style, and those of the
name. -/
theorem controls_eventLine (htty : terminal.style.tty = true) (redactor : Redactor)
    (index : Nat) : ∃ first last, ∀ event : Sse.Event,
      controls (eventLine terminal redactor index event)
        = first ++ controls (event.name.getD "message".toList) ++ last := by
  obtain ⟨first, last, hpaint⟩ := controls_paint terminal.style "36".toList
  have hspace : ∀ t, controls (' ' :: t) = controls t := fun _ => rfl
  refine ⟨controls (terminal.style.dim (padLeft 4 (natText (index + 1)))) ++ first, last,
    fun event => ?_⟩
  unfold eventLine
  have hsafe := safe_clean htty (redactor.apply (eventText terminal.tools event))
  rw [controls_append, controls_append, hspace, hspace, controls_eq_nil_iff.mpr hsafe,
    List.append_nil, List.append_assoc, List.append_assoc, ← List.append_assoc first]
  exact congrArg _ (hpaint _)

/-- The control characters of the event are shown when its name has some. -/
theorem controls_eventLine_iff (htty : terminal.style.tty = true) (redactor : Redactor)
    (index : Nat) (event : Sse.Event) :
    controls (eventLine terminal redactor index event)
        = controls (eventLine terminal redactor index (blankEvent event))
      ↔ Clean (event.name.getD []) := by
  obtain ⟨first, last, hline⟩ := controls_eventLine htty redactor index
  rw [hline, hline, List.append_cancel_right_eq, List.append_cancel_left_eq]
  unfold blankEvent
  cases event.name with
  | none => exact iff_of_true rfl Clean.nil
  | some name => exact controls_eq_nil_iff

/-- A blank event has no more control characters than the event. -/
theorem length_controls_blankEvent (htty : terminal.style.tty = true) (redactor : Redactor)
    (index : Nat) (event : Sse.Event) :
    (controls (eventLine terminal redactor index (blankEvent event))).length
      ≤ (controls (eventLine terminal redactor index event)).length := by
  obtain ⟨first, last, hline⟩ := controls_eventLine htty redactor index
  rw [hline, hline]
  unfold blankEvent
  cases event.name with
  | none => exact le_refl _
  | some name =>
    show (first ++ [] ++ last).length ≤ (first ++ controls name ++ last).length
    rw [List.length_append, List.length_append, List.length_append, List.length_append]
    exact Nat.add_le_add_right (Nat.add_le_add_left (Nat.zero_le _) _) _

/-- **A stream shows no control character of its events** exactly when no event that was handed
over has one in its name. -/
theorem controls_streamLines_iff (htty : terminal.style.tty = true) (redactor : Redactor)
    (limits : StreamLimits) (durationMs : UInt64)
    (run : Except EngineError StreamOutcome × Watched Url Sse.Event) :
    controls (printed (streamLines terminal redactor limits durationMs run))
        = controls (printed (streamLines terminal redactor limits durationMs (blankStream run)))
      ↔ ∀ event ∈ run.2.seen, Clean (event.name.getD []) := by
  -- The summary reads the number of the events only.
  have hsummary : ∀ outcome : StreamOutcome,
      streamSummary terminal limits durationMs
        { outcome with events := outcome.events.map blankEvent }
        = streamSummary terminal limits durationMs outcome := by
    intro outcome
    unfold streamSummary
    rw [List.length_map]
    rfl
  have htail : ∃ tail, streamLines terminal redactor limits durationMs run
        = run.2.seen.mapIdx (eventLine terminal redactor) ++ tail
      ∧ streamLines terminal redactor limits durationMs (blankStream run)
        = (run.2.seen.map blankEvent).mapIdx (eventLine terminal redactor) ++ tail := by
    obtain ⟨result, watched⟩ := run
    cases result with
    | error error => exact ⟨[], rfl, rfl⟩
    | ok outcome =>
      refine ⟨streamSummary terminal limits durationMs outcome, rfl, ?_⟩
      rw [← hsummary outcome]
      rfl
  obtain ⟨tail, hrun, hblank⟩ := htail
  rw [hrun, hblank, controls_printed, controls_printed, List.flatMap_append, List.flatMap_append,
    List.append_cancel_right_eq, List.flatMap_def, List.flatMap_def, mapIdx_map,
    map_mapIdx, map_mapIdx]
  exact flatMap_mapIdx_eq_iff (controls_eventLine_iff htty redactor)
    (length_controls_blankEvent htty redactor) run.2.seen

end Stream

/-! ### Tokens -/

mutual

/-- The characters of the strings and the keys of a JSON value. -/
def jsonChars : Json → Text
  | .string value => value
  | .array items => itemChars items
  | .object fields => fieldChars fields
  | _ => []

/-- The characters in the items of an array. -/
def itemChars : List Json → Text
  | [] => []
  | item :: items => jsonChars item ++ itemChars items

/-- The characters in the fields of an object. -/
def fieldChars : List (Text × Json) → Text
  | [] => []
  | (key, value) :: fields => key ++ jsonChars value ++ fieldChars fields

end

/-- The JSON printer escapes C0 in a string, and leaves what comes after ASCII and `DEL`. -/
structure EscapesC0 (json : JsonLib) : Prop where
  only : ∀ value c, c ∈ json.pretty value → isControl c = true →
    0x7f ≤ c.toNat ∧ c ∈ jsonChars value
  verbatim : ∀ value c, c ∈ jsonChars value → 0x7f ≤ c.toNat → c ∈ json.pretty value

/-- What has to hold for a token to be printed without a control character. -/
def QuietToken (jwt : Jwt) (asJson : Bool) : Prop :=
  if asJson then ∀ c ∈ jsonChars jwt.header ++ jsonChars jwt.payload,
    0x7f ≤ c.toNat → isControl c = false
  else Clean (jwt.algorithm.getD []) ∧ Clean (jwt.keyId.getD [])

/-- A style of a terminal without colours. -/
def colourless : Style := .detect true true

/-- Where there are no colours, a harmless line is a clean one. -/
theorem clean_of_colourless {lines : List Text} {line : Text}
    (h : Tame colourless.codes (printed lines)) (hline : line ∈ lines) : Clean line := by
  refine (harmless_nil_iff.mp h).mono fun c hc => ?_
  exact List.mem_flatMap.mpr ⟨line, hline, List.mem_append_left _ hc⟩

/-- Padding is harmless. -/
theorem padRight_harmless {style : Style} {text : Text} (h : Tame style.codes text)
    (width : Nat) : Tame style.codes (padRight width text) := by
  refine h.append (Tame.of_clean fun c hc => ?_)
  rw [List.eq_of_mem_replicate hc]
  decide

/-- A date has no control characters. -/
theorem formatIso8601_clean (ms : UInt64) : Clean (formatIso8601 ms) := by
  intro c hc
  have hmarks : Clean "-T:.Z".toList := by decide
  rcases mem_isoText hc with hdigit | hmark
  · exact isControl_of_isDigit hdigit
  · exact hmarks c hmark

/-- The text of a warning is fixed. -/
theorem message_clean (warning : JwtWarning) : Clean warning.message := by
  cases warning
  all_goals decide +kernel

section Token

variable {tools : InspectTools}

/-- How far an expiry is away is a number with a fixed text. -/
theorem relativeExpiry_clean (hnumbers : tools.print.PrintsNumbers) (jwt : Jwt) (nowMs : UInt64)
    (claim : Text) : Clean (relativeExpiry tools jwt nowMs claim) := by
  have hduration := fun ms => formatDuration_clean hnumbers ms
  unfold relativeExpiry
  split
  · split_ifs
    · exact Clean.nil
    · exact Clean.append (by decide) (hduration _)
    · exact (Clean.append (by decide) (hduration _)).append (by decide)
  · exact Clean.nil

/-- The report about a token is harmless when the algorithm and the key id are clean. -/
theorem jwtReport_harmless (hnumbers : tools.print.PrintsNumbers) {style : Style}
    (htty : style.tty = true) (nowMs : UInt64) {jwt : Jwt}
    (halg : Clean (jwt.algorithm.getD [])) (hkid : Clean (jwt.keyId.getD [])) :
    ∀ line ∈ jwtReport tools style nowMs jwt, Tame style.codes line := by
  -- Everything but the algorithm and the key id is fixed, or printed as a number.
  have hclaims : ∀ name ∈ Jwt.claimOrder, Clean name := by decide +kernel
  have hlabels : ∀ label ∈ timeLabels, Clean label.1 := by decide +kernel
  have halgorithm : Clean (jwt.algorithm.getD "<none declared>".toList) := by
    cases h : jwt.algorithm with
    | none => decide
    | some alg => rwa [h] at halg
  have hkey : Clean (jwt.keyId.elim [] fun kid => "  kid ".toList ++ kid) := by
    cases h : jwt.keyId with
    | none => exact Clean.nil
    | some kid =>
      rw [h] at hkid
      exact Clean.append (by decide) hkid
  intro line hline
  simp only [jwtReport, List.mem_append, List.mem_singleton] at hline
  -- The lines in their order: algorithm, claims, times, warnings and the end.
  rcases hline with (((rfl | hclaim) | htime) | hwarning) | hend
  · exact (spaced_harmless (bold_harmless (Tame.of_clean (by decide)))
      (Tame.of_clean halgorithm)).append (Tame.of_clean hkey)
  · obtain ⟨claim, hmem, rfl⟩ := List.mem_map.mp hclaim
    obtain ⟨name, hname, hvalue⟩ := List.mem_filterMap.mp hmem
    obtain ⟨value, -, rfl⟩ := Option.map_eq_some_iff.mp hvalue
    exact spaced_harmless
      (padRight_harmless (dim_harmless (Tame.of_clean (hclaims name hname))) 10)
      (safe_harmless htty _)
  · obtain ⟨label, hlabel, hvalue⟩ := List.mem_filterMap.mp htime
    obtain ⟨ms, -, rfl⟩ := Option.map_eq_some_iff.mp hvalue
    exact (spaced_harmless
      (padRight_harmless (dim_harmless (Tame.of_clean (hlabels label hlabel))) 10)
      (Tame.of_clean (formatIso8601_clean ms))).append
      (dim_harmless (Tame.of_clean (relativeExpiry_clean hnumbers jwt nowMs label.2)))
  · refine section_harmless (fun line hline => ?_) line hwarning
    obtain ⟨warning, -, rfl⟩ := List.mem_map.mp hline
    refine spaced_harmless ?_ (Tame.of_clean (message_clean warning))
    split
    · exact red_harmless (Tame.of_clean (by decide))
    · exact yellow_harmless (Tame.of_clean (by decide))
  · simp only [List.mem_cons, List.not_mem_nil, or_false] at hend
    rcases hend with rfl | rfl
    · exact Tame.nil
    · exact dim_harmless (Tame.of_clean (by decide +kernel))

/-- The JSON of a token has no control character when its strings have no `DEL` and no C1. -/
theorem pretty_clean_iff (hjson : EscapesC0 tools.print.json) (header payload : Json) :
    Clean (tools.print.json.pretty (.object [("header".toList, header),
        ("payload".toList, payload)]))
      ↔ ∀ c ∈ jsonChars header ++ jsonChars payload, 0x7f ≤ c.toNat → isControl c = false := by
  have hascii : (("header".toList ++ "payload".toList).all fun c => c.toNat < 0x7f) = true := by
    decide
  have hkeys : ∀ c ∈ "header".toList ++ "payload".toList, c.toNat < 0x7f := by
    simpa only [List.all_eq_true, decide_eq_true_eq] using hascii
  -- The two keys are ASCII, so what is above it comes from the two documents.
  have hchars : ∀ c, 0x7f ≤ c.toNat → (c ∈ jsonChars (.object [("header".toList, header),
      ("payload".toList, payload)]) ↔ c ∈ jsonChars header ++ jsonChars payload) := by
    intro c hhigh
    have hno : c ∉ "header".toList ∧ c ∉ "payload".toList := by
      constructor
      · intro hc
        have := hkeys c (List.mem_append_left _ hc)
        omega
      · intro hc
        have := hkeys c (List.mem_append_right _ hc)
        omega
    simp only [jsonChars, fieldChars, List.mem_append, hno, false_or, List.append_nil]
  -- The writer escapes what is below `DEL` and leaves the rest as it is.
  constructor
  · intro hclean c hc hhigh
    exact hclean c (hjson.verbatim _ c ((hchars c hhigh).mpr hc) hhigh)
  · intro h c hc
    by_contra hcontrol
    obtain ⟨hhigh, hmem⟩ := hjson.only _ c hc (by simpa using hcontrol)
    exact hcontrol (h c ((hchars c hhigh).mp hmem) hhigh)

/-- **A token is printed without a control character of its own** exactly when its algorithm and
its key id have none, or, as JSON, when none of its strings has `DEL` or C1. -/
theorem jwtCommand_harmless_iff (hnumbers : tools.print.PrintsNumbers)
    (hjson : EscapesC0 tools.print.json) (decodedMs nowMs : UInt64) (asJson : Bool) (raw : Text) :
    (∀ style : Style, style.tty = true → ∀ lines,
        jwtCommand tools style decodedMs nowMs asJson raw = .ok lines →
        Tame style.codes (printed lines))
      ↔ ∀ jwt, Jwt.decodeAt tools.jwt raw decodedMs = .ok jwt → QuietToken jwt asJson := by
  unfold jwtCommand
  cases hdecode : Jwt.decodeAt tools.jwt raw decodedMs with
  | error described => exact iff_of_true (fun _ _ _ h => nomatch h) (fun _ h => nomatch h)
  | ok jwt =>
    -- The decoder has one answer.
    have hone : (∀ other, Except.ok (ε := Text) jwt = .ok other → QuietToken other asJson)
        ↔ QuietToken jwt asJson :=
      ⟨fun h => h jwt rfl, fun h other heq => Except.ok.inj heq ▸ h⟩
    rw [hone]
    unfold QuietToken
    cases asJson with
    -- As JSON the whole output is the one line.
    | true =>
      rw [if_pos rfl, ← pretty_clean_iff hjson]
      constructor
      · intro h
        exact clean_of_colourless (h colourless rfl _ rfl) List.mem_cons_self
      · rintro h style htty lines hlines
        obtain rfl := Except.ok.inj hlines
        refine printed_harmless fun line hline => ?_
        rw [List.mem_singleton.mp hline]
        exact Tame.of_clean h
    | false =>
      rw [if_neg Bool.false_ne_true]
      -- Otherwise the first line shows both, and without colours it is printed as it is.
      constructor
      · intro h
        have hfirst : Clean (algorithmLine colourless jwt) :=
          clean_of_colourless (h colourless rfl _ rfl) List.mem_cons_self
        constructor
        · refine hfirst.mono fun c hc => ?_
          unfold algorithmLine
          cases halg : jwt.algorithm with
          | none =>
            rw [halg] at hc
            exact absurd hc List.not_mem_nil
          | some alg =>
            rw [halg] at hc
            exact List.mem_append_left _ (List.mem_append_right _ (List.mem_cons_of_mem _ hc))
        · refine hfirst.mono fun c hc => ?_
          unfold algorithmLine
          cases hkid : jwt.keyId with
          | none =>
            rw [hkid] at hc
            exact absurd hc List.not_mem_nil
          | some kid =>
            rw [hkid] at hc
            exact List.mem_append_right _ (List.mem_append_right _ hc)
      · rintro ⟨halg, hkid⟩ style htty lines hlines
        obtain rfl := Except.ok.inj hlines
        exact printed_harmless (jwtReport_harmless hnumbers htty nowMs halg hkid)

end Token

/-! ### Captures -/

section Captured

variable {tools : PrintTools} {style : Style}

/-- A header of a capture is printed safe. -/
theorem captureHeaderLine_harmless (htty : style.tty = true) (shown : Text × Text → Text)
    (header : Text × Text) : Tame style.codes (captureHeaderLine style shown header) := by
  have hindent : Tame style.codes "  ".toList := Tame.of_clean (by decide)
  exact spaced_harmless (hindent.append (dim_harmless (safe_harmless htty _)))
    (safe_harmless htty _)

/-- So is the preview of a body. -/
theorem previewLines_harmless (htty : style.tty = true) (body : Option CapturedBody) :
    ∀ line ∈ previewLines tools style body, Tame style.codes line := by
  intro line hline
  cases body with
  | none => exact absurd hline List.not_mem_nil
  | some body =>
    rcases List.mem_cons.mp hline with rfl | hline
    · exact Tame.nil
    · rw [List.mem_singleton.mp hline]
      exact safe_harmless htty _

/-- A response is harmless when its status text is clean. -/
theorem responseLines_harmless (htty : style.tty = true) {response : CapturedResponse}
    (h : Clean response.statusText) :
    ∀ line ∈ responseLines tools style response, Tame style.codes line := by
  intro line hline
  simp only [responseLines, List.mem_append, List.mem_cons, List.not_mem_nil, or_false] at hline
  rcases hline with ((rfl | rfl) | hheader) | hbody
  · exact Tame.nil
  · exact spaced_harmless (spaced_harmless (bold_harmless (Tame.of_clean (by decide)))
      (status_harmless _)) (dim_harmless (Tame.of_clean h))
  · obtain ⟨header, -, rfl⟩ := List.mem_map.mp hheader
    exact captureHeaderLine_harmless htty _ header
  · exact previewLines_harmless htty _ line hbody

/-- A labelled text that was made safe. -/
theorem labelled_harmless (htty : style.tty = true) {label : Text} (hlabel : Clean label)
    (text : Text) : Tame style.codes (style.dim label ++ ' ' :: style.safe text) :=
  spaced_harmless (dim_harmless (Tame.of_clean hlabel)) (safe_harmless htty text)

/-- **A capture is shown without a control character of its own** exactly when the status text of
its response has none. -/
theorem printCapture_harmless_iff (tools : PrintTools) (capture : Capture) :
    (∀ style : Style, style.tty = true →
        Tame style.codes (printed (printCapture tools style capture)))
      ↔ ∀ response ∈ capture.response, Clean response.statusText := by
  constructor
  · intro h response hresponse
    -- Without colours, the line of the status ends with the status text.
    have hstatus : colourless.bold "response".toList ++ ' ' :: colourless.status response.status
        ++ ' ' :: response.statusText ∈ responseLines tools colourless response :=
      List.mem_append_left _ (List.mem_append_left _ (List.mem_cons_of_mem _ List.mem_cons_self))
    have hline : colourless.bold "response".toList ++ ' ' :: colourless.status response.status
        ++ ' ' :: response.statusText ∈ printCapture tools colourless capture := by
      unfold printCapture
      rw [Option.mem_def.mp hresponse]
      exact List.mem_append_right _ hstatus
    refine (clean_of_colourless (h colourless rfl) hline).mono fun c hc => ?_
    exact List.mem_append_right _ (List.mem_cons_of_mem _ hc)
  · intro h style htty
    refine printed_harmless fun line hline => ?_
    simp only [printCapture, List.mem_append, List.mem_cons, List.not_mem_nil, or_false,
      Option.mem_toList] at hline
    rcases hline with
      ((((((rfl | rfl) | hpage) | hsession) | rfl | rfl) | hheader) | hbody) | hresponse
    · exact spaced_harmless (bold_harmless (safe_harmless htty _)) (safe_harmless htty _)
    · exact spaced_harmless (dim_harmless (Tame.of_clean (by decide)))
        (Tame.of_clean (formatIso8601_clean _))
    · obtain ⟨page, -, rfl⟩ := Option.map_eq_some_iff.mp hpage
      exact labelled_harmless htty (by decide) page
    · obtain ⟨session, -, rfl⟩ := Option.map_eq_some_iff.mp hsession
      exact labelled_harmless htty (by decide) session
    · exact Tame.nil
    · exact bold_harmless (Tame.of_clean (by decide))
    · obtain ⟨header, -, rfl⟩ := List.mem_map.mp hheader
      exact captureHeaderLine_harmless htty _ header
    · exact previewLines_harmless htty _ line hbody
    · cases hcase : capture.response with
      | none =>
        rw [hcase] at hresponse
        exact absurd hresponse List.not_mem_nil
      | some response =>
        rw [hcase] at hresponse
        exact responseLines_harmless htty (h response hcase) line hresponse

end Captured

/-! ### Imports -/

/-- **An import reports no control character of the creator's name** exactly when the name has
none. -/
theorem controls_importReport_iff (style : Style) (file creator : Text) (imported skipped : Nat) :
    controls (printed (importReport style file creator imported skipped))
        = controls (printed (importReport style file [] imported skipped))
      ↔ Clean creator := by
  rw [controls_printed, controls_printed]
  unfold importReport
  rw [List.flatMap_append, List.flatMap_append, List.flatMap_append, List.flatMap_append,
    List.append_cancel_right_eq, List.append_cancel_right_eq, List.flatMap_singleton,
    List.flatMap_singleton]
  generalize style.green "imported".toList ++ ' ' :: natText imported
    ++ " capture(s) from ".toList ++ file ++ " (".toList = front
  rw [controls_append, controls_append, controls_append, controls_append,
    List.append_cancel_right_eq, List.append_cancel_left_eq]
  exact controls_eq_nil_iff

/-- The claim about an import: it prints the control characters that it prints when the creator
has no name. -/
def QuietImport (upper : Text → Text) (idPrefix : Text) (nowMs : UInt64) (style : Style)
    (file : Text) (log : Har.Log) : Prop :=
  (harImport upper idPrefix nowMs style file log).map (controls ∘ printed)
    = (harImport upper idPrefix nowMs style file
      { log with creator := { log.creator with name := [] } }).map (controls ∘ printed)

/-- An import is quiet when the name of the program that wrote the log is clean, or when it fails.
-/
theorem quietImport_iff (upper : Text → Text) (idPrefix : Text) (nowMs : UInt64) (style : Style)
    (file : Text) (log : Har.Log) :
    QuietImport upper idPrefix nowMs style file log
      ↔ ((Har.importLog upper idPrefix nowMs log).isSome = true → Clean log.creator.name) := by
  have hblank : Har.importLog upper idPrefix nowMs
      { log with creator := { log.creator with name := [] } }
      = Har.importLog upper idPrefix nowMs log := rfl
  unfold QuietImport harImport
  rw [hblank]
  cases himport : Har.importLog upper idPrefix nowMs log with
  | none => exact iff_of_true rfl fun h => absurd h (by decide)
  | some result =>
    rw [Option.map_some, Option.map_some, Option.map_some, Option.map_some, Option.some_inj,
      Option.isSome_some, forall_prop_of_true rfl]
    exact controls_importReport_iff style file log.creator.name result.1.length result.2

/-! ### All of them -/

/-- The claim about a stream: what is printed has the control characters that it has when the
events have nothing to show. -/
def QuietStream {Url : Type} (terminal : Terminal) (redactor : Redactor) (limits : StreamLimits)
    (durationMs : UInt64) (run : Except EngineError StreamOutcome × Watched Url Sse.Event) :
    Prop :=
  controls (printed (streamLines terminal redactor limits durationMs run))
    = controls (printed (streamLines terminal redactor limits durationMs (blankStream run)))

/-- The claim about a token, at every terminal. -/
def HarmlessToken (tools : InspectTools) (decodedMs nowMs : UInt64) (asJson : Bool) (raw : Text) :
    Prop :=
  ∀ style : Style, style.tty = true → ∀ lines,
    jwtCommand tools style decodedMs nowMs asJson raw = .ok lines →
    Tame style.codes (printed lines)

/-- The claim about a capture, at every terminal. -/
def HarmlessCapture (tools : PrintTools) (capture : Capture) : Prop :=
  ∀ style : Style, style.tty = true →
    Tame style.codes (printed (printCapture tools style capture))

/-- **When server text cannot drive the terminal.** A stream: when no event has a control
character in its name. A token: when its algorithm and its key id have none, or as JSON, when
its strings have no `DEL` and no C1. A capture: when the status text of its response has none. An
import: when the name of the creator has none. -/
theorem terminal_iff {tools : InspectTools} (hnumbers : tools.print.PrintsNumbers)
    (hjson : EscapesC0 tools.print.json) :
    (∀ {Url : Type} (terminal : Terminal), terminal.style.tty = true →
      ∀ (redactor : Redactor) (limits : StreamLimits) (durationMs : UInt64)
        (run : Except EngineError StreamOutcome × Watched Url Sse.Event),
        QuietStream terminal redactor limits durationMs run
          ↔ ∀ event ∈ run.2.seen, Clean (event.name.getD []))
    ∧ (∀ (decodedMs nowMs : UInt64) (asJson : Bool) (raw : Text),
        HarmlessToken tools decodedMs nowMs asJson raw
          ↔ ∀ jwt, Jwt.decodeAt tools.jwt raw decodedMs = .ok jwt → QuietToken jwt asJson)
    ∧ (∀ capture : Capture, HarmlessCapture tools.print capture
        ↔ ∀ response ∈ capture.response, Clean response.statusText)
    ∧ ∀ (upper : Text → Text) (idPrefix : Text) (nowMs : UInt64) (style : Style) (file : Text)
        (log : Har.Log), QuietImport upper idPrefix nowMs style file log
          ↔ ((Har.importLog upper idPrefix nowMs log).isSome = true → Clean log.creator.name) :=
  ⟨fun _ htty redactor limits durationMs run =>
      controls_streamLines_iff htty redactor limits durationMs run,
    fun decodedMs nowMs asJson raw =>
      jwtCommand_harmless_iff hnumbers hjson decodedMs nowMs asJson raw,
    fun capture => printCapture_harmless_iff tools.print capture,
    fun upper idPrefix nowMs style file log =>
      quietImport_iff upper idPrefix nowMs style file log⟩

/-- A sequence that erases the screen. -/
def erase : Text := "\x1b[2J".toList

/-- The tools that know two segments: `{}`, and a header whose algorithm is `erase`. -/
def inspectTools : InspectTools :=
  { print := { plainTools with
      json := { plainTools.json with
        pretty := fun value => (jsonChars value).filter fun c => !isControl c || 0x7f ≤ c.toNat } }
    jwt :=
      { decodeUrl := fun segment =>
          if segment = "e30".toList then .ok (Utf8.encode "\x7b\x7d".toList)
          else if segment = "eyJhbGciOiJcdTAwMWJbMkoifQ".toList then
            .ok (Utf8.encode "\x7b\"alg\":\"\\u001b[2J\"\x7d".toList)
          else .error "Invalid byte".toList
        parseJson := fun bytes =>
          if bytes = Utf8.encode "\x7b\x7d".toList then .ok (.object [])
          else .ok (.object [("alg".toList, .string erase)])
        jsonText := fun _ => []
        secondsToMs := fun _ => 0
        positive := fun _ => false } }

/-- The JSON printer of the sample escapes the C0 controls. -/
theorem inspectTools_escapesC0 : EscapesC0 inspectTools.print.json where
  only := by
    intro value c hc hcontrol
    obtain ⟨hmem, hkept⟩ := List.mem_filter.mp hc
    rw [hcontrol, Bool.not_true, Bool.false_or, decide_eq_true_eq] at hkept
    exact ⟨hkept, hmem⟩
  verbatim := by
    intro value c hc hhigh
    refine List.mem_filter.mpr ⟨hc, ?_⟩
    rw [decide_eq_true hhigh, Bool.or_true]

/-- A token without an algorithm, and one whose algorithm is `erase`. -/
def plainToken : Text := "e30.e30.c2ln".toList

/-- A token whose algorithm is an escape sequence. -/
def erasingToken : Text := "eyJhbGciOiJcdTAwMWJbMkoifQ.e30.c2ln".toList

/-- The plain token of the sample has no claims. -/
theorem decodeAt_plainToken : Jwt.decodeAt inspectTools.jwt plainToken 0
    = .ok ⟨.object [], .object [], "c2ln".toList, [.noExpiry]⟩ := by
  rfl

/-- The token of the sample shows its escape sequence when it is decoded. -/
theorem decodeAt_erasingToken : Jwt.decodeAt inspectTools.jwt erasingToken 0
    = .ok ⟨.object [("alg".toList, .string erase)], .object [], "c2ln".toList, [.noExpiry]⟩ := by
  rfl

/-- A token without an algorithm is harmless. -/
theorem terminal_iff_plain : HarmlessToken inspectTools 0 0 false plainToken := by
  refine ((@terminal_iff inspectTools (fun _ _ _ _ hc => absurd hc List.not_mem_nil)
    inspectTools_escapesC0).2.1 0 0 false plainToken).mpr fun jwt hjwt => ?_
  rw [decodeAt_plainToken] at hjwt
  obtain rfl := Except.ok.inj hjwt
  exact ⟨Clean.nil, Clean.nil⟩

/-- An event whose name is `erase`. -/
def erasingEvent : Sse.Event := { name := some erase, data := ['x'], id := none, retryMs := none }

/-- A stream that was cut off after the event. -/
def erasingStream : Except EngineError StreamOutcome × Watched Unit Sse.Event :=
  (.error (.transport []), { engine := .fresh, seen := [erasingEvent] })

/-- A terminal with colours. -/
def colourTerminal : Terminal :=
  { tools := inspectTools.print, style := .detect true false, osError := id }

/-- A captured response whose status text is `erase`. -/
def erasingCapture : Capture :=
  { id := "c1".toList, atMs := 0, durationMs := 0, session := none, page := none
    request := { method := "GET".toList, url := "https://api.test/".toList, httpVersion := []
                 headers := .empty, body := none }
    response := some { status := 200, statusText := erase, headers := .empty, body := none } }

/-- A HAR without entries from a creator whose name is `erase`. -/
def erasingHar : Har.Log :=
  { version := Har.harVersion, creator := ⟨erase, []⟩, entries := [], comment := none }

/-- **Each of the four commands prints the sequence that erases the screen.** -/
theorem not_terminal_erase :
    ¬ QuietStream colourTerminal (.new []) ⟨10, 60⟩ 0 erasingStream
    ∧ ¬ HarmlessToken inspectTools 0 0 false erasingToken
    ∧ ¬ HarmlessCapture inspectTools.print erasingCapture
    ∧ ¬ QuietImport id [] 0 colourTerminal.style "a.har".toList erasingHar := by
  have hnumbers : inspectTools.print.PrintsNumbers :=
    fun _ _ _ _ hc => absurd hc List.not_mem_nil
  have herase : ¬ Clean erase := by decide
  refine ⟨fun h => ?_, fun h => ?_, fun h => ?_, fun h => ?_⟩
  · exact herase ((controls_streamLines_iff rfl _ _ _ _).mp h erasingEvent List.mem_cons_self)
  · have hquiet := (jwtCommand_harmless_iff hnumbers inspectTools_escapesC0 0 0 false
      erasingToken).mp h _ decodeAt_erasingToken
    exact herase hquiet.1
  · exact herase ((printCapture_harmless_iff inspectTools.print erasingCapture).mp h _ rfl)
  · exact herase ((quietImport_iff id [] 0 colourTerminal.style "a.har".toList erasingHar).mp h rfl)

end Gabriel.Cli
