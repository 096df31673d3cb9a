import Gabriel.Engine.ResponseDiff
import Gabriel.Proofs.Diff
import Gabriel.Proofs.HeaderValues

/-!
# `Gabriel.Proofs.ResponseDiff`: does the diff of two responses find every difference?

The status and the bodies are compared as a whole. Headers are compared pair by pair with the first
value of the other side, so the diff sees a name when it is `SeenHeader`: some value of the first
response is not the first value of the second, or only the second response has the name.

A name whose values differ is found when it is seen (`OpenHeader`), and lost when it is not
(`HiddenHeader`). A name with equal values that is seen all the same is a `FalseAlarm`. The diff of
two responses is empty or not, so a lost name costs nothing when another difference is found. The
theorems:

* `diffHeaders_eq_nil_iff`: no header is reported exactly when no interesting name is seen.
* `headers_exact_iff`: when the diff of the headers and their values agree.
* `exact_of_single`: without repeated headers nothing is hidden, and there is no false alarm.
* `diffResponses_body_eq_nil_iff`, `diffResponses_isEmpty`: the bodies, and the three parts.
* `diff_exact_iff`: for every pair of responses, when the diff finds exactly the differences.
-/

set_option autoImplicit false

namespace Gabriel.Engine

open Gabriel.Core Gabriel.Core.Diff Text

/-! ### Headers -/

section Headers

variable (before after : FieldMap)

/-- What the diff looks at for a name: a value that is not the first one of the other side, or a
name of the second side only. -/
def SeenHeader (name : Text) : Prop :=
  (∃ v ∈ before.headerValues name, after.getFirst name ≠ some v)
    ∨ after.headerValues name ≠ [] ∧ before.containsKey name = false

/-- The values of a name differ, and the diff sees it. -/
def OpenHeader (name : Text) : Prop :=
  interesting name = true ∧ before.headerValues name ≠ after.headerValues name
    ∧ SeenHeader before after name

/-- The values of a name differ, and the diff does not see it. -/
def HiddenHeader (name : Text) : Prop :=
  interesting name = true ∧ before.headerValues name ≠ after.headerValues name
    ∧ ¬ SeenHeader before after name

/-- The values of a name are equal, and the diff reports it. -/
def FalseAlarm (name : Text) : Prop :=
  interesting name = true ∧ before.headerValues name = after.headerValues name
    ∧ SeenHeader before after name

variable {before after}

/-- Whether a header is interesting does not depend on its case. -/
theorem interesting_congr {name name' : Text} (h : asciiLower name = asciiLower name') :
    interesting name = interesting name' := by
  unfold interesting
  rw [h]

/-- A pair is no change. -/
theorem headerChange_eq_none_iff {key value : Text} :
    headerChange after key value = none
      ↔ (interesting key = true → after.getFirst key = some value) := by
  unfold headerChange
  cases hkey : interesting key with
  | false => exact iff_of_true rfl fun h => absurd h Bool.false_ne_true
  | true =>
    rw [Bool.not_true, if_neg Bool.false_ne_true, forall_prop_of_true rfl]
    cases after.getFirst key with
    | none => exact iff_of_false (Option.some_ne_none _) (Option.some_ne_none _).symm
    | some other =>
      dsimp only
      rw [Option.some.injEq]
      by_cases hvalue : other = value
      · rw [if_pos hvalue]
        exact iff_of_true rfl hvalue
      · rw [if_neg hvalue]
        exact iff_of_false (Option.some_ne_none _) hvalue

/-- **No header is reported exactly when no interesting name is seen.** -/
theorem diffHeaders_eq_nil_iff :
    diffHeaders before after = [] ↔ ∀ name, interesting name = true
        → ¬ SeenHeader before after name := by
  -- The changes come from both lists: a pair of the first, or a new name of the second.
  have hchanges : diffHeaders before after = []
      ↔ (∀ e ∈ before.iterPairs, headerChange after e.1 e.2 = none)
        ∧ ∀ e ∈ after.iterPairs, interesting e.1 = true → before.containsKey e.1 = true := by
    unfold diffHeaders
    rw [List.destutter_eq_nil, ← List.length_eq_zero_iff, List.length_insertionSort,
      List.length_eq_zero_iff, List.append_eq_nil_iff, List.filterMap_eq_nil_iff,
      List.map_eq_nil_iff, List.filter_eq_nil_iff]
    refine and_congr_right fun _ => forall₂_congr fun e _ => ?_
    cases interesting e.1 <;> cases before.containsKey e.1 <;> decide
  rw [hchanges]
  constructor
  -- A name that is seen is interesting in both spellings, so a pair of it would be reported.
  · rintro ⟨hfirst, hnew⟩ name hname (⟨v, hv, hother⟩ | ⟨hvalues, hkey⟩)
    · obtain ⟨key, hlower, hmem⟩ := FieldMap.mem_headerValues.mp hv
      rw [← after.getFirst_congr hlower] at hother
      exact hother (headerChange_eq_none_iff.mp (hfirst _ hmem)
        (interesting_congr hlower ▸ hname))
    · obtain ⟨v, hv⟩ := List.exists_mem_of_ne_nil _ hvalues
      obtain ⟨key, hlower, hmem⟩ := FieldMap.mem_headerValues.mp hv
      rw [← before.containsKey_congr hlower, hnew _ hmem (interesting_congr hlower ▸ hname)] at hkey
      exact absurd hkey.symm Bool.false_ne_true
  · intro hnone
    -- A pair that is reported makes its own name seen.
    refine ⟨fun e he => headerChange_eq_none_iff.mpr fun hname => ?_, fun e he hname => ?_⟩
    · by_contra hother
      exact hnone e.1 hname (.inl ⟨e.2, FieldMap.mem_headerValues.mpr ⟨e.1, rfl, he⟩, hother⟩)
    · by_contra hkey
      have hmem : e.2 ∈ after.headerValues e.1 := FieldMap.mem_headerValues.mpr ⟨e.1, rfl, he⟩
      exact hnone e.1 hname
        (.inr ⟨List.ne_nil_of_mem hmem, Bool.eq_false_iff.mpr hkey⟩)

/-- The diff and the values agree when a difference is in the open, or when a hidden one and a
false alarm come together or not at all. -/
theorem headers_exact_iff :
    ((∀ name, interesting name = true → ¬ SeenHeader before after name)
        ↔ ∀ name, interesting name = true → before.headerValues name = after.headerValues name)
      ↔ (∃ name, OpenHeader before after name)
        ∨ ((∃ name, HiddenHeader before after name) ↔ ∃ name, FalseAlarm before after name) := by
  unfold OpenHeader HiddenHeader FalseAlarm
  by_cases hopen : ∃ name, interesting name = true
      ∧ before.headerValues name ≠ after.headerValues name ∧ SeenHeader before after name
  -- An open difference is reported and is there, so both sides are false.
  · obtain ⟨name, hname, hvalues, hseen⟩ := hopen
    exact iff_of_true (iff_of_false (fun h => h name hname hseen) fun h => hvalues (h name hname))
      (.inl ⟨name, hname, hvalues, hseen⟩)
  -- Without one, what is seen has equal values: every report is a false alarm.
  · have hnot : ∀ name, interesting name = true → SeenHeader before after name →
        before.headerValues name = after.headerValues name := fun name hname hseen =>
      Classical.not_not.mp fun hvalues => hopen ⟨name, hname, hvalues, hseen⟩
    have halarm : (∀ name, interesting name = true → ¬ SeenHeader before after name)
        ↔ ¬ ∃ name, interesting name = true
          ∧ before.headerValues name = after.headerValues name ∧ SeenHeader before after name :=
      ⟨fun h ⟨name, hname, _, hseen⟩ => h name hname hseen,
        fun h name hname hseen => h ⟨name, hname, hnot name hname hseen, hseen⟩⟩
    -- And what differs is not seen: every difference is hidden.
    have hhidden : (∀ name, interesting name = true →
          before.headerValues name = after.headerValues name)
        ↔ ¬ ∃ name, interesting name = true
          ∧ before.headerValues name ≠ after.headerValues name ∧ ¬ SeenHeader before after name :=
      ⟨fun h ⟨name, hname, hvalues, _⟩ => hvalues (h name hname),
        fun h name hname => Classical.not_not.mp fun hvalues =>
          h ⟨name, hname, hvalues, fun hseen => hvalues (hnot name hname hseen)⟩⟩
    rw [halarm, hhidden, or_iff_right hopen, not_iff_not]
    exact iff_comm

/-- A name with at most one value on each side is seen exactly when its values differ. -/
theorem seenHeader_iff_of_single (hbefore : before.Full) (hafter : after.Full) {name : Text}
    (hone : (before.headerValues name).length ≤ 1) (hone' : (after.headerValues name).length ≤ 1) :
    SeenHeader before after name ↔ before.headerValues name ≠ after.headerValues name := by
  have hkey : before.containsKey name = false ↔ before.headerValues name = [] := by
    rw [← Bool.not_eq_true, FieldMap.containsKey_iff hbefore, not_not]
  unfold SeenHeader
  rw [FieldMap.getFirst_eq_head hafter, hkey]
  match before.headerValues name, after.headerValues name, hone, hone' with
  | [], [], _, _ => simp
  | [], [w], _, _ => simp
  | [v], [], _, _ => simp
  | [v], [w], _, _ => simp [eq_comm]

/-- **Without repeated headers the diff is exact**: nothing is hidden, and there is no false alarm.
-/
theorem exact_of_single (hbefore : before.Full) (hafter : after.Full)
    (hone : ∀ name, (before.headerValues name).length ≤ 1)
    (hone' : ∀ name, (after.headerValues name).length ≤ 1) :
    (∀ name, ¬ HiddenHeader before after name) ∧ ∀ name, ¬ FalseAlarm before after name := by
  have hseen := fun name => seenHeader_iff_of_single hbefore hafter (hone name) (hone' name)
  exact ⟨fun name h => h.2.2 ((hseen name).mpr h.2.1), fun name h => (hseen name).mp h.2.2 h.2.1⟩

end Headers

/-! ### Responses -/

section Responses

variable {platform : Platform} {before after : ExecutedResponse} {beforeMs afterMs : UInt64}

variable (platform) in
/-- The bodies are equal: as JSON when both are, as bytes otherwise. -/
def SameBody (before after : ExecutedResponse) : Prop :=
  match before.json platform, after.json platform with
  | some a, some b => a.same b = true
  | _, _ => before.body = after.body

variable (platform) in
/-- The responses are equal but for their volatile headers. -/
structure SameResponse (before after : ExecutedResponse) : Prop where
  status : before.status = after.status
  headers : ∀ name, interesting name = true →
    before.headers.headerValues name = after.headers.headerValues name
  body : SameBody platform before after

/-- The JSON library decodes objects in key order. -/
def DecodesOrdered (platform : Platform) : Prop :=
  ∀ bytes json, platform.parseJson bytes = .ok json → json.Ordered

/-- The JSON of a response has sorted keys when the library decodes so. -/
theorem json_ordered (h : DecodesOrdered platform) {response : ExecutedResponse} {json : Json}
    (hjson : response.json platform = some json) : json.Ordered := by
  unfold ExecutedResponse.json at hjson
  split at hjson
  · rename_i parsed hparsed
    exact h _ _ (Option.some.inj hjson ▸ hparsed)
  · exact absurd hjson.symm (Option.some_ne_none _)

/-- The diff of two bodies. -/
theorem diffResponses_body_eq_nil_iff (h : DecodesOrdered platform) :
    (diffResponses platform before after beforeMs afterMs).body = []
      ↔ SameBody platform before after := by
  have hopaque : ∀ text : Text, (if before.body ≠ after.body then
        [(⟨text, .changed (sizeText before.body) (sizeText after.body)⟩ : Change)] else []) = []
      ↔ before.body = after.body := by
    intro text
    by_cases hbody : before.body = after.body
    · rw [if_neg (not_not.mpr hbody)]
      exact iff_of_true rfl hbody
    · rw [if_pos hbody]
      exact iff_of_false (List.cons_ne_nil _ _) hbody
  unfold diffResponses SameBody
  cases hbefore : before.json platform with
  | none => exact hopaque _
  | some a =>
    cases hafter : after.json platform with
    | none => exact hopaque _
    | some b => exact walk_eq_nil_iff (json_ordered h hbefore) (json_ordered h hafter) []

/-- The headers of a diff. -/
theorem diffResponses_headers :
    (diffResponses platform before after beforeMs afterMs).headers
      = diffHeaders before.headers after.headers := by
  unfold diffResponses
  dsimp only
  split <;> rfl

/-- The statuses of a diff, when they differ. -/
theorem diffResponses_status :
    (diffResponses platform before after beforeMs afterMs).status
      = if before.status ≠ after.status then some (before.status, after.status) else none := by
  unfold diffResponses
  dsimp only
  split <;> rfl

/-- The three parts of an empty diff. -/
theorem diffResponses_isEmpty (h : DecodesOrdered platform) :
    (diffResponses platform before after beforeMs afterMs).isEmpty = true
      ↔ before.status = after.status
        ∧ (∀ name, interesting name = true → ¬ SeenHeader before.headers after.headers name)
        ∧ SameBody platform before after := by
  unfold ResponseDiff.isEmpty
  rw [Bool.and_eq_true_iff, Bool.and_eq_true_iff, List.isEmpty_iff, List.isEmpty_iff,
    Option.isNone_iff_eq_none, diffResponses_body_eq_nil_iff h, diffResponses_headers,
    diffResponses_status, diffHeaders_eq_nil_iff, and_assoc]
  refine and_congr_left fun _ => ?_
  by_cases hstatus : before.status = after.status
  · rw [if_neg (not_not.mpr hstatus)]
    exact iff_of_true rfl hstatus
  · rw [if_pos hstatus]
    exact iff_of_false (Option.some_ne_none _) hstatus

/-- **When the diff finds exactly the differences.** For every pair of responses the diff is empty
exactly when they are equal, if and only if the status or the bodies differ, or a header differs in
the open, or a hidden difference and a false alarm come together or not at all. -/
theorem diff_exact_iff (h : DecodesOrdered platform) :
    ((diffResponses platform before after beforeMs afterMs).isEmpty = true
        ↔ SameResponse platform before after)
      ↔ before.status ≠ after.status ∨ ¬ SameBody platform before after
        ∨ (∃ name, OpenHeader before.headers after.headers name)
        ∨ ((∃ name, HiddenHeader before.headers after.headers name)
          ↔ ∃ name, FalseAlarm before.headers after.headers name) := by
  rw [diffResponses_isEmpty h, ← headers_exact_iff]
  by_cases hstatus : before.status = after.status
  · by_cases hbody : SameBody platform before after
    · have hsame : SameResponse platform before after ↔ ∀ name, interesting name = true →
          before.headers.headerValues name = after.headers.headerValues name :=
        ⟨fun hsame => hsame.headers, fun hheaders => ⟨hstatus, hheaders, hbody⟩⟩
      rw [hsame, and_iff_right hstatus, and_iff_left hbody,
        or_iff_right (not_not.mpr hstatus), or_iff_right (not_not.mpr hbody)]
    · exact iff_of_true (iff_of_false (fun hempty => hbody hempty.2.2)
        fun hsame => hbody hsame.body) (.inr (.inl hbody))
  · exact iff_of_true (iff_of_false (fun hempty => hstatus hempty.1)
      fun hsame => hstatus hsame.status) (.inl hstatus)

end Responses

/-! ### Two pairs of responses -/

/-- A response with some values of `Vary`. -/
def varyResponse (values : List Text) : ExecutedResponse where
  status := 200
  statusText := []
  httpVersion := []
  headers := .fromIter (values.map fun value => ("vary".toList, value))
  body := []
  finalUrl := []

/-- Responses with two values each that differ in the open are compared exactly. -/
theorem diff_exact_vary :
    (diffResponses emptyPlatform (varyResponse ["origin".toList, "accept".toList])
      (varyResponse ["cookie".toList, "accept".toList]) 0 0).isEmpty = true
    ↔ SameResponse emptyPlatform (varyResponse ["origin".toList, "accept".toList])
      (varyResponse ["cookie".toList, "accept".toList]) := by
  have hjson : DecodesOrdered emptyPlatform := fun bytes json h =>
    absurd h (by simp [emptyPlatform])
  refine (diff_exact_iff hjson).mpr (.inr (.inr (.inl ⟨"vary".toList, ?_, ?_, ?_⟩)))
  · decide
  · decide
  · exact .inl ⟨"origin".toList, by decide, by decide⟩

/-- A response with two values of a header differs from itself. -/
theorem not_diff_exact_repeated :
    ¬ ((diffResponses emptyPlatform (varyResponse ["origin".toList, "accept".toList])
        (varyResponse ["origin".toList, "accept".toList]) 0 0).isEmpty = true
      ↔ SameResponse emptyPlatform (varyResponse ["origin".toList, "accept".toList])
        (varyResponse ["origin".toList, "accept".toList])) := by
  intro h
  exact absurd (h.mpr ⟨rfl, fun _ _ => rfl, rfl⟩) (by decide)

end Gabriel.Engine
