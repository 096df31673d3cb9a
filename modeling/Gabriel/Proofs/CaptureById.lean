import Gabriel.Proofs.TornLog

/-!
# `Gabriel.Proofs.CaptureById`: one capture of the log by its id

A capture is named by its id or by a prefix of the id that no other id has. `selected` is that
rule. The backward scan stops at the first id with the prefix, whether it is the whole id or not,
and whether another id has the prefix too. So the rule needs a condition on the log
(`Unambiguous`): an id that is named in full is not extended by the id of a newer capture, and a
prefix that is not an id belongs to one id only.

The scan is `get_eq_head?`, and the rest is about lists of captures, newest first. The theorems:

* `get_eq_head?`: the scan finds the newest capture whose id has the prefix.
* `head?_withPrefix_eq_iff`: when that one has the whole id.
* `get_selects_iff`: for every log and argument, the scan selects by the rule exactly when the ids
  leave no doubt.
* `get_listed_of_length`: in a log whose ids have one length, an id selects the newest capture that
  is listed with it.
-/

set_option autoImplicit false

namespace Gabriel.Proxy

open Gabriel.Core Text

namespace CaptureStore

/-- The captures of a log file, newest first. -/
def captures (parse : List UInt8 → Option Capture) (file : Option (List UInt8)) : List Capture :=
  (file.map (newestFirst parse)).getD []

/-- The captures whose id has a prefix. -/
def withPrefix (log : List Capture) (arg : Text) : List Capture :=
  log.filter fun capture => decide (arg <+: capture.id)

/-- The capture that an argument names: the newest one with this id, or the newest one of the
only id that has it as a prefix. -/
def selected (log : List Capture) (arg : Text) : Option Capture :=
  match log.find? fun capture => decide (capture.id = arg) with
  | some capture => some capture
  | none =>
    if ∀ a ∈ withPrefix log arg, ∀ b ∈ withPrefix log arg, a.id = b.id then
      (withPrefix log arg).head?
    else none

/-- The ids of a log, newest first, leave no doubt about an argument. -/
structure Unambiguous (log : List Capture) (arg : Text) : Prop where
  /-- When the argument is an id, a capture of a longer id is older than one of this id. -/
  exact : arg ∈ log.map Capture.id → ∀ newer capture older, log = newer ++ capture :: older →
    arg <+: capture.id → capture.id = arg ∨ arg ∈ newer.map Capture.id
  /-- When it is not, one id at most has it as a prefix. -/
  unique : arg ∉ log.map Capture.id →
    ∀ a ∈ withPrefix log arg, ∀ b ∈ withPrefix log arg, a.id = b.id

/-- The scan finds the newest capture whose id has the prefix. -/
theorem get_eq_head? (parse : List UInt8 → Option Capture) (file : Option (List UInt8))
    (arg : Text) : get parse file arg = (withPrefix (captures parse file) arg).head? := by
  have hfits : ∀ capture : Capture,
      decide (capture.id = arg ∨ arg <+: capture.id) = decide (arg <+: capture.id) := by
    intro capture
    refine decide_eq_decide.mpr ⟨?_, Or.inr⟩
    rintro (rfl | h)
    · exact List.prefix_rfl
    · exact h
  cases file with
  | none => rfl
  | some content =>
    rw [get_eq, funext hfits]
    exact List.head?_filter.symm

/-- The newest capture with the prefix has the whole id exactly when no newer capture has a
longer one. -/
theorem head?_withPrefix_eq_iff {log : List Capture} {arg : Text} {capture : Capture}
    (h : (log.find? fun capture => decide (capture.id = arg)) = some capture) :
    (withPrefix log arg).head? = some capture ↔
      ∀ newer capture older, log = newer ++ capture :: older → arg <+: capture.id →
        capture.id = arg ∨ arg ∈ newer.map Capture.id := by
  rw [withPrefix, List.head?_filter]
  constructor
  · intro hfirst newer capture' older hlog hfits
    have hid : capture.id = arg := by simpa using List.find?_some h
    obtain ⟨-, before, after, hcut, hbefore⟩ := List.find?_eq_some_iff_append.mp hfirst
    rw [hcut] at hlog
    rcases List.append_eq_append_iff.mp hlog with ⟨between, rfl, hrest⟩ | ⟨between, rfl, hrest⟩
    · cases between with
      | nil => exact Or.inl ((List.cons.inj hrest).1 ▸ hid)
      | cons next between =>
        obtain ⟨rfl, -⟩ := List.cons.inj hrest
        refine Or.inr (List.mem_map.mpr ⟨capture, ?_, hid⟩)
        exact List.mem_append_right _ List.mem_cons_self
    · cases between with
      | nil => exact Or.inl ((List.cons.inj hrest).1 ▸ hid)
      | cons next between =>
        -- It is newer than the first capture with the prefix.
        obtain ⟨rfl, -⟩ := List.cons.inj hrest
        have hno := hbefore capture' (List.mem_append_right _ List.mem_cons_self)
        simp [hfits] at hno
  · intro hall
    cases hfirst : log.find? fun capture => decide (arg <+: capture.id) with
    | none =>
      have hid : capture.id = arg := by simpa using List.find?_some h
      have hno := List.find?_eq_none.mp hfirst capture (List.mem_of_find?_eq_some h)
      simp [hid] at hno
    | some first =>
      obtain ⟨hfits, before, after, hcut, hbefore⟩ := List.find?_eq_some_iff_append.mp hfirst
      have hnone : ∀ a ∈ before, a.id ≠ arg := by
        intro a ha hid
        have hno := hbefore a ha
        simp [hid] at hno
      -- The first one with the prefix has the id, and so it is the first one with the id.
      have hid : first.id = arg := by
        rcases hall before first after hcut (of_decide_eq_true hfits) with hid | hmem
        · exact hid
        · obtain ⟨a, ha, hid⟩ := List.mem_map.mp hmem
          exact absurd hid (hnone a ha)
      rw [← h]
      refine (List.find?_eq_some_iff_append.mpr ⟨by simpa using hid, before, after, hcut, ?_⟩).symm
      intro a ha
      simpa using hnone a ha

/-- **A capture is selected by its id or by a unique prefix of it exactly when the ids of the log
leave no doubt about the argument.** -/
theorem get_selects_iff (parse : List UInt8 → Option Capture) (file : Option (List UInt8))
    (arg : Text) :
    get parse file arg = selected (captures parse file) arg ↔
      Unambiguous (captures parse file) arg := by
  rw [get_eq_head?]
  generalize captures parse file = log
  unfold selected
  -- An exact id comes first in the claim, and the source takes the first prefix hit.
  cases h : log.find? fun capture => decide (capture.id = arg) with
  | some capture =>
    have hmem : arg ∈ log.map Capture.id := List.mem_map.mpr
      ⟨capture, List.mem_of_find?_eq_some h, by simpa using List.find?_some h⟩
    rw [head?_withPrefix_eq_iff h]
    exact ⟨fun hall => ⟨fun _ => hall, fun hno => absurd hmem hno⟩, fun hlog => hlog.exact hmem⟩
  -- Without one the prefix hits decide alone.
  | none =>
    have hno : arg ∉ log.map Capture.id := by
      intro hmem
      obtain ⟨capture, hcapture, hid⟩ := List.mem_map.mp hmem
      exact List.find?_eq_none.mp h capture hcapture (decide_eq_true hid)
    dsimp only
    -- The hits are of one id, or the claim selects nothing while the source does.
    by_cases hsame : ∀ a ∈ withPrefix log arg, ∀ b ∈ withPrefix log arg, a.id = b.id
    · rw [if_pos hsame]
      exact iff_of_true rfl ⟨fun hmem => absurd hmem hno, fun _ => hsame⟩
    · rw [if_neg hsame]
      refine iff_of_false ?_ fun hlog => hsame (hlog.unique hno)
      intro hnone
      rw [List.head?_eq_none_iff.mp hnone] at hsame
      exact hsame fun a ha => absurd ha List.not_mem_nil

/-- Two captures of one millisecond. -/
def sharedCaptures : List Capture := ["c19c0001".toList, "c19c0002".toList].map pageCapture

/-- A decoder of their lines. -/
def sharedParse (line : List UInt8) : Option Capture :=
  sharedCaptures.find? fun capture => pageLine capture = line

/-- The log of the two captures. -/
def sharedLog : List UInt8 := sharedCaptures.flatMap fun capture => pageLine capture ++ [newline]

/-- By the prefix that they share, the newer one is found. -/
theorem not_get_selects_shared :
    get sharedParse (some sharedLog) "c19c000".toList
      ≠ selected (captures sharedParse (some sharedLog)) "c19c000".toList := by
  decide +kernel

/-- In a log whose ids have one length, an id selects the newest capture listed with it. -/
theorem get_listed_of_length {parse : List UInt8 → Option Capture} {file : Option (List UInt8)}
    {n : Nat} (h : ∀ capture ∈ captures parse file, capture.id.length = n) {capture : Capture}
    (hcapture : capture ∈ captures parse file) :
    get parse file capture.id
      = (captures parse file).find? fun other => decide (other.id = capture.id) := by
  have hsame : ∀ other ∈ captures parse file,
      decide (capture.id <+: other.id) = decide (other.id = capture.id) := by
    intro other hother
    refine decide_eq_decide.mpr ⟨fun hfits => ?_, fun hid => hid ▸ List.prefix_rfl⟩
    exact (hfits.eq_of_length ((h capture hcapture).trans (h other hother).symm)).symm
  rw [get_eq_head?, withPrefix, List.filter_congr hsame, List.head?_filter]

end CaptureStore

end Gabriel.Proxy
