import Gabriel.Proofs.PromoteDone

/-!
# `Gabriel.Proofs.AllOrNothing`: what a promotion that fails leaves behind

`promote` has no way back. What it does in place of an all-or-nothing write is said of every run:
an error up to the first write leaves everything as it was (`WritesNothing`), and a later error
leaves what was written before it, in the order of the request file, the vault and the environment
file. The disk is looked at as it is after the run, so nothing depends on the message of the error.

The proof goes along the writes of a plan: each of them is one case of where the error may come
from, and the writes behind it do not happen. The theorems:

* `promote_error_left`: for every capture, every plan and every place of the error, what is on disk
  after a run that fails.
* `not_allOrNothing_locked`: a run of a capture in a collection whose vault does not open saves the
  request file and then fails, so a failed run is not without effect.
-/

set_option autoImplicit false

namespace Gabriel.Cli

open Gabriel.Core Gabriel.Proxy Text Fallible

section AllOrNothing

variable (tools : PromoteTools) (fates : PromoteFates) (args : PromoteArgs)

/-- A run that fails leaves everything as it was. -/
def AllOrNothing (disk : Disk) : Prop :=
  ∀ error disk', exec (promote tools fates args) disk = (.error error, disk') →
    disk'.requests = disk.requests ∧ disk'.vault = disk.vault ∧
      disk'.environments = disk.environments

/-- The first write is refused before it has changed anything, or does not come. -/
def WritesNothing (disk : Disk) : Prop :=
  ∀ plan id, Planned tools disk args plan → sanitizeRequestPath tools.rules plan.path = .ok id →
    ∃ message, fates.request id = .refused message

variable {tools fates args} {disk disk' : Disk}

/-- A run that fails takes nothing back. Up to its first write everything is as it was. After
that, what was written stays, in the order of the request file, the vault and the environment
file; the write that failed may have left something else in its own file, and the rest of the
disk is as it was. -/
theorem promote_error_left {error : CliError}
    (h : exec (promote tools fates args) disk = (.error error, disk')) :
    LeftBehind tools fates args disk disk' ∧
      (WritesNothing tools fates args disk → disk' = disk) := by
  have hleft := leftBehind_of_error h
  refine ⟨hleft, ?_⟩
  intro hnothing
  cases hleft with
  | planning hno => rfl
  | path hplanned hpath => rfl
  | request hplanned hid hrefused => rfl
  | requestTorn hplanned hid htorn =>
    obtain ⟨message, hrefused⟩ := hnothing _ _ hplanned hid
    exact absurd (htorn.symm.trans hrefused) (by simp)
  | vault hplanned hid hdone hsecrets hvault =>
    obtain ⟨message, hrefused⟩ := hnothing _ _ hplanned hid
    exact absurd (hdone.symm.trans hrefused) (by simp)
  | environment hplanned hid hdone hopened henv hvars hleft =>
    obtain ⟨message, hrefused⟩ := hnothing _ _ hplanned hid
    exact absurd (hdone.symm.trans hrefused) (by simp)

end AllOrNothing

/-- The collection with a vault that does not open. -/
def lockedDisk : Disk :=
  { sampleDisk [Capture.bearerCapture] with
    vault := some (.error "wrong passphrase, or the vault has been tampered with".toList) }

/-- What promoting the capture plans. -/
def lockedPromotion : Promotion :=
  (choosePromotion (sampleTools [Capture.bearerCapture]) lockedDisk.environments
    { id := "cap_1".toList } Capture.bearerCapture).get (by decide +kernel)

/-- The request is promoted. -/
theorem planned_locked : Planned (sampleTools [Capture.bearerCapture]) lockedDisk
    { id := "cap_1".toList }
    ⟨sampleCollection, Capture.bearerCapture, lockedPromotion,
      savePath { id := "cap_1".toList } sampleCollection lockedPromotion⟩ :=
  planned_of_found rfl rfl (by decide +kernel) (Option.some_get _).symm (by decide +kernel)

/-- A run of the capture in that collection. -/
def lockedRun : Except CliError RequestEntry × Disk :=
  exec (promote (sampleTools [Capture.bearerCapture]) allDone { id := "cap_1".toList }) lockedDisk

/-- It fails, and the request file is there. -/
theorem lockedRun_left : ∃ error disk', lockedRun = (.error error, disk') ∧
    disk'.requests.files.length = 1 := by
  have hexec : lockedRun = exec (savePromotion _ allDone _ _) lockedDisk :=
    exec_promote_of_planned planned_locked
  have hfails : lockedRun.1.toOption.isSome = false := by
    rw [hexec]
    decide +kernel
  have hwritten : lockedRun.2.requests.files.length = 1 := by
    rw [hexec]
    decide +kernel
  rcases hrun : lockedRun with ⟨error | entry, disk'⟩
  · rw [hrun] at hwritten
    exact ⟨error, disk', rfl, hwritten⟩
  · rw [hrun] at hfails
    exact absurd hfails (by simp [Except.toOption])

/-- The vault does not open, and the request was saved. -/
theorem not_allOrNothing_locked : ¬ AllOrNothing (sampleTools [Capture.bearerCapture]) allDone
    { id := "cap_1".toList } lockedDisk := by
  intro hall
  obtain ⟨error, disk', hrun, hwritten⟩ := lockedRun_left
  rw [(hall error disk' hrun).1] at hwritten
  exact absurd hwritten (by decide)

/-- What is left behind when the vault does not open. -/
theorem promote_error_left_locked : ∃ error disk', lockedRun = (.error error, disk') ∧
    LeftBehind (sampleTools [Capture.bearerCapture]) allDone { id := "cap_1".toList } lockedDisk
      disk' := by
  obtain ⟨error, disk', hrun, -⟩ := lockedRun_left
  exact ⟨error, disk', hrun, (promote_error_left hrun).1⟩

end Gabriel.Cli
