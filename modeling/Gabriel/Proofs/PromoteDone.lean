import Gabriel.Proofs.PromoteRun
import Gabriel.Proofs.Store

/-!
# `Gabriel.Proofs.PromoteDone`: a promotion whose writes are done

`promote_done` is the other direction of `promote_ok`: a plan with an accepted path is carried out
when every write is done and the vault and the environment can be read (`CanFinish`). With both, a
statement about all runs can be tested on one.

* `saveRequest_done`, `storeSecrets_done`, `recordVars_done`: the three steps, when all is done.
* `planned_of_found`: a plan from what was found.
* `promote_done`: the command.

The small collection at the end is what the runs on fixed inputs start from.
-/

set_option autoImplicit false

namespace Gabriel.Cli

open Gabriel.Core Gabriel.Proxy Text Fallible

variable {tools : PromoteTools} {args : PromoteArgs} {disk : Disk}

/-- Every write is done. -/
def allDone : PromoteFates :=
  { request := fun _ => .done
    vault := { newKey := none, newVault := .done, save := .done }
    environment := fun _ => .done }

/-- Saving to a path that is accepted. -/
theorem saveRequest_done (collection : Collection) {rel id : Text} (spec : RequestSpec)
    (disk : Disk) (hid : sanitizeRequestPath tools.rules rel = .ok id) :
    ∃ saved, saved.2.id = id ∧
      exec (saveRequest tools.rules allDone.request collection rel spec) disk
        = (.ok saved, disk.putRequest id (.ok spec)) := by
  unfold saveRequest
  simp only [hid, allDone, exec_bind, exec_modify, exec_pure]
  exact ⟨_, rfl, rfl⟩

/-- Storing credentials in a vault that opens, or that can be created. -/
theorem storeSecrets_done {secrets : List (Text × Text)} (disk : Disk)
    (h : secrets = [] ∨ (openable disk.vault).isSome = true) :
    ∃ vault, exec (storeSecrets allDone secrets) disk = (.ok (), { disk with vault }) := by
  unfold storeSecrets
  by_cases hsecrets : secrets = []
  · rw [if_pos hsecrets]
    exact ⟨disk.vault, rfl⟩
  · rw [if_neg hsecrets]
    have hopen := h.resolve_left hsecrets
    unfold addSecrets openVault
    cases hvault : disk.vault with
    | none =>
      simp only [exec_bind, exec_get, hvault, allDone, saveVault, exec_modify, exec_pure]
      exact ⟨_, rfl⟩
    | some file =>
      cases file with
      | error message =>
        rw [hvault] at hopen
        exact absurd hopen (by simp [openable])
      | ok found =>
        simp only [exec_bind, exec_get, hvault, allDone, saveVault, exec_modify, exec_pure]
        exact ⟨_, rfl⟩

/-- Recording one variable at most in an environment that can be read. -/
theorem recordVars_done {vars : List (Text × Text)} (disk : Disk)
    (hvars : vars = [] ∨ ∃ key value, vars = [(key, value)])
    (h : ∀ name, args.env = some name → vars ≠ [] →
      ∃ environment, environmentOrNew disk.environments name = .ok environment) :
    ∃ disk', exec (recordVars allDone args.env vars) disk = (.ok (), disk') := by
  unfold recordVars
  cases henv : args.env with
  | none => exact ⟨disk, rfl⟩
  | some name =>
    rcases hvars with rfl | ⟨key, value, rfl⟩
    · exact ⟨disk, rfl⟩
    · obtain ⟨environment, hread⟩ := h name henv (List.cons_ne_nil _ _)
      simp only [List.forM_cons, List.forM_nil, setEnvironmentVar]
      cases hbinds : environment.binds key with
      | true =>
        simp only [exec_bind, exec_get, hread, hbinds, if_true, exec_pure]
        exact ⟨_, rfl⟩
      | false =>
        simp only [exec_bind, exec_get, hread, hbinds, allDone, Bool.false_eq_true, if_false,
          exec_modify, exec_pure]
        exact ⟨_, rfl⟩

/-- What the command needs from the disk after the request was saved. -/
structure CanFinish (args : PromoteArgs) (disk : Disk) (promotion : Promotion) : Prop where
  vault : promotion.secrets = [] ∨ (openable disk.vault).isSome = true
  environment : ∀ name, args.env = some name → promotion.vars ≠ [] →
    ∃ environment, environmentOrNew disk.environments name = .ok environment

/-- A plan with an accepted path is carried out when every write is done. -/
theorem promote_done {plan : PromotePlan} {id : Text} (hplanned : Planned tools disk args plan)
    (hid : sanitizeRequestPath tools.rules plan.path = .ok id)
    (hfinish : CanFinish args disk plan.promotion) :
    ∃ entry disk', exec (promote tools allDone args) disk = (.ok entry, disk') ∧
      entry.id = id := by
  rw [exec_promote_of_planned hplanned]
  obtain ⟨saved, hsaved, hsave⟩ := saveRequest_done plan.collection plan.promotion.spec disk hid
  obtain ⟨vault, hstore⟩ := storeSecrets_done
    (disk.putRequest id (.ok plan.promotion.spec)) hfinish.vault
  obtain ⟨disk', hrecord⟩ := recordVars_done
    { disk.putRequest id (.ok plan.promotion.spec) with vault } hplanned.vars hfinish.environment
  refine ⟨saved.2, disk', ?_, hsaved⟩
  unfold savePromotion
  rw [exec_bind_ok (exec_adapt_eq_ok.mpr hsave), exec_bind_ok hstore,
    exec_bind_ok (exec_adapt_eq_ok.mpr hrecord), exec_pure]

/-- A plan from what was found. -/
theorem planned_of_found {content : List UInt8} {collection : Collection} {capture : Capture}
    {promotion : Promotion}
    (hlog : disk.captures = some content) (hload : disk.load = .ok collection)
    (hfound : ((CaptureStore.newestFirst tools.parse content).find? fun capture =>
      decide (capture.id = args.id ∨ args.id <+: capture.id)) = some capture)
    (hchosen : choosePromotion tools disk.environments args capture = some promotion)
    (hfree : replaces tools.lower collection (savePath args collection promotion) = none) :
    Planned tools disk args ⟨collection, capture, promotion, savePath args collection promotion⟩ :=
  ⟨hload, by rw [hlog, CaptureStore.get_eq, hfound], hchosen, rfl, fun _ => hfree⟩

/-! ### A small collection -/

/-- A line of the capture log, for a capture whose texts need no escape. -/
def sampleLine (capture : Capture) : Text :=
  let quoted (t : Text) : Text := '"' :: t ++ ['"']
  let headers := capture.request.headers.iterPairs.map fun h => quoted h.1 ++ ':' :: quoted h.2
  "\x7b\"id\":".toList ++ quoted capture.id
    ++ ",\"at\":0,\"duration_ms\":0,\"session\":\"work\",".toList
    ++ "\"request\":\x7b\"method\":\"GET\",\"url\":".toList ++ quoted capture.request.url
    ++ ",\"headers\":\x7b".toList ++ List.intercalate [','] headers ++ "\x7d\x7d\x7d".toList

/-- Tools that decode the lines of some captures. -/
def sampleTools (captures : List Capture) : PromoteTools :=
  { rules := .unix, lower := asciiLower, upper := asciiUpper, clock := fun _ => 0
    parse := fun line => captures.find? fun capture => Utf8.encode (sampleLine capture) = line }

/-- A collection with a log, without requests, environments and variables. -/
def sampleDisk (captures : List Capture) : Disk :=
  { root := .ok "gabriel".toList
    manifest := .ok
      { name := none, vars := .empty, defaults := ⟨.empty, none, none⟩ }
    requests := ⟨[], List.nodup_nil⟩
    environments := ⟨[], fun _ => none⟩
    captures := some (captures.flatMap fun capture =>
      Utf8.encode (sampleLine capture) ++ [CaptureStore.newline])
    vault := none }

/-- The collection that is loaded from such a disk. -/
def sampleCollection : Collection :=
  { root := "gabriel".toList
    manifest := { name := none, vars := .empty, defaults := ⟨.empty, none, none⟩ }
    requests := [], problems := [] }

end Gabriel.Cli
