import Gabriel.Engine.SessionFile

/-!
# `Gabriel.Proofs.SessionFile`: updates of the session file by several processes

A save writes the copy of one process over the file. It keeps what the others saved when none of
them saved since that process last loaded or saved (`KeepsUp`). In such a run the file is the
initial one after all saved updates, in the order of the saves; so a saved cookie is there until a
later saved update touches it, and a session that was cleared holds nothing older (`Reflects`).

`InStep` is the invariant, for any number of processes: the file is the initial one after the saved
updates, and the copy of a current process is the file after its own. The theorems:

* `inStep_step`: one step of a run that keeps up.
* `file_eq`: the file after such a run.
* `mem_jar_absorbJar`, `mem_jar_of_absorbJar`: what one event does to the cookies of a jar.
* `reflects_foldl`: the store after some events reflects them.
* `sessionFile_reflects`: no update is lost between processes that keep up.
-/

set_option autoImplicit false

namespace Gabriel.Engine

open Gabriel.Core Text LastWrite

/-! ### Saved updates -/

/-- The updates that were saved, and those that each process has not saved. -/
structure Ledger where
  saved : List JarOp
  unsaved : Nat → List JarOp

/-- The books after a step. -/
def Ledger.step (ledger : Ledger) : FileStep → Ledger
  | .load process => { ledger with unsaved := Function.update ledger.unsaved process [] }
  | .update process op =>
    { ledger with
      unsaved := Function.update ledger.unsaved process (ledger.unsaved process ++ [op]) }
  | .save process =>
    { saved := ledger.saved ++ ledger.unsaved process
      unsaved := Function.update ledger.unsaved process [] }

/-- The updates that are saved in a run, in the order of the saves. -/
def savedOps (steps : List FileStep) : List JarOp :=
  (steps.foldl Ledger.step ⟨[], fun _ => []⟩).saved

/-- Whether a process has loaded, and no other one has saved since it last loaded or saved. -/
def currentAfter (current : Nat → Bool) : FileStep → Nat → Bool
  | .load process => Function.update current process true
  | .update _ _ => current
  | .save process => fun other => decide (other = process)

/-- The condition: whoever saves is current. -/
def KeepsUp : (Nat → Bool) → List FileStep → Prop
  | _, [] => True
  | current, step :: steps =>
    (∀ process, step = .save process → current process = true) ∧
      KeepsUp (currentAfter current step) steps

/-- What an event does to a cookie of a session: it drops or replaces it. -/
def JarEvent.Removes (event : JarEvent) (session : Text) (cookie : Cookie) : Prop :=
  match event.toOp session with
  | none => False
  | some (.put value _) => value.identity = cookie.identity
  | some .reset => True
  | some (.sieve keep) => keep cookie = false

/-- The file reflects the saved updates: a cookie that was stored, and had not expired then, is
there when no later update removes it; and every cookie of a session that was cleared was stored
after that. -/
structure Reflects (events : List JarEvent) (file : SessionStore) : Prop where
  kept : ∀ before session cookie nowMs after,
    events = before ++ .store session cookie nowMs :: after → cookie.isExpired nowMs = false →
    (∀ event ∈ after, ¬ event.Removes session cookie) → cookie ∈ file.jar session
  cleared : ∀ before session after, events = before ++ .clear session :: after →
    ∀ cookie ∈ file.jar session, ∃ nowMs, .store session cookie nowMs ∈ after

/-! ### The invariant -/

/-- The file is the initial one after the saved updates, and the copy of a current process is the
file after its own. -/
structure InStep (initial : SessionStore) (world : SessionFile) (ledger : Ledger)
    (current : Nat → Bool) : Prop where
  file : world.content = ledger.saved.foldl SessionStore.applyOp initial
  copy : ∀ process, current process = true → world.copy process
    = some ((ledger.unsaved process).foldl SessionStore.applyOp world.content)

/-- One step of a run that keeps up. -/
theorem inStep_step {initial : SessionStore} {world : SessionFile} {ledger : Ledger}
    {current : Nat → Bool} (h : InStep initial world ledger current) (step : FileStep)
    (hcurrent : ∀ process, step = .save process → current process = true) :
    InStep initial (world.step step) (ledger.step step) (currentAfter current step) := by
  cases step with
  | load process =>
    refine ⟨h.file, ?_⟩
    intro other hother
    show Function.update world.copy process (some world.content) other
      = some ((Function.update ledger.unsaved process [] other).foldl _ world.content)
    by_cases hsame : other = process
    · rw [hsame, Function.update_self, Function.update_self]
      rfl
    · have hother' : current other = true := by
        rw [← hother]
        exact (Function.update_of_ne hsame _ _).symm
      rw [Function.update_of_ne hsame, Function.update_of_ne hsame]
      exact h.copy other hother'
  | update process op =>
    refine ⟨h.file, ?_⟩
    intro other hother
    show Function.update world.copy process _ other
      = some ((Function.update ledger.unsaved process _ other).foldl _ world.content)
    by_cases hsame : other = process
    · rw [hsame, Function.update_self, Function.update_self, h.copy process (hsame ▸ hother),
        List.foldl_append]
      rfl
    · rw [Function.update_of_ne hsame, Function.update_of_ne hsame]
      exact h.copy other hother
  | save process =>
    have hcopy := h.copy process (hcurrent process rfl)
    have hstep : world.step (.save process) = { world with
        file := some ((ledger.unsaved process).foldl SessionStore.applyOp world.content) } := by
      rw [SessionFile.step, hcopy]
    rw [hstep]
    constructor
    · show (ledger.unsaved process).foldl SessionStore.applyOp world.content
        = (ledger.saved ++ ledger.unsaved process).foldl SessionStore.applyOp initial
      rw [List.foldl_append, h.file]
    · intro other hother
      -- Only the process that saved is current.
      have hsame : other = process := of_decide_eq_true hother
      show world.copy other
        = some ((Function.update ledger.unsaved process [] other).foldl _ _)
      rw [hsame, Function.update_self, hcopy]
      rfl

/-- The file after a run that keeps up is the initial one after the saved updates. -/
theorem file_eq (file : Option SessionStore) {steps : List FileStep}
    (h : KeepsUp (fun _ => false) steps) :
    ((SessionFile.start file).run steps).content
      = (savedOps steps).foldl SessionStore.applyOp (file.getD .new) := by
  have hrun : ∀ (world : SessionFile) (ledger : Ledger) (current : Nat → Bool),
      InStep (file.getD .new) world ledger current → KeepsUp current steps →
      (world.run steps).content
        = (steps.foldl Ledger.step ledger).saved.foldl SessionStore.applyOp (file.getD .new) := by
    clear h
    induction steps with
    | nil => exact fun world ledger current hin _ => hin.file
    | cons step steps ih =>
      intro world ledger current hin hkeeps
      exact ih _ _ _ (inStep_step hin step hkeeps.1) hkeeps.2
  refine hrun _ _ _ ⟨rfl, ?_⟩ h
  intro process hprocess
  cases hprocess

/-! ### Cookies -/

namespace SessionStore

/-- Updates are their events. -/
theorem foldl_applyOp (ops : List JarOp) (store : SessionStore) :
    ops.foldl applyOp store = (jarEvents ops).foldl absorbJar store := by
  unfold jarEvents
  induction ops generalizing store with
  | nil => rfl
  | cons op ops ih =>
    rw [List.foldl_cons, ih, List.flatMap_cons, List.foldl_append]
    congr 1
    cases op with
    | insert session cookie nowMs => rfl
    | record session headers host path clock => exact recordSetCookies_eq_stores ..
    | clear session => rfl
    | prune nowMs => rfl

/-- A cookie stays when an event does not remove it. -/
theorem mem_jar_absorbJar {store : SessionStore} {event : JarEvent} {session : Text}
    {cookie : Cookie} (hmem : cookie ∈ store.jar session)
    (hspared : ¬ event.Removes session cookie) : cookie ∈ (store.absorbJar event).jar session := by
  rw [jar_absorbJar]
  unfold JarEvent.Removes at hspared
  cases hop : event.toOp session with
  | none => exact hmem
  | some op =>
    rw [hop] at hspared
    cases op with
    | put value live =>
      refine List.mem_append_left _ (List.mem_filter.mpr ⟨hmem, ?_⟩)
      exact decide_eq_true (Ne.symm hspared)
    | reset => exact absurd trivial hspared
    | sieve keep => exact List.mem_filter.mpr ⟨hmem, by simpa using hspared⟩

/-- A cookie of a jar was stored by the event, or there before. -/
theorem mem_jar_of_absorbJar {store : SessionStore} {event : JarEvent} {session : Text}
    {cookie : Cookie} (hmem : cookie ∈ (store.absorbJar event).jar session) :
    cookie ∈ store.jar session ∨ ∃ nowMs, event = .store session cookie nowMs := by
  rw [jar_absorbJar] at hmem
  cases event with
  | store s c t =>
    by_cases hs : s = session
    · rw [JarEvent.toOp, if_pos hs] at hmem
      rcases List.mem_append.mp hmem with hold | hnew
      · exact Or.inl (List.mem_filter.mp hold).1
      · refine Or.inr ⟨t, ?_⟩
        split at hnew
        · rw [hs, List.mem_singleton.mp hnew]
        · exact absurd hnew List.not_mem_nil
    · rw [JarEvent.toOp, if_neg hs] at hmem
      exact Or.inl hmem
  | clear s =>
    by_cases hs : s = session
    · rw [JarEvent.toOp, if_pos hs] at hmem
      exact absurd hmem List.not_mem_nil
    · rw [JarEvent.toOp, if_neg hs] at hmem
      exact Or.inl hmem
  | prune t => exact Or.inl (List.mem_filter.mp hmem).1

/-- The store after some events reflects them. -/
theorem reflects_foldl (events : List JarEvent) (initial : SessionStore) :
    Reflects events (events.foldl absorbJar initial) := by
  constructor
  · intro before session cookie nowMs after hsplit hlive hspared
    rw [hsplit, List.foldl_append, List.foldl_cons]
    have hstored : ∀ store : SessionStore,
        cookie ∈ (store.absorbJar (.store session cookie nowMs)).jar session := by
      intro store
      rw [jar_absorbJar, JarEvent.toOp, if_pos rfl, hlive]
      exact List.mem_append_right _ (List.mem_singleton_self _)
    have hrest : ∀ (rest : List JarEvent) (store : SessionStore), cookie ∈ store.jar session →
        (∀ event ∈ rest, ¬ event.Removes session cookie) →
        cookie ∈ (rest.foldl absorbJar store).jar session := by
      intro rest
      induction rest with
      | nil => exact fun store hmem _ => hmem
      | cons event rest ih =>
        intro store hmem hspared
        exact ih _ (mem_jar_absorbJar hmem (hspared event List.mem_cons_self))
          fun e he => hspared e (List.mem_cons_of_mem event he)
    exact hrest after _ (hstored _) hspared
  · intro before session after hsplit cookie hmem
    rw [hsplit, List.foldl_append, List.foldl_cons] at hmem
    have hempty : ∀ store : SessionStore, (store.absorbJar (.clear session)).jar session = [] := by
      intro store
      rw [jar_absorbJar, JarEvent.toOp, if_pos rfl]
      rfl
    have hrest : ∀ (rest : List JarEvent) (store : SessionStore),
        cookie ∈ (rest.foldl absorbJar store).jar session →
        cookie ∈ store.jar session ∨ ∃ nowMs, .store session cookie nowMs ∈ rest := by
      intro rest
      induction rest with
      | nil => exact fun store hin => Or.inl hin
      | cons event rest ih =>
        intro store hin
        rcases ih _ hin with hhere | ⟨nowMs, hlater⟩
        · rcases mem_jar_of_absorbJar hhere with hbefore | ⟨nowMs, hevent⟩
          · exact Or.inl hbefore
          · exact Or.inr ⟨nowMs, by rw [hevent]; exact List.mem_cons_self⟩
        · exact Or.inr ⟨nowMs, List.mem_cons_of_mem event hlater⟩
    rcases hrest after _ hmem with hbefore | hlater
    · rw [hempty] at hbefore
      exact absurd hbefore List.not_mem_nil
    · exact hlater

end SessionStore

/-- **No update is lost between processes that keep up.** In every run of loads, updates and saves
of any number of processes in which no process saves over what another one has saved since it
last loaded or saved, the file reflects every saved update. -/
theorem sessionFile_reflects (file : Option SessionStore) (steps : List FileStep)
    (hkeeps : KeepsUp (fun _ => false) steps) :
    Reflects (jarEvents (savedOps steps)) ((SessionFile.start file).run steps).content := by
  rw [file_eq file hkeeps, SessionStore.foldl_applyOp]
  exact SessionStore.reflects_foldl _ _

/-- A cookie that a response sets. -/
def recordOf (header : Text) : JarOp :=
  .record "default".toList [header] "app.test".toList "/".toList fun _ => 0

/-- A proxy, and a run after its last save. -/
def oneAfterTheOther : List FileStep :=
  proxySteps 0 [recordOf "sid=1".toList] ++ runSteps 1 [recordOf "tab=1".toList]

/-- Both cookies are in the file. -/
theorem sessionFile_reflects_inTurn :
    Reflects (jarEvents (savedOps oneAfterTheOther))
      ((SessionFile.start none).run oneAfterTheOther).content := by
  refine sessionFile_reflects none oneAfterTheOther ?_
  unfold oneAfterTheOther proxySteps runSteps
  refine ⟨?_, ?_, ?_, ?_, ?_, ?_, trivial⟩ <;> intro process hsave <;> cases hsave <;> rfl

/-- The proxy records while the run is under way. -/
def bothAtOnce : List FileStep :=
  [.load 0, .load 1, .update 0 (recordOf "sid=1".toList), .save 0,
    .update 1 (recordOf "tab=1".toList), .save 1]

/-- A host cookie of `app.test`. -/
def appCookie (name : Text) : Cookie where
  name := name
  value := ['1']
  domain := "app.test".toList
  path := ['/']
  hostOnly := true
  secure := false
  httpOnly := false
  expiresMs := none

deriving instance DecidableEq for JarEvent

/-- The cookie of the proxy is lost. -/
theorem not_sessionFile_reflects_bothAtOnce :
    ¬ ∀ (file : Option SessionStore) (steps : List FileStep),
      Reflects (jarEvents (savedOps steps)) ((SessionFile.start file).run steps).content := by
  intro h
  have hevents : jarEvents (savedOps bothAtOnce)
      = [] ++ .store "default".toList (appCookie "sid".toList) 0
        :: [.store "default".toList (appCookie "tab".toList) 0] := by decide +kernel
  have hkept := (h none bothAtOnce).kept [] "default".toList (appCookie "sid".toList) 0
    [.store "default".toList (appCookie "tab".toList) 0] hevents rfl ?_
  · revert hkept
    decide +kernel
  · intro event hevent hremoves
    rw [List.mem_singleton.mp hevent] at hremoves
    have hother : ¬ (appCookie "tab".toList).identity = (appCookie "sid".toList).identity := by
      decide +kernel
    exact hother hremoves

end Gabriel.Engine
