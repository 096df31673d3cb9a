import Gabriel.Cli.Promote
import Gabriel.Proofs.PromoteUrl

/-!
# `Gabriel.Proofs.PromoteRun`: the writes of a promotion

`promote` writes up to three stores, one after the other: the request file, the vault and an
environment file. Each write may fail, be torn, or be refused. For each of its steps there are two
lemmas, for success and for failure, that say what the step leaves on disk, and everything about
the command is put together from these. The theorems:

* `saveRequest_ok` / `saveRequest_error`: the request file.
* `storeSecrets_ok` / `storeSecrets_error`: the vault, which may have to be created.
* `recordVars_ok` / `recordVars_error`: one variable at most, in one environment.
* `planPromotion_eq_ok`: what the command plans is what it found (`Planned`), and nothing is written
  before that.
* `promote_ok`: a run that succeeds has done every write (`PromoteSteps`).
* `leftBehind_of_error`: a run that fails has done the writes before the one that failed
  (`LeftBehind`).
-/

set_option autoImplicit false

namespace Gabriel.Cli

open Gabriel.Core Gabriel.Proxy Text Fallible

/-! ### Request files -/

namespace RequestFiles

end RequestFiles

/-! ### Saving the request -/

section Save

variable {rules : PathRules} {fate : Text → WriteFate (Except Text RequestSpec)}
  {collection : Collection} {rel : Text} {spec : RequestSpec} {disk disk' : Disk}

/-- A save that succeeds has written the file at the sanitized path. -/
theorem saveRequest_ok {saved : Collection × RequestEntry}
    (h : exec (saveRequest rules fate collection rel spec) disk = (.ok saved, disk')) :
    sanitizeRequestPath rules rel = .ok saved.2.id ∧ fate saved.2.id = .done ∧
      saved.2.spec = spec ∧ disk' = disk.putRequest saved.2.id (.ok spec) := by
  unfold saveRequest at h
  cases hid : sanitizeRequestPath rules rel with
  | error error => simp [hid] at h
  | ok id =>
    cases hfate : fate id with
    | refused message => simp [hid, hfate] at h
    | torn message left => simp [hid, hfate, exec_bind] at h
    | done =>
      simp only [hid, hfate, exec_bind, exec_modify, exec_pure, Prod.mk.injEq,
        Except.ok.injEq] at h
      obtain ⟨rfl, rfl⟩ := h
      exact ⟨rfl, hfate, rfl, rfl⟩

/-- A save that fails has written nothing, or it has left something else in the file. -/
theorem saveRequest_error {error : CollectionError}
    (h : exec (saveRequest rules fate collection rel spec) disk = (.error error, disk')) :
    (∃ refusal, sanitizeRequestPath rules rel = .error refusal) ∧ disk' = disk ∨
      ∃ id message, sanitizeRequestPath rules rel = .ok id ∧
        (fate id = .refused message ∧ disk' = disk ∨
          ∃ left, fate id = .torn message left ∧ disk' = disk.putRequest id left) := by
  unfold saveRequest at h
  cases hid : sanitizeRequestPath rules rel with
  | error error =>
    simp only [hid, exec_throw, Prod.mk.injEq] at h
    exact Or.inl ⟨⟨error, rfl⟩, h.2.symm⟩
  | ok id =>
    cases hfate : fate id with
    | refused message =>
      simp only [hid, hfate, exec_throw, Prod.mk.injEq] at h
      exact Or.inr ⟨id, message, rfl, Or.inl ⟨hfate, h.2.symm⟩⟩
    | torn message left =>
      simp only [hid, hfate, exec_bind, exec_modify, exec_throw, Prod.mk.injEq] at h
      exact Or.inr ⟨id, message, rfl, Or.inr ⟨left, hfate, h.2.symm⟩⟩
    | done =>
      simp only [hid, hfate, exec_bind, exec_modify, exec_pure, Prod.mk.injEq, reduceCtorEq,
        false_and] at h

end Save

/-! ### Storing the credentials -/

section Vault

variable {context : Text} {disk disk' : Disk}

/-- A write of the vault that succeeds. -/
theorem saveVault_ok {fate : WriteFate VaultFile} {secrets : SortedMap Text Text}
    (h : exec (saveVault context fate secrets) disk = (.ok (), disk')) :
    disk' = disk.putVault (.ok secrets) := by
  unfold saveVault at h
  cases fate with
  | refused message => simp at h
  | torn message left => simp [exec_bind] at h
  | done =>
    rw [exec_modify, Prod.mk.injEq] at h
    exact h.2.symm

/-- A write of the vault that fails. -/
theorem saveVault_error {fate : WriteFate VaultFile} {secrets : SortedMap Text Text}
    {error : CliError} (h : exec (saveVault context fate secrets) disk = (.error error, disk')) :
    disk' = disk ∨ ∃ message left, fate = .torn message left ∧ disk' = disk.putVault left := by
  unfold saveVault at h
  cases fate with
  | refused message =>
    rw [exec_throw, Prod.mk.injEq] at h
    exact Or.inl h.2.symm
  | torn message left =>
    simp only [exec_bind, exec_modify, exec_throw, Prod.mk.injEq] at h
    exact Or.inr ⟨message, left, rfl, h.2.symm⟩
  | done => simp at h

/-- The secrets of a vault that can be opened, or that can be created. -/
def openable : Option VaultFile → Option (SortedMap Text Text)
  | some (.ok secrets) => some secrets
  | some (.error _) => none
  | none => some .empty

variable {fates : VaultFates} {secrets : List (Text × Text)}

/-- A vault that was opened is as it was, and one that was created is empty. -/
theorem openVault_ok {found : SortedMap Text Text}
    (h : exec (openVault context fates) disk = (.ok found, disk')) :
    openable disk.vault = some found ∧ disk' = disk.putVault (.ok found) := by
  unfold openVault at h
  rw [exec_bind, exec_get] at h
  cases hvault : disk.vault with
  | none =>
    cases hkey : fates.newKey with
    | some message => simp [hvault, hkey] at h
    | none =>
      simp only [hvault, hkey, exec_bind_pure_eq_ok] at h
      obtain ⟨⟨⟩, hsave, rfl⟩ := h
      exact ⟨rfl, saveVault_ok hsave⟩
  | some file =>
    cases file with
    | error message => simp [hvault] at h
    | ok stored =>
      simp only [hvault, exec_pure, Prod.mk.injEq, Except.ok.injEq] at h
      obtain ⟨rfl, rfl⟩ := h
      refine ⟨rfl, ?_⟩
      show disk = { disk with vault := some (.ok stored) }
      rw [← hvault]

/-- A vault that cannot be opened is as it was, or something was left in a new file. -/
theorem openVault_error {error : CliError}
    (h : exec (openVault context fates) disk = (.error error, disk')) :
    disk' = disk ∨ disk.vault = none ∧
      ∃ message left, fates.newVault = .torn message left ∧ disk' = disk.putVault left := by
  unfold openVault at h
  rw [exec_bind, exec_get] at h
  -- Without a vault a new one is made, which can fail at the key and at the file.
  cases hvault : disk.vault with
  | none =>
    cases hkey : fates.newKey with
    | some message =>
      simp only [hvault, hkey, exec_throw, Prod.mk.injEq] at h
      exact Or.inl h.2.symm
    | none =>
      simp only [hvault, hkey] at h
      rcases exec_bind_eq_error.mp h with hsave | ⟨a, s, -, hpure⟩
      · rcases saveVault_error hsave with hsame | htorn
        · exact Or.inl hsame
        · exact Or.inr ⟨rfl, htorn⟩
      · simp at hpure
  -- A vault that is there is opened, and nothing is written.
  | some file =>
    cases file with
    | error message =>
      simp only [hvault, exec_throw, Prod.mk.injEq] at h
      exact Or.inl h.2.symm
    | ok found => simp [hvault] at h

/-- Secrets that were added are in the vault, with those that were there. -/
theorem addSecrets_ok (h : exec (addSecrets context fates secrets) disk = (.ok (), disk')) :
    ∃ opened, openable disk.vault = some opened ∧
      disk' = disk.putVault (.ok (opened.insertAll secrets)) := by
  unfold addSecrets at h
  obtain ⟨opened, s, hopen, hsave⟩ := exec_bind_eq_ok.mp h
  obtain ⟨hopened, rfl⟩ := openVault_ok hopen
  have hsaved := saveVault_ok hsave
  exact ⟨opened, hopened, hsaved⟩

/-- What adding secrets leaves in the vault when it fails. -/
inductive VaultLeft (fates : VaultFates) (vault : Option VaultFile) : Option VaultFile → Prop where
  | same : VaultLeft fates vault vault
  | created : vault = none → VaultLeft fates vault (some (.ok .empty))
  | torn {message : Text} {left : VaultFile} :
      fates.newVault = .torn message left ∨ fates.save = .torn message left →
      VaultLeft fates vault (some left)

/-- A failure to add secrets leaves the rest of the disk. -/
theorem addSecrets_error {error : CliError}
    (h : exec (addSecrets context fates secrets) disk = (.error error, disk')) :
    ∃ vault, VaultLeft fates disk.vault vault ∧ disk' = { disk with vault } := by
  unfold addSecrets at h
  rcases exec_bind_eq_error.mp h with hopen | ⟨opened, s, hopen, hsave⟩
  · rcases openVault_error hopen with rfl | ⟨-, message, left, htorn, rfl⟩
    · exact ⟨_, .same, rfl⟩
    · exact ⟨_, .torn (Or.inl htorn), rfl⟩
  · obtain ⟨hopened, rfl⟩ := openVault_ok hopen
    rcases saveVault_error hsave with rfl | ⟨message, left, htorn, rfl⟩
    · cases hvault : disk.vault with
      | none =>
        rw [hvault, openable, Option.some.injEq] at hopened
        rw [← hopened]
        exact ⟨_, .created rfl, rfl⟩
      | some file =>
        cases file with
        | error message => rw [hvault] at hopened; exact absurd hopened (by simp [openable])
        | ok found =>
          rw [hvault, openable, Option.some.injEq] at hopened
          rw [← hopened]
          exact ⟨_, .same, rfl⟩
    · exact ⟨_, .torn (Or.inr htorn), rfl⟩

/-- What a promotion leaves in the vault. -/
def storedVault (vault : Option VaultFile) (secrets : List (Text × Text)) : Option VaultFile :=
  if secrets = [] then vault
  else (openable vault).map fun opened => .ok (opened.insertAll secrets)

/-- Storing the credentials adds them to the vault. -/
theorem storeSecrets_ok {fates : PromoteFates}
    (h : exec (storeSecrets fates secrets) disk = (.ok (), disk')) :
    disk' = { disk with vault := storedVault disk.vault secrets } ∧
      (secrets = [] ∨ (openable disk.vault).isSome = true) := by
  unfold storeSecrets storedVault at *
  by_cases hsecrets : secrets = []
  · rw [if_pos hsecrets, exec_pure, Prod.mk.injEq] at h
    rw [if_pos hsecrets]
    exact ⟨h.2.symm, Or.inl hsecrets⟩
  · rw [if_neg hsecrets] at h
    obtain ⟨opened, hopened, rfl⟩ := addSecrets_ok h
    rw [if_neg hsecrets, hopened]
    exact ⟨rfl, Or.inr rfl⟩

/-- A failure to store the credentials leaves the rest of the disk. -/
theorem storeSecrets_error {fates : PromoteFates} {error : CliError}
    (h : exec (storeSecrets fates secrets) disk = (.error error, disk')) :
    secrets ≠ [] ∧
      ∃ vault, VaultLeft fates.vault disk.vault vault ∧ disk' = { disk with vault } := by
  unfold storeSecrets at h
  by_cases hsecrets : secrets = []
  · simp [hsecrets] at h
  · rw [if_neg hsecrets] at h
    exact ⟨hsecrets, addSecrets_error h⟩

end Vault

/-! ### Recording the origin -/

section Record

variable {fate : Text → WriteFate (Except Text Environment)} {name key value : Text}
  {disk disk' : Disk}

/-- The environment files with one more variable in one of them, unless it says what it is. -/
def recordedEnvironment (environments : EnvironmentDir) (name key value : Text)
    (environment : Environment) : EnvironmentDir :=
  if environment.binds key then environments
  else environments.put name (.ok (environment.withVar key value))

/-- A variable that was recorded, or that was there. -/
theorem setEnvironmentVar_ok
    (h : exec (setEnvironmentVar fate name key value) disk = (.ok (), disk')) :
    ∃ environment, environmentOrNew disk.environments name = .ok environment ∧
      disk' = { disk with
        environments := recordedEnvironment disk.environments name key value environment } := by
  unfold setEnvironmentVar at h
  rw [exec_bind, exec_get] at h
  cases hread : environmentOrNew disk.environments name with
  | error error => simp [hread] at h
  | ok environment =>
    refine ⟨environment, rfl, ?_⟩
    unfold recordedEnvironment
    cases hbinds : environment.binds key with
    | true =>
      simp only [hread, hbinds, if_true, exec_pure, Prod.mk.injEq] at h
      exact h.2.symm
    | false =>
      cases hfate : fate name with
      | refused message => simp [hread, hbinds, hfate] at h
      | torn message left => simp [hread, hbinds, hfate, exec_bind] at h
      | done =>
        simp only [hread, hbinds, hfate, Bool.false_eq_true, if_false, exec_modify,
          Prod.mk.injEq] at h
        exact h.2.symm

/-- A variable that was not recorded: nothing was written, or the write was torn. -/
theorem setEnvironmentVar_error {error : CollectionError}
    (h : exec (setEnvironmentVar fate name key value) disk = (.error error, disk')) :
    disk' = disk ∨ ∃ message left, fate name = .torn message left ∧
      disk' = disk.putEnvironment name left := by
  unfold setEnvironmentVar at h
  rw [exec_bind, exec_get] at h
  cases hread : environmentOrNew disk.environments name with
  | error error =>
    simp only [hread, exec_throw, Prod.mk.injEq] at h
    exact Or.inl h.2.symm
  | ok environment =>
    cases hbinds : environment.binds key with
    | true => simp [hread, hbinds] at h
    | false =>
      cases hfate : fate name with
      | refused message =>
        simp only [hread, hbinds, hfate, Bool.false_eq_true, if_false, exec_throw,
          Prod.mk.injEq] at h
        exact Or.inl h.2.symm
      | torn message left =>
        simp only [hread, hbinds, hfate, Bool.false_eq_true, if_false, exec_bind, exec_modify,
          exec_throw, Prod.mk.injEq] at h
        exact Or.inr ⟨message, left, rfl, h.2.symm⟩
      | done => simp [hread, hbinds, hfate] at h

end Record

/-! ### What is planned -/

/-- A promotion suggests one variable, for the origin, or none. -/
theorem promote_vars {upper : Text → Text} {nowMs : UInt64} {capture : Capture}
    {opts : PromoteOptions} {promotion : Promotion}
    (h : capture.promote upper nowMs opts = some promotion) :
    promotion.vars = [] ∨ ∃ name origin, promotion.vars = [(name, origin)] := by
  obtain ⟨base, hspec⟩ := Capture.promote_spec h
  have hurl := congrArg Prod.snd hspec.url
  unfold Capture.promoteUrl at hurl
  split at hurl
  · exact Or.inr ⟨_, _, hurl⟩
  · exact Or.inl hurl

/-- The promotion that is chosen is one of the capture, with or without the variable. -/
theorem choosePromotion_eq {tools : PromoteTools} {environments : EnvironmentDir}
    {args : PromoteArgs} {capture : Capture} {promotion : Promotion}
    (h : choosePromotion tools environments args capture = some promotion) :
    ∃ n baseUrlVar, capture.promote tools.upper (tools.clock n)
      { inlineCookies := args.inlineCookies, inlineToken := args.inlineToken, baseUrlVar }
        = some promotion := by
  unfold choosePromotion at h
  obtain ⟨first, hfirst, h⟩ := Option.bind_eq_some_iff.mp h
  dsimp only at h
  split at h
  · split at h
    · exact ⟨0, _, hfirst.trans h⟩
    · exact ⟨1, _, h⟩
  · exact ⟨0, _, hfirst.trans h⟩

/-- The parts of a plan. -/
structure Planned (tools : PromoteTools) (disk : Disk) (args : PromoteArgs) (plan : PromotePlan) :
    Prop where
  loaded : disk.load = .ok plan.collection
  found : CaptureStore.get tools.parse disk.captures args.id = some plan.capture
  chosen : choosePromotion tools disk.environments args plan.capture = some plan.promotion
  path : plan.path = savePath args plan.collection plan.promotion
  free : args.force = false → replaces tools.lower plan.collection plan.path = none

/-- A translated error is an error. -/
theorem mapError_eq_ok {ε ε' α : Type} {f : ε → ε'} {x : Except ε α} {a : α} :
    x.mapError f = .ok a ↔ x = .ok a := by
  cases x with
  | error e => simp [Except.mapError]
  | ok b => simp [Except.mapError]

/-- What the command plans is what it found. -/
theorem planPromotion_eq_ok {tools : PromoteTools} {disk : Disk} {args : PromoteArgs}
    {plan : PromotePlan} :
    planPromotion tools disk args = .ok plan ↔ Planned tools disk args plan := by
  constructor
  -- In the order of the source: the collection, the capture, the promotion and the check.
  · intro h
    unfold planPromotion at h
    obtain ⟨collection, hloaded, h⟩ := bind_eq_ok h
    dsimp only at h
    split at h
    · exact absurd h (by simp)
    · rename_i capture hfound
      split at h
      · exact absurd h (by simp)
      · rename_i promotion hchosen
        split at h
        · exact absurd h (by simp)
        · rename_i hfree
          obtain rfl := Except.ok.inj h
          refine ⟨mapError_eq_ok.mp hloaded, hfound, hchosen, rfl, ?_⟩
          intro hforce
          rwa [hforce, if_neg Bool.false_ne_true] at hfree
  · intro h
    -- The path is checked only without `--force`.
    have hfree : (if args.force then none
        else replaces tools.lower plan.collection (savePath args plan.collection plan.promotion))
          = none := by
      by_cases hforce : args.force = true
      · rw [if_pos hforce]
      · rw [if_neg hforce, ← h.path]
        exact h.free (by simpa using hforce)
    unfold planPromotion
    simp only [h.loaded, Except.mapError, h.found, h.chosen, bind, Except.bind, hfree]
    rw [← h.path]

/-! ### The command -/

section Run

variable (tools : PromoteTools) (fates : PromoteFates) (args : PromoteArgs)

/-- The environment files after the variables of a promotion were recorded. -/
inductive Recorded (environments : EnvironmentDir) (vars : List (Text × Text)) :
    EnvironmentDir → Prop where
  | nothing : args.env = none ∨ vars = [] → Recorded environments vars environments
  | one {name key value : Text} {environment : Environment} :
      args.env = some name → vars = [(key, value)] →
      environmentOrNew environments name = .ok environment →
      Recorded environments vars (recordedEnvironment environments name key value environment)

/-- What a run that succeeds has done: every write. -/
structure PromoteSteps (disk disk' : Disk) (entry : RequestEntry) (plan : PromotePlan) :
    Prop where
  planned : Planned tools disk args plan
  path : sanitizeRequestPath tools.rules plan.path = .ok entry.id
  spec : entry.spec = plan.promotion.spec
  root : disk'.root = disk.root
  manifest : disk'.manifest = disk.manifest
  requests : disk'.requests = disk.requests.put entry.id (.ok entry.spec)
  opened : plan.promotion.secrets = [] ∨ (openable disk.vault).isSome = true
  vault : disk'.vault = storedVault disk.vault plan.promotion.secrets
  environments : Recorded args disk.environments plan.promotion.vars disk'.environments

/-- The disk with the request file and the vault of a plan. -/
def Disk.withRequest (disk : Disk) (plan : PromotePlan) (id : Text) (vault : Option VaultFile) :
    Disk :=
  { disk.putRequest id (.ok plan.promotion.spec) with vault }

/-- What recording the variable of a plan leaves in the environment files when it fails. -/
inductive EnvironmentsLeft (environments : EnvironmentDir) : EnvironmentDir → Prop where
  | same : EnvironmentsLeft environments environments
  | torn {name message : Text} {left : Except Text Environment} :
      args.env = some name → fates.environment name = .torn message left →
      EnvironmentsLeft environments (environments.put name left)

/-- What a run that fails leaves on disk, by the step that failed. -/
inductive LeftBehind (disk : Disk) : Disk → Prop where
  /-- The run was refused before the first write. -/
  | planning : (∀ plan, ¬ Planned tools disk args plan) → LeftBehind disk disk
  /-- The path was refused. -/
  | path {plan : PromotePlan} {refusal : CollectionError} : Planned tools disk args plan →
      sanitizeRequestPath tools.rules plan.path = .error refusal → LeftBehind disk disk
  /-- The request file could not be opened. -/
  | request {plan : PromotePlan} {id message : Text} : Planned tools disk args plan →
      sanitizeRequestPath tools.rules plan.path = .ok id →
      fates.request id = .refused message → LeftBehind disk disk
  /-- The write of the request file stopped midway. -/
  | requestTorn {plan : PromotePlan} {id message : Text} {left : Except Text RequestSpec} :
      Planned tools disk args plan → sanitizeRequestPath tools.rules plan.path = .ok id →
      fates.request id = .torn message left → LeftBehind disk (disk.putRequest id left)
  /-- The request is saved, and its credentials are not stored. -/
  | vault {plan : PromotePlan} {id : Text} {vault : Option VaultFile} :
      Planned tools disk args plan → sanitizeRequestPath tools.rules plan.path = .ok id →
      fates.request id = .done → plan.promotion.secrets ≠ [] →
      VaultLeft fates.vault disk.vault vault → LeftBehind disk (disk.withRequest plan id vault)
  /-- The request is saved and its credentials are stored, and the origin is not recorded. -/
  | environment {plan : PromotePlan} {id name : Text} {environments : EnvironmentDir} :
      Planned tools disk args plan → sanitizeRequestPath tools.rules plan.path = .ok id →
      fates.request id = .done →
      plan.promotion.secrets = [] ∨ (openable disk.vault).isSome = true →
      args.env = some name → plan.promotion.vars ≠ [] →
      EnvironmentsLeft fates args disk.environments environments →
      LeftBehind disk
        { disk.withRequest plan id (storedVault disk.vault plan.promotion.secrets) with
          environments }

variable {tools fates args} {disk disk' : Disk}

/-- Recording one variable at most, with success. -/
theorem recordVars_ok {vars : List (Text × Text)}
    (hvars : vars = [] ∨ ∃ key value, vars = [(key, value)])
    (h : exec (recordVars fates args.env vars) disk = (.ok (), disk')) :
    ∃ environments, Recorded args disk.environments vars environments ∧
      disk' = { disk with environments } := by
  unfold recordVars at h
  cases henv : args.env with
  | none =>
    simp only [henv, exec_pure, Prod.mk.injEq] at h
    exact ⟨_, .nothing (Or.inl henv), h.2.symm⟩
  | some name =>
    rcases hvars with rfl | ⟨key, value, rfl⟩
    · simp only [henv, List.forM_nil, exec_pure, Prod.mk.injEq] at h
      exact ⟨_, .nothing (Or.inr rfl), h.2.symm⟩
    · simp only [henv, List.forM_cons, List.forM_nil] at h
      obtain ⟨⟨⟩, s, hset, hpure⟩ := exec_bind_eq_ok.mp h
      obtain ⟨environment, hread, rfl⟩ := setEnvironmentVar_ok hset
      rw [exec_pure, Prod.mk.injEq] at hpure
      exact ⟨_, .one henv rfl hread, hpure.2.symm⟩

/-- Recording one variable at most, with a failure. -/
theorem recordVars_error {vars : List (Text × Text)} {error : CollectionError}
    (hvars : vars = [] ∨ ∃ key value, vars = [(key, value)])
    (h : exec (recordVars fates args.env vars) disk = (.error error, disk')) :
    vars ≠ [] ∧ ∃ name environments, args.env = some name ∧
      EnvironmentsLeft fates args disk.environments environments ∧
        disk' = { disk with environments } := by
  unfold recordVars at h
  cases henv : args.env with
  | none => simp [henv] at h
  | some name =>
    rcases hvars with rfl | ⟨key, value, rfl⟩
    · simp [henv] at h
    · refine ⟨List.cons_ne_nil _ _, name, ?_⟩
      simp only [henv, List.forM_cons, List.forM_nil] at h
      rcases exec_bind_eq_error.mp h with hset | ⟨a, s, -, hpure⟩
      · rcases setEnvironmentVar_error hset with rfl | ⟨message, left, htorn, rfl⟩
        · exact ⟨_, rfl, .same, rfl⟩
        · exact ⟨_, rfl, .torn henv htorn, rfl⟩
      · simp at hpure

/-- A translated call that succeeds. -/
theorem exec_adapt_eq_ok {ε ε' σ α : Type} {f : ε → ε'} {m : Call ε σ α} {s t : σ} {a : α} :
    exec (ExceptT.adapt f m : Call ε' σ α) s = (.ok a, t) ↔ exec m s = (.ok a, t) := by
  rw [exec_adapt, Prod.mk.injEq, mapError_eq_ok]
  constructor
  · rintro ⟨hok, rfl⟩
    exact Prod.ext hok rfl
  · intro h
    rw [h]
    exact ⟨rfl, rfl⟩

/-- A translated call that fails. -/
theorem exec_adapt_eq_error {ε ε' σ α : Type} {f : ε → ε'} {m : Call ε σ α} {s t : σ} {e' : ε'}
    (h : exec (ExceptT.adapt f m : Call ε' σ α) s = (.error e', t)) :
    ∃ e, exec m s = (.error e, t) := by
  rw [exec_adapt, Prod.mk.injEq] at h
  rcases hm : exec m s with ⟨e | a, t'⟩
  · rw [hm] at h
    exact ⟨e, Prod.ext rfl h.2⟩
  · rw [hm] at h
    exact absurd h.1 (by simp [Except.mapError])

/-- A plan suggests one variable at most. -/
theorem Planned.vars {plan : PromotePlan} (h : Planned tools disk args plan) :
    plan.promotion.vars = [] ∨ ∃ key value, plan.promotion.vars = [(key, value)] := by
  obtain ⟨n, var, hpromote⟩ := choosePromotion_eq h.chosen
  exact promote_vars hpromote

/-- A plan is one thing. -/
theorem Planned.eq {plan plan' : PromotePlan} (h : Planned tools disk args plan)
    (h' : Planned tools disk args plan') : plan = plan' := by
  have heq := (planPromotion_eq_ok.mpr h).symm.trans (planPromotion_eq_ok.mpr h')
  exact Except.ok.inj heq

/-- A run that was planned does what was planned. -/
theorem exec_promote_of_planned {plan : PromotePlan} (h : Planned tools disk args plan) :
    exec (promote tools fates args) disk = exec (savePromotion tools fates args plan) disk := by
  unfold promote
  rw [exec_bind, exec_get]
  simp only [planPromotion_eq_ok.mpr h]

/-- A run that was not planned writes nothing. -/
theorem exec_promote_of_error {error : CliError}
    (h : planPromotion tools disk args = .error error) :
    exec (promote tools fates args) disk = (.error error, disk) := by
  unfold promote
  rw [exec_bind, exec_get]
  simp only [h, exec_throw]

/-- A run that succeeds has done every write. -/
theorem promote_ok {entry : RequestEntry}
    (h : exec (promote tools fates args) disk = (.ok entry, disk')) :
    ∃ plan, PromoteSteps tools args disk disk' entry plan := by
  cases hplan : planPromotion tools disk args with
  | error error =>
    rw [exec_promote_of_error hplan] at h
    exact absurd (congrArg Prod.fst h) (by simp)
  | ok plan =>
    have hplanned := planPromotion_eq_ok.mp hplan
    rw [exec_promote_of_planned hplanned] at h
    unfold savePromotion at h
    obtain ⟨saved, s₁, hsave, h⟩ := exec_bind_eq_ok.mp h
    obtain ⟨⟨⟩, s₂, hstore, h⟩ := exec_bind_eq_ok.mp h
    obtain ⟨⟨⟩, hrecord, rfl⟩ := exec_bind_pure_eq_ok.mp h
    obtain ⟨hid, -, hspec, rfl⟩ := saveRequest_ok (exec_adapt_eq_ok.mp hsave)
    obtain ⟨rfl, hopened⟩ := storeSecrets_ok hstore
    obtain ⟨environments, hrecorded, rfl⟩ :=
      recordVars_ok hplanned.vars (exec_adapt_eq_ok.mp hrecord)
    refine ⟨plan, hplanned, hid, hspec, rfl, rfl, ?_, hopened, rfl, hrecorded⟩
    rw [hspec]
    rfl

/-- A run that fails has left the writes that were done before. -/
theorem leftBehind_of_error {error : CliError}
    (h : exec (promote tools fates args) disk = (.error error, disk')) :
    LeftBehind tools fates args disk disk' := by
  -- The plan comes first, and nothing is written when it fails.
  cases hplan : planPromotion tools disk args with
  | error error =>
    rw [exec_promote_of_error hplan, Prod.mk.injEq] at h
    rw [← h.2]
    refine .planning ?_
    intro plan hplanned
    rw [planPromotion_eq_ok.mpr hplanned] at hplan
    exact absurd hplan (by simp)
  | ok plan =>
    have hplanned := planPromotion_eq_ok.mp hplan
    rw [exec_promote_of_planned hplanned] at h
    unfold savePromotion at h
    -- The request is written first, then the secrets, then the variables.
    rcases exec_bind_eq_error.mp h with hsave | ⟨saved, s₁, hsave, h⟩
    · obtain ⟨e, hsave⟩ := exec_adapt_eq_error hsave
      -- A refused path writes nothing, and a failed write may leave a torn file.
      rcases saveRequest_error hsave with ⟨⟨refusal, hpath⟩, rfl⟩ | ⟨id, message, hid, hfate⟩
      · exact .path hplanned hpath
      · rcases hfate with ⟨hrefused, rfl⟩ | ⟨left, htorn, rfl⟩
        · exact .request hplanned hid hrefused
        · exact .requestTorn hplanned hid htorn
    · obtain ⟨hid, hdone, -, rfl⟩ := saveRequest_ok (exec_adapt_eq_ok.mp hsave)
      -- The request is there, and the vault failed.
      rcases exec_bind_eq_error.mp h with hstore | ⟨⟨⟩, s₂, hstore, h⟩
      · obtain ⟨hsecrets, vault, hleft, rfl⟩ := storeSecrets_error hstore
        exact .vault hplanned hid hdone hsecrets hleft
      -- The request and the vault are there, and the environment failed.
      · obtain ⟨rfl, hopened⟩ := storeSecrets_ok hstore
        rcases exec_bind_eq_error.mp h with hrecord | ⟨a, s₃, -, hpure⟩
        · obtain ⟨e, hrecord⟩ := exec_adapt_eq_error hrecord
          obtain ⟨hvars, name, environments, henv, hleft, rfl⟩ :=
            recordVars_error hplanned.vars hrecord
          exact .environment hplanned hid hdone hopened henv hvars hleft
        · simp at hpure

end Run

end Gabriel.Cli
