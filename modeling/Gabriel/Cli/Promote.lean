import Gabriel.Cli.Run
import Gabriel.Proxy.Store

/-!
# `Gabriel.Cli.Promote`: the `promote` command

`promote` of `gabriel-cli/src/main.rs`, `set_environment_var` of `support.rs`, and what the command
uses of the vault of `gabriel-vault/src/lib.rs`. The command reads a capture, decides what to save
and where, and then writes: the request file, the vault, and the environment file. Each write can
fail, and nothing is taken back; `PromoteFates` says what becomes of each of them.

The key of the vault comes from outside (a passphrase or the keychain), so a vault on disk either
decrypts to its secrets or tells why it cannot be opened.

The definitions:

* `planPromotion`: what the command would do: the request, its path, the secrets and the variable.
* `replaces`: the check for a request that is there already.
* `storeSecrets`, `recordVars`: the vault and the environment file.
* `savePromotion`: the three writes, one after the other.
* `promote`: the command.
-/

set_option autoImplicit false

namespace Gabriel.Cli

open Gabriel.Core Gabriel.Proxy Text Fallible

/-- The arguments of `promote`. -/
structure PromoteArgs where
  /-- A capture id, or a prefix of one. -/
  id : Text
  /-- The path that `--to` names. -/
  saveTo : Option Text := none
  inlineCookies : Bool := false
  inlineToken : Bool := false
  /-- The environment that records the origin. -/
  env : Option Text := none
  force : Bool := false

/-- The platform, the texts, the clock and the log decoder. -/
structure PromoteTools where
  rules : PathRules
  lower : Text → Text
  upper : Text → Text
  /-- The readings of the clock, in order. -/
  clock : Nat → UInt64
  /-- Decode a line of the capture log. -/
  parse : List UInt8 → Option Capture

/-- A vault file: what it decrypts to, or why it cannot be opened. -/
abbrev VaultFile := Except Text (SortedMap Text Text)

/-- What becomes of the writes of a vault. -/
structure VaultFates where
  /-- Make a key for a new vault; a short passphrase or the keychain can refuse. -/
  newKey : Option Text
  /-- Write a new, empty vault. -/
  newVault : WriteFate VaultFile
  /-- Write the vault with the secrets. -/
  save : WriteFate VaultFile

/-- What becomes of the writes of a run. -/
structure PromoteFates where
  /-- Write the file of a request. -/
  request : Text → WriteFate (Except Text RequestSpec)
  vault : VaultFates
  /-- Write the file of an environment. -/
  environment : Text → WriteFate (Except Text Environment)

/-- The name of the variable for the origin. -/
def baseUrlVar : Text := "base_url".toList

/-! ### Environments -/

/-- An environment, or a new one when there is no file for it. -/
def environmentOrNew (environments : EnvironmentDir) (name : Text) :
    Except CollectionError Environment :=
  match environments.file name with
  | some _ => environments.environment name
  | none => .ok { name := some name, description := none, vars := .empty, secrets := .empty }

/-- Whether an environment says what a variable is. -/
def Environment.binds (environment : Environment) (key : Text) : Bool :=
  environment.vars.containsKey key || environment.secrets.containsKey key

/-- An environment with one more variable. -/
def Environment.withVar (environment : Environment) (key value : Text) : Environment :=
  { environment with vars := environment.vars.insert key value }

/-- Put something into an environment file. -/
def Disk.putEnvironment (disk : Disk) (name : Text) (content : Except Text Environment) : Disk :=
  { disk with environments := disk.environments.put name content }

/-- Add a variable to an environment file unless it is already set. -/
def setEnvironmentVar (fate : Text → WriteFate (Except Text Environment)) (name key value : Text) :
    Call CollectionError Disk Unit := do
  match environmentOrNew (← get).environments name with
  | .error error => throw error
  | .ok environment =>
    if environment.binds key then pure ()
    else
      match fate name with
      | .refused message => throw (.io name message)
      | .torn message left => do
        modify (·.putEnvironment name left)
        throw (.io name message)
      | .done => modify (·.putEnvironment name (.ok (environment.withVar key value)))

/-- The environments that set `base_url` to something else than the origin, with their value. -/
def baseUrlConflicts (environments : EnvironmentDir) (origin : Text) : List (Text × Text) :=
  environments.environmentNames.filterMap fun name =>
    match environments.environment name with
    | .error _ => none
    | .ok environment =>
      (environment.variables.get? baseUrlVar).bind fun existing =>
        if existing ≠ origin then some (name, existing) else none

/-! ### The vault -/

/-- Put something into the vault file. -/
def Disk.putVault (disk : Disk) (content : VaultFile) : Disk :=
  { disk with vault := some content }

/-- The secret of a name, as a run of the collection finds it. -/
def Disk.secret (disk : Disk) (name : Text) : Option Text :=
  match disk.vault with
  | some (.ok secrets) => secrets.get? name
  | _ => none

/-- Write the vault file. -/
def saveVault (context : Text) (fate : WriteFate VaultFile) (secrets : SortedMap Text Text) :
    Call CliError Disk Unit :=
  match fate with
  | .refused message => throw (.io context message)
  | .torn message left => do
    modify (·.putVault left)
    throw (.io context message)
  | .done => modify (·.putVault (.ok secrets))

/-- Open the vault, or create an empty one, which is written right away. -/
def openVault (context : Text) (fates : VaultFates) : Call CliError Disk (SortedMap Text Text) := do
  match (← get).vault with
  | some (.ok secrets) => pure secrets
  | some (.error message) => throw (.io context message)
  | none =>
    match fates.newKey with
    | some message => throw (.io context message)
    | none => do
      saveVault context fates.newVault .empty
      pure .empty

/-- Open the vault, set some secrets, and save it. -/
def addSecrets (context : Text) (fates : VaultFates) (secrets : List (Text × Text)) :
    Call CliError Disk Unit := do
  let vault ← openVault context fates
  saveVault [] fates.save (vault.insertAll secrets)

/-! ### What to save, and where -/

/-- The promotion of a capture: with the origin as a variable, unless no environment is named and
one of them sets it to something else. -/
def choosePromotion (tools : PromoteTools) (environments : EnvironmentDir) (args : PromoteArgs)
    (capture : Capture) : Option Promotion := do
  let options : PromoteOptions :=
    { inlineCookies := args.inlineCookies, inlineToken := args.inlineToken,
      baseUrlVar := some baseUrlVar }
  let promotion ← capture.promote tools.upper (tools.clock 0) options
  let capturedOrigin := (promotion.vars.find? (·.1 = baseUrlVar)).map (·.2)
  match args.env, capturedOrigin with
  | none, some origin =>
    if baseUrlConflicts environments origin = [] then some promotion
    else capture.promote tools.upper (tools.clock 1) { options with baseUrlVar := none }
  | _, _ => some promotion

/-- The path to save a promotion to: the one that `--to` names, or a free one. -/
def savePath (args : PromoteArgs) (collection : Collection) (promotion : Promotion) : Text :=
  args.saveTo.getD (collection.uniqueRequestPath (promotion.spec.name.getD promotion.spec.url))

/-- The request that saving to a path would replace, as far as the command can tell. -/
def replaces (lower : Text → Text) (collection : Collection) (path : Text) : Option RequestEntry :=
  match collection.find lower path with
  | .ok existing =>
    if existing.id = trimEndMatches tomlSuffix (trimMatches '/' path) then some existing else none
  | .error _ => none

/-- What the command is about to write. -/
structure PromotePlan where
  collection : Collection
  capture : Capture
  promotion : Promotion
  path : Text

/-- Everything that the command does before it writes. -/
def planPromotion (tools : PromoteTools) (disk : Disk) (args : PromoteArgs) :
    Except CliError PromotePlan := do
  let collection ← disk.load.mapError .collection
  match CaptureStore.get tools.parse disk.captures args.id with
  | none => .error (.message ("no capture matches `".toList ++ args.id ++ ['`']))
  | some capture =>
    match choosePromotion tools disk.environments args capture with
    -- The escape of a query or form was cut inside a character.
    | none => .error (.message "byte index is not a char boundary".toList)
    | some promotion =>
      let path := savePath args collection promotion
      match if args.force then none else replaces tools.lower collection path with
      | some existing =>
        .error (.message (existing.path
          ++ " already exists — pass --force to replace it, or --to <other-path>".toList))
      | none => .ok { collection, capture, promotion, path }

/-! ### The command -/

/-- The context of an error of the vault. -/
def storingSecrets : Text := "opening the vault to store the captured credentials".toList

/-- Store the credentials of a promotion. -/
def storeSecrets (fates : PromoteFates) (secrets : List (Text × Text)) : Call CliError Disk Unit :=
  if secrets = [] then pure () else addSecrets storingSecrets fates.vault secrets

/-- Record the variables of a promotion in the environment that is named. -/
def recordVars (fates : PromoteFates) (env : Option Text) (vars : List (Text × Text)) :
    Call CollectionError Disk Unit :=
  match env with
  | some name => forM vars fun e => setEnvironmentVar fates.environment name e.1 e.2
  | none => pure ()

/-- Write what was planned. -/
def savePromotion (tools : PromoteTools) (fates : PromoteFates) (args : PromoteArgs)
    (plan : PromotePlan) : Call CliError Disk RequestEntry := do
  let saved ← ExceptT.adapt .collection
    (saveRequest tools.rules fates.request plan.collection plan.path plan.promotion.spec)
  storeSecrets fates plan.promotion.secrets
  ExceptT.adapt .collection (recordVars fates args.env plan.promotion.vars)
  pure saved.2

/-- The command. It returns the entry that was saved. -/
def promote (tools : PromoteTools) (fates : PromoteFates) (args : PromoteArgs) :
    Call CliError Disk RequestEntry := do
  match planPromotion tools (← get) args with
  | .error error => throw error
  | .ok plan => savePromotion tools fates args plan

end Gabriel.Cli
