import Gabriel.Cli.Promote

/-!
# `Gabriel.Cli.Login`: the `auth` command

`auth_command` of `gabriel-cli/src/main.rs`. The sign-in itself, with the browser and the
authorization server, is outside: `signIn` is what comes back of it. What the command decides is
under which names the tokens go into the vault.

The definitions:

* `resolveConfig`: the provider of a request, with its texts resolved.
* `accessKey`, `refreshKey`: the names of the two tokens, made from the id of the request.
* `tokenEntries`: what is put into the vault.
* `signInFor`: find the request, resolve its configuration and sign in.
* `login`: the command: the sign-in, and the tokens put into the vault.
-/

set_option autoImplicit false

namespace Gabriel.Cli

open Gabriel.Core Gabriel.Engine Text Fallible

/-- The tokens that an authorization server hands out. -/
structure Tokens where
  accessToken : Text
  refreshToken : Option Text
  deriving DecidableEq

/-- The arguments of `auth`. -/
structure LoginArgs where
  request : Text
  env : Option Text := none

/-- The texts, the world of the templates, and the sign-in. -/
structure LoginTools where
  lower : Text → Text
  world : World
  /-- Why the runtime does not start. -/
  runtimeError : Option Text
  signIn : OAuth2 → Except Text Tokens

/-- Resolve an optional template. -/
def resolveOption (world : World) : Option Text → ResolverM (Option Text)
  | some template => do
    let value ← Resolver.resolve world template
    pure (some value)
  | none => pure none

/-- Resolve the templates of a configuration. -/
def resolveConfig (world : World) (config : OAuth2) : ResolverM OAuth2 := do
  let tokenUrl ← Resolver.resolve world config.tokenUrl
  let clientId ← Resolver.resolve world config.clientId
  let authorizeUrl ← resolveOption world config.authorizeUrl
  let clientSecret ← resolveOption world config.clientSecret
  let scope ← resolveOption world config.scope
  let audience ← resolveOption world config.audience
  let redirectUri ← resolveOption world config.redirectUri
  pure { config with
    tokenUrl, clientId, authorizeUrl, clientSecret, scope, audience, redirectUri }

/-- Everything that the command does before it opens the vault: the request that signs in, and its
tokens. -/
def signInFor (tools : LoginTools) (disk : Disk) (args : LoginArgs) :
    Except CliError (RequestEntry × Tokens) := do
  let collection ← disk.load.mapError .collection
  let entry ← (collection.find tools.lower args.request).mapError .collection
  match (collection.applyDefaults entry.spec).auth with
  | some (.oAuth2 config) =>
    let environment ← (chooseEnvironment disk.environments args.env).mapError .collection
    let resolver := (Resolver.new.withSecrets disk.secret).withVars
      (collection.variablesFor environment).entries
    let resolved ← (exec (resolveConfig tools.world config) resolver).1.mapError
      fun error => .engine [] (.template error)
    match tools.runtimeError with
    | some message => .error (.io "starting the async runtime".toList message)
    | none =>
      let tokens ← (tools.signIn resolved).mapError
        (.io "the sign-in flow did not complete".toList)
      .ok (entry, tokens)
  | _ => .error (.message
      ('`' :: entry.id ++ "` does not declare an OAuth2 [auth] block".toList))

/-- The vault name of an access token. -/
def accessKey (id : Text) : Text := slugify id ++ "_access_token".toList

/-- The vault name of a refresh token. -/
def refreshKey (id : Text) : Text := slugify id ++ "_refresh_token".toList

/-- The names that the tokens get. -/
def tokenEntries (id : Text) (tokens : Tokens) : List (Text × Text) :=
  (accessKey id, tokens.accessToken)
    :: (tokens.refreshToken.map fun refresh => (refreshKey id, refresh)).toList

/-- The command. It returns the names it prints. -/
def login (tools : LoginTools) (fates : VaultFates) (args : LoginArgs) :
    Call CliError Disk (List Text) := do
  match signInFor tools (← get) args with
  | .error error => throw error
  | .ok (entry, tokens) => do
    addSecrets "opening the vault to store the tokens".toList fates (tokenEntries entry.id tokens)
    pure ((tokenEntries entry.id tokens).map (·.1))

end Gabriel.Cli
