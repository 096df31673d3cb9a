import Gabriel.Core.Model
import Gabriel.Core.Numbers
import Gabriel.Lib.Fallible
import Gabriel.Lib.Template

/-!
# `Gabriel.Core.Vars`: `{{template}}` resolution

The resolver of `gabriel-core/src/vars.rs`. A call that can fail changes the resolver even when
it does: `ResolverM` is the error monad over the resolver's state.

`World` is what the resolver reads from outside: the process environment, and one value per
draw for each generated name. The state counts the draws. It also keeps `lookups`, the names
that were looked up, which the source does not store: it makes the lookups of a run visible to
the theorems.

The definitions:

* `lookup`: the value of a name: a secret, an environment variable, a generated value or a variable.
* `expand`: the references of a text, from left to right, down to a number of levels.
* `resolve`, `resolveMap`: a text, and a map of texts.
* `isCredentialHeader`: the names of headers that hold a credential.
-/

set_option autoImplicit false

namespace Gabriel.Core

open Text

/-- What a template call can fail with. -/
inductive CoreError where
  | unknownVariable (name : Text)
  | unknownSecret (name : Text)
  | variableRecursion (name : Text)
  | unterminatedTemplate (template : Text)
  | badJsonPath (path : Text)
  | invalid (message : Text)
  deriving DecidableEq

/-- An error as it prints itself. -/
def CoreError.display : CoreError → Text
  | .unknownVariable name => "unknown variable `".toList ++ name
      ++ "` — define it in the environment, the vault, or pass --var ".toList ++ name ++ "=…".toList
  | .unknownSecret name => "unknown secret `".toList ++ name
      ++ "` — add it with `gabriel vault set ".toList ++ name ++ ['`']
  | .variableRecursion name => "variable `".toList ++ name
      ++ "` expands into itself (recursion limit reached)".toList
  | .unterminatedTemplate template => "unterminated `\x7b\x7b` in template: ".toList ++ template
  | .badJsonPath path => "invalid JSON path `".toList ++ path ++ ['`']
  | .invalid message => message

/-- The process environment and the source of generated values. -/
structure World where
  env : Text → Option Text
  /-- The random 128 bits of the UUID of a draw. -/
  uuid : Nat → Nat
  nowMs : Nat → UInt64
  /-- A random number below a million. -/
  randomInt : Nat → Nat

/-- The variables, secrets and permissions of a run. -/
structure Resolver where
  vars : SortedMap Text Text
  secrets : Text → Option Text
  allowProcessEnv : Bool
  /-- Plaintext secret values that have been substituted. -/
  usedSecrets : SortedMap Text Unit
  /-- Generated values so far. -/
  draws : Nat
  /-- Names looked up so far, in order. -/
  lookups : List Text

/-- A call that may fail and changes the resolver either way. -/
abbrev ResolverM (α : Type) := Fallible.Call CoreError Resolver α

/-- The hyphenated lower-case form of 128 bits. -/
def uuidText (bits : Nat) : Text :=
  let digits := (List.range 32).reverse.map fun i => Nat.digitChar (bits / 16 ^ i % 16)
  digits.take 8 ++ '-' :: (digits.drop 8).take 4 ++ '-' :: (digits.drop 12).take 4
    ++ '-' :: (digits.drop 16).take 4 ++ '-' :: digits.drop 20

/-- The value of a generated name, for one draw. -/
def generatedValue (world : World) (draw : Nat) (name : Text) : Option Text :=
  if name = "$uuid".toList then some (uuidText (world.uuid draw))
  else if name = "$timestamp".toList then some (natText (world.nowMs draw).toNat)
  else if name = "$isoTimestamp".toList then some (formatIso8601 (world.nowMs draw))
  else if name = "$randomInt".toList then some (natText (world.randomInt draw % 1000000))
  else none

namespace Resolver

/-- A resolver without variables and secrets. -/
def new : Resolver :=
  { vars := .empty, secrets := fun _ => none, allowProcessEnv := false, usedSecrets := .empty,
    draws := 0, lookups := [] }

/-- Add variables; a later value replaces an earlier one. -/
def withVars (r : Resolver) (vars : List (Text × Text)) : Resolver :=
  { r with vars := r.vars.insertAll vars }

/-- Take secrets from a provider. -/
def withSecrets (r : Resolver) (secrets : Text → Option Text) : Resolver := { r with secrets }

/-- Bind one variable, overriding any earlier value. -/
def set (r : Resolver) (key value : Text) : Resolver :=
  { r with vars := r.vars.insert key value }

/-- Record that a name was looked up. -/
def noteLookup (r : Resolver) (name : Text) : Resolver :=
  { r with lookups := r.lookups ++ [name] }

/-- Record a substituted secret. -/
def noteSecret (r : Resolver) (value : Text) : Resolver :=
  if value = [] then r else { r with usedSecrets := r.usedSecrets.insert value () }

/-- Count a generated value. -/
def nextDraw (r : Resolver) : Resolver := { r with draws := r.draws + 1 }

/-- How deep variables may refer to variables. -/
def maxDepth : Nat := 8

/-- What follows a prefix. -/
def stripPrefix (pre t : Text) : Option Text :=
  if pre <+: t then some (t.drop pre.length) else none

/-- The opening delimiter of a reference. -/
def opening : Text := "\x7b\x7b".toList

/-- The closing delimiter of a reference. -/
def closing : Text := "\x7d\x7d".toList

/-- The value of a name. `expand` resolves the value of a variable, given the names that are
being expanded. -/
def lookup (world : World) (expand : Text → List Text → ResolverM Text) (name : Text)
    (stack : List Text) : ResolverM Text := do
  modify (·.noteLookup name)
  match stripPrefix "secret:".toList name with
  | some key =>
    let key := trim key
    match (← get).secrets key with
    | some value =>
      -- Secrets are terminal: their contents are never expanded.
      modify (·.noteSecret value)
      pure value
    | none => throw (.unknownSecret key)
  | none =>
    match stripPrefix "env:".toList name with
    | some key =>
      let key := trim key
      if ¬ (← get).allowProcessEnv then
        throw (.invalid ("`\x7b\x7benv:".toList ++ key
          ++ "\x7d\x7d` needs --allow-env; process environment access is opt-in".toList))
      else match world.env key with
        | some value => pure value
        | none => throw (.unknownVariable ("env:".toList ++ key))
    | none =>
      match generatedValue world (← get).draws name with
      | some generated => do
        modify (·.nextDraw)
        pure generated
      | none =>
        match (← get).vars.get? name with
        | some raw =>
          if name ∈ stack then throw (.variableRecursion name)
          else expand raw (stack ++ [name])
        | none => throw (.unknownVariable name)

/-- Append each literal and the value of the reference after it. -/
def expandRefs (lookupName : Text → ResolverM Text) : List (Text × Text) → Text → ResolverM Text
  | [], out => pure out
  | (lit, name) :: refs, out => do
    let value ← lookupName (trim name)
    expandRefs lookupName refs (out ++ lit ++ value)

/-- Resolve a template, with a number of levels left. The scan for references has no effect, so
it is done first; an unclosed reference is an error when it is reached. -/
def expand (world : World) : Nat → Text → List Text → ResolverM Text
  | 0, template, stack => throw (.variableRecursion (stack.getLast?.getD template))
  | levels + 1, template, stack => do
    let parsed := Template.parse opening closing template
    let out ← expandRefs (fun name => lookup world (expand world levels) name stack) parsed.refs []
    if parsed.terminated then pure (out ++ parsed.tail)
    else throw (.unterminatedTemplate template)

/-- Resolve a template. -/
def resolve (world : World) (template : Text) : ResolverM Text :=
  expand world (maxDepth + 1) template []

/-- Resolve the values of one key. -/
def resolveValue (world : World) : FieldValue → ResolverM FieldValue
  | .one value => do
    let value ← resolve world value
    pure (.one value)
  | .many list => do
    let list ← list.mapM (resolve world)
    pure (.many list)

/-- Resolve the keys and the values of a map. Of two keys that resolve to the same text, the
later one stays. -/
def resolveMap (world : World) (map : FieldMap) : ResolverM FieldMap := do
  let entries ← map.fields.entries.mapM fun e => do
    let key ← resolve world e.1
    let value ← resolveValue world e.2
    pure (key, value)
  pure ⟨SortedMap.ofList entries⟩

end Resolver

/-- Headers whose value is a credential by definition. -/
def credentialHeaders : List Text :=
  ["authorization".toList, "proxy-authorization".toList, "cookie".toList, "set-cookie".toList,
    "x-api-key".toList, "api-key".toList, "x-auth-token".toList, "x-access-token".toList,
    "x-csrf-token".toList, "authentication".toList]

/-- Whether a header carries a credential by its name. -/
def isCredentialHeader (name : Text) : Bool := asciiLower (trim name) ∈ credentialHeaders

example :
    let r := Resolver.new.withVars [("base_url".toList, "https://\x7b\x7bhost\x7d\x7d".toList),
      ("host".toList, "api.test".toList)]
    (Fallible.exec (Resolver.resolve ⟨fun _ => none, fun _ => 0, fun _ => 0, fun _ => 0⟩
      "\x7b\x7b base_url \x7d\x7d/v1".toList) r).1
          = .ok "https://api.test/v1".toList := by decide +kernel

end Gabriel.Core
