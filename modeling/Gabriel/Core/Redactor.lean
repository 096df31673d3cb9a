import Gabriel.Core.Vars
import Gabriel.Lib.Replace

/-!
# `Gabriel.Core.Redactor`: masking secrets

`Redactor`, `used_secrets` and `header_for_display` of `gabriel-core/src/vars.rs`.

The definitions:

* `Redactor`: the secrets that are masked, in order. A short one is none of them.
* `apply`: mask every secret in a text, one after the other (`maskAll`).
* `usedSecretList`: what a resolver has substituted, the longest first.
* `forCommand`: the redactor of a command, unless it is to show secrets.
* `headerForDisplay`: a header as it is shown: the mask for one whose name is that of a credential.
-/

set_option autoImplicit false

namespace Gabriel.Core

open Text

/-- What is shown instead of a secret. -/
def mask : Text := "••••redacted••••".toList

/-- The shortest value that is masked, in bytes. -/
def minSecretLen : Nat := 4

/-- Masks known secret plaintexts. Values that are trivially short are not among them. -/
structure Redactor where
  secrets : List Text
  long : ∀ s ∈ secrets, minSecretLen ≤ utf8Len s

namespace Redactor

/-- A redactor that knows no secret. -/
def empty : Redactor := ⟨[], fun _ h => absurd h List.not_mem_nil⟩

/-- A redactor for the long ones of some values. -/
def new (secrets : List Text) : Redactor :=
  { secrets := secrets.filter fun s => minSecretLen ≤ utf8Len s
    long := fun _ h => of_decide_eq_true (List.mem_filter.mp h).2 }

/-- Whether there is nothing to mask. -/
def isEmpty (redactor : Redactor) : Bool := redactor.secrets.isEmpty

/-- Mask some values, one after the other. -/
def maskAll (secrets : List Text) (text : Text) : Text :=
  secrets.foldl (fun out secret => if secret <:+: out then replace secret mask out else out) text

/-- Mask every known secret. -/
def apply (redactor : Redactor) (text : Text) : Text := maskAll redactor.secrets text

/-- The redactor of a command. `show` is the wish to see the credentials. -/
def forCommand (secrets : List Text) (showSecrets : Bool) : Redactor :=
  if showSecrets then empty else new secrets

end Redactor

/-- The secrets substituted so far, the longest first. -/
def Resolver.usedSecretList (resolver : Resolver) : List Text :=
  resolver.usedSecrets.keys.insertionSort fun s t => utf8Len t ≤ utf8Len s

/-- A header value for a surface that a person will read or paste. -/
def headerForDisplay (name value : Text) (redactor : Redactor) (showSecrets : Bool) : Text :=
  if showSecrets then value
  else if isCredentialHeader name then mask
  else redactor.apply value

end Gabriel.Core
