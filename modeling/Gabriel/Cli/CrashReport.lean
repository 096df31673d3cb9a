import Gabriel.Cli.Scrub

/-!
# `Gabriel.Cli.CrashReport`: the text of a crash

`register_secrets`, `registered` and `clean` of `gabriel-cli/src/panic.rs`. The registry is the list
of values that were resolved in this run, in the order in which they arrived. Its lock is never
poisoned here: nothing panics while it is held.

The definitions:

* `registerSecrets`: add the values that are not empty and not yet there.
* `registered`: everything that some calls have registered, in order.
* `clean`: the registered values first, and then what is shaped like a credential (`scrub`).
-/

set_option autoImplicit false

namespace Gabriel.Cli

open Gabriel.Core Text

/-- Tell the panic hook about secrets that have been resolved. -/
def registerSecrets (held secrets : List Text) : List Text :=
  secrets.foldl (fun held secret =>
    if secret ≠ [] ∧ secret ∉ held then held ++ [secret] else held) held

/-- Everything that some calls have registered. -/
def registered (calls : List (List Text)) : List Text := calls.foldl registerSecrets []

/-- Known values first, and then what is shaped like a credential. -/
def clean (text : Text) (secrets : List Text) : Text :=
  scrub (secrets.foldl (fun cleaned secret =>
    if secret ≠ [] then replace secret redactedMask cleaned else cleaned) text)

end Gabriel.Cli
