import Mathlib

/-!
# `Gabriel.Lib.FileWrite`: a write that truncates, and where it can stop

A file is its bytes, or `none` while it does not exist. A write opens the file, which creates or
empties it, then writes its bytes, then syncs. It can fail at each of the three: before it opened
the file, after a part of the bytes, and after all of them. The theorems:

* `write_of_harmless`: after a harmless fault the file is as it was, or as it was to become.
* `write_of_not_harmless`: after any other fault it holds a proper prefix of the new bytes.
-/

set_option autoImplicit false

namespace FileWrite

/-- Where a write fails. -/
inductive Fault where
  | opening
  /-- Only so many bytes were written. -/
  | writing (written : Nat)
  | syncing
  deriving DecidableEq

/-- The file after a write. -/
def write (file : Option (List UInt8)) (bytes : List UInt8) : Option Fault → Option (List UInt8)
  | none => some bytes
  | some .opening => file
  | some (.writing written) => some (bytes.take written)
  | some .syncing => some bytes

/-- Whether a fault leaves the old bytes or all of the new ones. -/
def Fault.harmless (bytes : List UInt8) : Fault → Prop
  | .opening => True
  | .writing written => bytes.length ≤ written
  | .syncing => True

/-- A harmless fault leaves the file as it was, or as it was to become. -/
theorem write_of_harmless {file : Option (List UInt8)} {bytes : List UInt8} {fault : Fault}
    (h : fault.harmless bytes) :
    write file bytes (some fault) = file ∨ write file bytes (some fault) = some bytes := by
  cases fault with
  | opening => exact Or.inl rfl
  | writing written => exact Or.inr (congrArg some (List.take_of_length_le h))
  | syncing => exact Or.inr rfl

/-- Any other fault leaves a proper prefix of the new bytes. -/
theorem write_of_not_harmless {file : Option (List UInt8)} {bytes : List UInt8} {fault : Fault}
    (h : ¬ fault.harmless bytes) :
    ∃ torn, write file bytes (some fault) = some torn ∧ torn <+: bytes ∧ torn ≠ bytes := by
  cases fault with
  | opening => exact absurd trivial h
  | writing written =>
    refine ⟨bytes.take written, rfl, List.take_prefix written bytes, ?_⟩
    intro heq
    have hlength : min written bytes.length = bytes.length := by
      rw [← List.length_take, heq]
    exact h (min_eq_right_iff.mp hlength)
  | syncing => exact absurd trivial h

end FileWrite
