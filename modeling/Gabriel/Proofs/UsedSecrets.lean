import Gabriel.Core.Redactor
import Gabriel.Proofs.Redactor
import Gabriel.Proofs.Vars

/-!
# `Gabriel.Proofs.UsedSecrets`: the resolver remembers every secret it hands out

`used_secrets` is what the commands mask in their output. `Recorded` says that it holds the value of
every secret that was looked up and found, except an empty one.

A lookup records before it hands out, and no step of a lookup breaks what was recorded, so no call
does, also one that fails after it has handed out a secret. The theorems:

* `kept_recorded`: no step of a lookup substitutes a value without recording it; in the terms of
  `KeptByLookups`, so that whole maps of templates are covered.
* `recorded_calls`: over any sequence of calls, every value that was substituted stays recorded.
* `not_infix_redacted`: so masking the used secrets leaves no such value in any text. The longest
  are masked first, so that a secret inside of another one leaves no rest of it.
-/

set_option autoImplicit false

namespace Gabriel.Core

open Text Fallible

namespace Resolver

/-- A value that was put in the place of a reference to a secret. -/
def Substituted (r : Resolver) (v : Text) : Prop :=
  ∃ name ∈ r.lookups, ∃ key, stripPrefix "secret:".toList name = some key ∧
    r.secrets (trim key) = some v

/-- Every value that was substituted is among the used secrets. -/
def Recorded (r : Resolver) : Prop :=
  ∀ v, r.Substituted v → v ≠ [] → v ∈ r.usedSecrets.keys

/-- A lookup substitutes the value of the secret that it names, if it names one. -/
theorem substituted_noteLookup {r : Resolver} {name v : Text} :
    (r.noteLookup name).Substituted v ↔ r.Substituted v ∨
      ∃ key, stripPrefix "secret:".toList name = some key ∧ r.secrets (trim key) = some v := by
  show (∃ n ∈ r.lookups ++ [name], _) ↔ _
  constructor
  · rintro ⟨n, hn, hfound⟩
    rcases List.mem_append.mp hn with hn | hn
    · exact Or.inl ⟨n, hn, hfound⟩
    · rw [List.mem_singleton.mp hn] at hfound
      exact Or.inr hfound
  · rintro (⟨n, hn, hfound⟩ | hfound)
    · exact ⟨n, List.mem_append_left _ hn, hfound⟩
    · exact ⟨name, List.mem_append_right _ (List.mem_singleton.mpr rfl), hfound⟩

/-- Noting a secret does not change what was substituted. -/
theorem substituted_noteSecret {r : Resolver} {value v : Text} :
    (r.noteSecret value).Substituted v ↔ r.Substituted v := by
  have hlookups : (r.noteSecret value).lookups = r.lookups := by
    unfold noteSecret
    split <;> rfl
  unfold Substituted
  rw [hlookups, (sameSetup_noteSecret r value).2.1]

/-- A noted secret is one of the used ones. -/
theorem mem_keys_noteSecret {r : Resolver} {value v : Text} (hv : v ≠ []) :
    v ∈ (r.noteSecret value).usedSecrets.keys ↔ v = value ∨ v ∈ r.usedSecrets.keys := by
  unfold noteSecret
  by_cases hvalue : value = []
  · rw [if_pos hvalue, hvalue, or_iff_right hv]
  · rw [if_neg hvalue]
    exact SortedMap.mem_keys_insert

/-- Secrets stay the same, and every value that was substituted stays recorded. -/
def StaysRecorded (r s : Resolver) : Prop :=
  s.secrets = r.secrets ∧ (r.Recorded → s.Recorded)

/-- No step of a lookup substitutes a value without recording it. -/
theorem kept_recorded : KeptByLookups StaysRecorded where
  refl := fun _ => ⟨rfl, id⟩
  trans := fun _ _ _ h h' => ⟨h'.1.trans h.1, fun hr => h'.2 (h.2 hr)⟩
  found := by
    intro r name key value hkey hvalue
    refine ⟨(sameSetup_noteSecret _ value).2.1, ?_⟩
    intro hr v hv hne
    rw [substituted_noteSecret, substituted_noteLookup] at hv
    rw [mem_keys_noteSecret hne]
    rcases hv with hv | ⟨key', hkey', hv⟩
    · exact Or.inr (hr v hv hne)
    · -- The new value is the one that is noted.
      obtain rfl : key = key' := Option.some.inj (hkey.symm.trans hkey')
      exact Or.inl (Option.some.inj (hv.symm.trans hvalue))
  other := by
    intro r name hnone
    refine ⟨rfl, ?_⟩
    intro hr v hv hne
    rcases substituted_noteLookup.mp hv with hv | ⟨key, hkey, hv⟩
    · exact hr v hv hne
    · rw [hnone key hkey] at hv
      exact nomatch hv
  draw := fun _ => ⟨rfl, id⟩

/-! ### A sequence of calls -/

/-- A call on a resolver: a template, a map of templates, or the binding of a variable. -/
inductive ResolverCall where
  | resolve (template : Text)
  | resolveMap (map : FieldMap)
  | set (key value : Text)

/-- The resolver after a call, whether it succeeded or not. -/
def ResolverCall.after (world : World) (r : Resolver) : ResolverCall → Resolver
  | .resolve template => (exec (Resolver.resolve world template) r).2
  | .resolveMap map => (exec (Resolver.resolveMap world map) r).2
  | .set key value => r.set key value

/-- The resolver after some calls. -/
def afterCalls (world : World) (calls : List ResolverCall) (r : Resolver) : Resolver :=
  calls.foldl (ResolverCall.after world) r

/-- A call keeps what was substituted recorded. -/
theorem recorded_call {world : World} {r : Resolver} (hr : r.Recorded) (call : ResolverCall) :
    (call.after world r).Recorded := by
  cases call with
  | resolve template => exact (kept_recorded.resolve template r).2 hr
  | resolveMap map => exact (kept_recorded.resolveMap map r).2 hr
  | set key value => exact hr

/-- So do all calls of a run. -/
theorem recorded_calls {world : World} (calls : List ResolverCall) {r : Resolver}
    (hr : r.Recorded) : (afterCalls world calls r).Recorded := by
  induction calls generalizing r with
  | nil => exact hr
  | cons call calls ih => exact ih (recorded_call hr call)

/-- A resolver that has looked nothing up yet has nothing to record. -/
theorem recorded_of_unused {r : Resolver} (h : r.lookups = []) : r.Recorded := by
  rintro v ⟨name, hname, -⟩ _
  rw [h] at hname
  exact absurd hname List.not_mem_nil

/-- **Masking the used secrets leaves no substituted value in any text.** Whatever was resolved
before, and whether the calls succeeded, a value of at least four bytes that does not overlap the
mask is gone. -/
theorem not_infix_redacted (world : World) (r : Resolver) (hstart : r.lookups = [])
    (calls : List ResolverCall) (text v : Text)
    (hv : (afterCalls world calls r).Substituted v) (hlong : minSecretLen ≤ utf8Len v)
    (hmask : ¬ Overlap v mask) :
    ¬ v <:+: (Redactor.new (afterCalls world calls r).usedSecretList).apply text := by
  have hrecorded : (afterCalls world calls r).Recorded :=
    recorded_calls calls (recorded_of_unused hstart)
  have hkeys : v ∈ (afterCalls world calls r).usedSecrets.keys :=
    hrecorded v hv (ne_nil_of_not_overlap hmask)
  have hlist : v ∈ (afterCalls world calls r).usedSecretList :=
    (List.perm_insertionSort _ _).mem_iff.mpr hkeys
  have hmem : v ∈ (Redactor.new (afterCalls world calls r).usedSecretList).secrets :=
    List.mem_filter.mpr ⟨hlist, decide_eq_true hlong⟩
  exact Redactor.not_infix_apply hmem hmask text

/-- Two secrets, one inside the other, of which the second is handed out by a call that then
fails. -/
theorem not_infix_redacted_nested :
    let world : World := ⟨fun _ => none, fun _ => 0, fun _ => 0, fun _ => 0⟩
    let vault : Text → Option Text := fun key =>
      if key = ['a'] then some "swordfish".toList
      else if key = ['b'] then some "swordfish-2".toList else none
    let calls : List ResolverCall := [.resolve "{{secret:a}}".toList,
      .resolve "{{secret:b}}{{nope}}".toList]
    let r := afterCalls world calls (Resolver.new.withSecrets vault)
    ¬ "swordfish".toList <:+: (Redactor.new r.usedSecretList).apply "got swordfish-2".toList ∧
      ¬ "swordfish-2".toList <:+: (Redactor.new r.usedSecretList).apply
          "got swordfish-2".toList := by
  intro world vault calls r
  have hfirst : r.Substituted "swordfish".toList :=
    ⟨"secret:a".toList, by decide +kernel, ['a'], by decide +kernel⟩
  have hsecond : r.Substituted "swordfish-2".toList :=
    ⟨"secret:b".toList, by decide +kernel, ['b'], by decide +kernel⟩
  constructor
  · exact not_infix_redacted world _ rfl calls _ _ hfirst (by decide +kernel) (by decide +kernel)
  · exact not_infix_redacted world _ rfl calls _ _ hsecond (by decide +kernel) (by decide +kernel)

end Resolver

end Gabriel.Core
