import Gabriel.Core.Redactor

/-!
# `Gabriel.Proofs.Redactor`: what a redactor leaves

The redactor masks its secrets one after the other, the longest first. Its test for a secret only
saves work, so the loop is `replaceAll` of `Lib/Replace`, and the rules of that library apply. The
theorems:

* `maskAll_eq_replaceAll`: masking is replacing, secret by secret.
* `not_infix_apply`: a value that does not overlap the mask is gone from every redacted text.
* `maskAll_pieces`: in a text with holes that no value overlaps, what is between the holes is
  redacted piece by piece.
* `pieces_maskAll`: and redaction makes no new occurrence of a secret there.
-/

set_option autoImplicit false

namespace Gabriel.Core

open Text

namespace Redactor

/-- One step of the loop: the test for the secret only saves work. -/
theorem maskAll_cons (secret : Text) (secrets : List Text) (text : Text) :
    maskAll (secret :: secrets) text = maskAll secrets (replace secret mask text) := by
  show maskAll secrets (if secret <:+: text then replace secret mask text else text) = _
  by_cases h : secret <:+: text
  · rw [if_pos h]
  · rw [if_neg h, replace_of_absent h]

/-- Some values are masked, and then others. -/
theorem maskAll_append (secrets others : List Text) (text : Text) :
    maskAll (secrets ++ others) text = maskAll others (maskAll secrets text) :=
  List.foldl_append

/-- So masking is replacing. -/
theorem maskAll_eq_replaceAll (secrets : List Text) (text : Text) :
    maskAll secrets text = replaceAll mask secrets text := by
  induction secrets generalizing text with
  | nil => rfl
  | cons secret secrets ih =>
    rw [maskAll_cons, ih]
    rfl

/-- A value that was there neither before, nor stays when it is masked. -/
theorem not_infix_maskAll {secrets : List Text} (hne : ∀ s ∈ secrets, s ≠ []) {v text : Text}
    (hv : ¬ Overlap v mask) (h : v ∈ secrets ∨ ¬ v <:+: text) : ¬ v <:+: maskAll secrets text := by
  rw [maskAll_eq_replaceAll]
  exact not_infix_replaceAll hne hv h

/-- A known secret is not empty. -/
theorem ne_nil_of_mem {redactor : Redactor} {s : Text} (h : s ∈ redactor.secrets) : s ≠ [] := by
  rintro rfl
  have hlong := redactor.long [] h
  exact absurd hlong (by decide)

/-- A text with fewer bytes than a secret has nothing to mask. -/
theorem apply_of_short {redactor : Redactor} {t : Text} (h : utf8Len t < minSecretLen) :
    redactor.apply t = t := by
  show maskAll redactor.secrets t = t
  rw [maskAll_eq_replaceAll]
  refine replaceAll_of_absent fun s hs hin => ?_
  obtain ⟨a, b, rfl⟩ := hin
  have hlong := redactor.long s hs
  simp only [utf8Len, List.map_append, List.sum_append] at h hlong
  omega

/-- A known secret that does not overlap the mask is gone. -/
theorem not_infix_apply {redactor : Redactor} {v : Text} (hmem : v ∈ redactor.secrets)
    (hv : ¬ Overlap v mask) (text : Text) : ¬ v <:+: redactor.apply text :=
  not_infix_maskAll (fun _ => ne_nil_of_mem) hv (Or.inl hmem)

/-- Secrets that do not overlap what fills the holes are masked piece by piece. -/
theorem maskAll_pieces {secrets : List Text} {hole : Text} {ps : List Text} (hps : ps ≠ [])
    (h : ∀ o ∈ secrets, ¬ Overlap o hole) :
    maskAll secrets (List.intercalate hole ps)
        = List.intercalate hole (ps.map (maskAll secrets)) := by
  induction secrets generalizing ps with
  | nil =>
    show _ = List.intercalate hole (ps.map id)
    rw [List.map_id]
    rfl
  | cons secret secrets ih =>
    have hmap : ps.map (replace secret mask) ≠ [] := by simpa using hps
    rw [maskAll_cons, replace_intercalate_of_not_overlap (h secret List.mem_cons_self) hps,
      ih hmap fun o ho => h o (List.mem_cons_of_mem _ ho), List.map_map]
    congr 1
    exact List.map_congr_left fun piece _ => (maskAll_cons secret secrets piece).symm

/-- The pieces stay pieces when other secrets are masked in them. -/
theorem pieces_maskAll {secrets : List Text} (hne : ∀ s ∈ secrets, s ≠ []) {v : Text}
    (hv : ¬ Overlap v mask) {ps : List Text} (h : Pieces v ps) :
    Pieces v (ps.map (maskAll secrets)) := by
  induction secrets generalizing ps with
  | nil =>
    show Pieces v (ps.map id)
    rwa [List.map_id]
  | cons secret secrets ih =>
    have hstep := ih (fun s hs => hne s (List.mem_cons_of_mem _ hs))
      (h.map_replace (hne secret List.mem_cons_self) hv)
    rw [List.map_map] at hstep
    rwa [List.map_congr_left fun piece _ => maskAll_cons secret secrets piece]

end Redactor

end Gabriel.Core
