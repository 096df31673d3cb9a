import Gabriel.Lib.Text

/-!
# `Gabriel.Lib.Ansi`: what a terminal acts on

Control characters, and texts that a terminal shows without acting on them. A `Clean` text has no
control character but line breaks and tabs. A text is `Tame` for some codes when its other
control characters belong to complete colour sequences with these codes: it is read from the
left, as a terminal does, so that half a sequence does not count.

`controls` are the control characters of a text in order. Two texts with the same ones differ in
what is shown only. The theorems:

* `controls_append`, `controls_eq_nil_iff`: the control characters of texts put together, and of a
  clean text.
* `Clean.append`, `Clean.flatMap`: clean parts are clean together.
* `Tame.append`, `Tame.intercalate`, `Tame.painted`: so are tame ones, and a painted text is tame.
* `Tame.of_clean`, `harmless_nil_iff`: without codes, a harmless text is a clean one.
-/

set_option autoImplicit false

namespace Ansi

/-! ### Control characters -/

/-- A control character: C0 without line breaks and tabs, `DEL`, and C1. -/
def isControl (c : Char) : Bool :=
  (c.toNat < 0x20 && c != '\n' && c != '\t') || c.toNat == 0x7f
    || (0x80 ≤ c.toNat && c.toNat ≤ 0x9f)

/-- A printable character of ASCII is not a control character. -/
theorem isControl_of_printable {c : Char} (h : 0x20 ≤ c.toNat ∧ c.toNat < 0x7f) :
    isControl c = false := by
  simp only [isControl, Bool.or_eq_false_iff, Bool.and_eq_false_iff, decide_eq_false_iff_not,
    bne_eq_false_iff_eq, beq_eq_false_iff_ne]
  refine ⟨⟨Or.inl (Or.inl ?_), ?_⟩, Or.inl ?_⟩
  all_goals omega

/-- A digit is no control character. -/
theorem isControl_of_isDigit {c : Char} (h : c.isDigit = true) : isControl c = false := by
  have hrange : 48 ≤ c.toNat ∧ c.toNat ≤ 57 := by
    simp only [Char.isDigit, ge_iff_le, UInt32.le_iff_toNat_le, Bool.and_eq_true,
      decide_eq_true_eq] at h
    exact h
  exact isControl_of_printable ⟨by omega, by omega⟩

/-- A text without control characters. -/
def Clean (t : Text) : Prop := ∀ c ∈ t, isControl c = false

instance (t : Text) : Decidable (Clean t) := List.decidableBAll _ t

/-- The control characters of a text. -/
def controls (t : Text) : Text := t.filter isControl

/-- The control characters of two texts, one after the other. -/
theorem controls_append (s t : Text) : controls (s ++ t) = controls s ++ controls t :=
  List.filter_append ..

/-- A text is clean when it has no control characters. -/
theorem controls_eq_nil_iff {t : Text} : controls t = [] ↔ Clean t := by
  show t.filter isControl = [] ↔ _
  rw [List.filter_eq_nil_iff]
  exact forall₂_congr fun c _ => by rw [Bool.not_eq_true]

namespace Clean

variable {s t : Text}

/-- The empty text is clean. -/
theorem nil : Clean [] := fun _ hc => absurd hc List.not_mem_nil

/-- Two clean texts are clean together. -/
theorem append (hs : Clean s) (ht : Clean t) : Clean (s ++ t) := by
  intro c hc
  rcases List.mem_append.mp hc with hc | hc
  · exact hs c hc
  · exact ht c hc

/-- A character that is no control character stays clean in front of a clean text. -/
theorem cons {c : Char} (hc : isControl c = false) (ht : Clean t) : Clean (c :: t) := by
  intro d hd
  rcases List.mem_cons.mp hd with rfl | hd
  · exact hc
  · exact ht d hd

/-- Such a character alone is clean. -/
theorem singleton {c : Char} (hc : isControl c = false) : Clean [c] := nil.cons hc

/-- The characters of a text decide. -/
theorem mono (ht : Clean t) (h : ∀ c ∈ s, c ∈ t) : Clean s := fun c hc => ht c (h c hc)

/-- Clean parts are clean together. -/
theorem flatMap {α : Type*} {l : List α} {f : α → Text} (h : ∀ a ∈ l, Clean (f a)) :
    Clean (l.flatMap f) := by
  intro c hc
  obtain ⟨a, ha, hc⟩ := List.mem_flatMap.mp hc
  exact h a ha c hc

end Clean

/-! ### Colour sequences -/

/-- The sequence that selects a colour or a weight. -/
def sgr (code : Text) : Text := '\x1b' :: '[' :: code ++ ['m']

/-- Texts whose control characters belong to complete colour sequences with some codes. -/
inductive Tame (codes : List Text) : Text → Prop
  | nil : Tame codes []
  | char {c : Char} {t : Text} (hc : isControl c = false) (ht : Tame codes t) :
    Tame codes (c :: t)
  | sgr {code t : Text} (hcode : code ∈ codes) (ht : Tame codes t) :
    Tame codes (sgr code ++ t)

namespace Tame

variable {codes : List Text} {s t : Text}

/-- Two tame texts are tame together. -/
theorem append (hs : Tame codes s) (ht : Tame codes t) : Tame codes (s ++ t) := by
  induction hs with
  | nil => exact ht
  | char hc _ ih => exact ih.char hc
  | sgr hcode _ ih =>
    rw [List.append_assoc]
    exact ih.sgr hcode

/-- A clean text is tame. -/
theorem of_clean (h : Clean t) : Tame codes t := by
  induction t with
  | nil => exact nil
  | cons c t ih =>
    exact (ih fun d hd => h d (List.mem_cons_of_mem _ hd)).char (h c List.mem_cons_self)

/-- Tame parts are tame together. -/
theorem flatMap {α : Type*} {l : List α} {f : α → Text} (h : ∀ a ∈ l, Tame codes (f a)) :
    Tame codes (l.flatMap f) := by
  induction l with
  | nil => exact nil
  | cons a l ih =>
    rw [List.flatMap_cons]
    exact (h a List.mem_cons_self).append (ih fun b hb => h b (List.mem_cons_of_mem _ hb))

/-- So are tame parts with a tame separator. -/
theorem intercalate {separator : Text} {l : List Text} (hs : Tame codes separator)
    (h : ∀ t ∈ l, Tame codes t) : Tame codes (List.intercalate separator l) := by
  induction l with
  | nil => exact nil
  | cons first rest ih =>
    have hrest := ih fun t ht => h t (List.mem_cons_of_mem _ ht)
    cases rest with
    | nil =>
      rw [List.intercalate_singleton]
      exact h first List.mem_cons_self
    | cons second rest =>
      rw [List.intercalate_cons_cons]
      exact ((h first List.mem_cons_self).append hs).append hrest

/-- A painted text: a sequence, the text, and the sequence that ends it. -/
theorem painted {code reset : Text} (hcode : code ∈ codes) (hreset : reset ∈ codes)
    (ht : Tame codes t) : Tame codes (Ansi.sgr code ++ t ++ Ansi.sgr reset) := by
  have hend : Tame codes (Ansi.sgr reset) := by
    have hnil : Tame codes (Ansi.sgr reset ++ []) := nil.sgr hreset
    rwa [List.append_nil] at hnil
  rw [List.append_assoc]
  exact (ht.append hend).sgr hcode

end Tame

/-- Without codes, a harmless text is a clean one. -/
theorem harmless_nil_iff {t : Text} : Tame [] t ↔ Clean t := by
  constructor
  · intro h
    induction h with
    | nil => exact Clean.nil
    | char hc _ ih => exact ih.cons hc
    | sgr hcode => exact absurd hcode List.not_mem_nil
  · exact Tame.of_clean

end Ansi
