import Gabriel.Core.Json

/-!
# `Gabriel.Core.JsonEq`: equality of JSON values

The `==` of the JSON library, field by field and item by item. Numbers of different forms are
different, and floating-point numbers are compared as such: zero and negative zero are the same
number with two texts.

A `Document` is a value whose objects are in key order, as the decoder returns it. The theorems:

* `sameFields_iff`: objects are equal when they are so field by field.
* `same_comm`: the order of the two values does not matter.
-/

set_option autoImplicit false

namespace Gabriel.Core

/-- The texts of the two zeros. Every other number has one text. -/
def zeroTexts : List Text := ["0.0".toList, "-0.0".toList]

/-- `==` of numbers. -/
def JsonNumber.same : JsonNumber → JsonNumber → Bool
  | .posInt a, .posInt b => a == b
  | .negInt a, .negInt b => a == b
  | .float a, .float b => a == b || a ∈ zeroTexts && b ∈ zeroTexts
  | _, _ => false

namespace Json

mutual

/-- `==` of values. -/
def same : Json → Json → Bool
  | .null, .null => true
  | .bool a, .bool b => a == b
  | .number a, .number b => a.same b
  | .string a, .string b => a == b
  | .array a, .array b => sameItems a b
  | .object a, .object b => sameFields a b
  | _, _ => false

/-- `==` of the items of two arrays. -/
def sameItems : List Json → List Json → Bool
  | [], [] => true
  | a :: as, b :: bs => same a b && sameItems as bs
  | _, _ => false

/-- `==` of the fields of two objects. -/
def sameFields : List (Text × Json) → List (Text × Json) → Bool
  | [], [] => true
  | (key, a) :: as, (key', b) :: bs => key == key' && same a b && sameFields as bs
  | _, _ => false

end

/-- Objects are equal field by field. -/
theorem sameFields_iff {a b : List (Text × Json)} :
    sameFields a b = true
      ↔ List.Forall₂ (fun e e' => e.1 = e'.1 ∧ same e.2 e'.2 = true) a b := by
  induction a generalizing b with
  | nil =>
    cases b with
    | nil => exact iff_of_true rfl .nil
    | cons e' b => exact iff_of_false Bool.false_ne_true fun h => nomatch h
  | cons e a ih =>
    cases b with
    | nil => exact iff_of_false Bool.false_ne_true fun h => nomatch h
    | cons e' b =>
      rw [sameFields, Bool.and_eq_true_iff, Bool.and_eq_true_iff, beq_iff_eq, ih,
        List.forall₂_cons]

/-- The objects in a value are in key order. -/
inductive Ordered : Json → Prop where
  | null : Ordered .null
  | bool (value : Bool) : Ordered (.bool value)
  | number (value : JsonNumber) : Ordered (.number value)
  | string (value : Text) : Ordered (.string value)
  | array {items : List Json} (items_ordered : ∀ item ∈ items, Ordered item) :
      Ordered (.array items)
  | object {fields : List (Text × Json)} (keys : fields.Pairwise (·.1 < ·.1))
      (fields_ordered : ∀ field ∈ fields, Ordered field.2) : Ordered (.object fields)

/-- Numbers are the same in both orders. -/
theorem numberSame_comm (a b : JsonNumber) : a.same b = b.same a := by
  cases a <;> cases b <;> first | rfl | exact BEq.comm | skip
  rename_i s t
  show (s == t || (s ∈ zeroTexts && t ∈ zeroTexts)) = (t == s || (t ∈ zeroTexts && s ∈ zeroTexts))
  rw [BEq.comm, Bool.and_comm]

/-- So are items that are. -/
theorem sameItems_comm {a : List Json} (ih : ∀ x ∈ a, ∀ y, same x y = same y x) (b : List Json) :
    sameItems a b = sameItems b a := by
  induction a generalizing b with
  | nil => cases b <;> rfl
  | cons x a iha =>
    cases b with
    | nil => rfl
    | cons y b =>
      rw [sameItems, sameItems, ih x List.mem_cons_self,
        iha fun z hz => ih z (List.mem_cons_of_mem _ hz)]

/-- So are fields whose values are. -/
theorem sameFields_comm {a : List (Text × Json)} (ih : ∀ e ∈ a, ∀ y, same e.2 y = same y e.2)
    (b : List (Text × Json)) : sameFields a b = sameFields b a := by
  induction a generalizing b with
  | nil => cases b <;> rfl
  | cons e a iha =>
    cases b with
    | nil => rfl
    | cons e' b =>
      rw [sameFields, sameFields, ih e List.mem_cons_self,
        iha fun z hz => ih z (List.mem_cons_of_mem _ hz), BEq.comm]

/-- The order of two values does not matter. -/
theorem same_comm {a : Json} (ha : a.Ordered) (b : Json) : same a b = same b a := by
  induction ha generalizing b with
  | null => cases b <;> rfl
  | bool value =>
    cases b with
    | bool other => exact BEq.comm
    | _ => rfl
  | number value =>
    cases b with
    | number other => exact numberSame_comm value other
    | _ => rfl
  | string value =>
    cases b with
    | string other => exact BEq.comm
    | _ => rfl
  | @array items _ ih =>
    cases b with
    | array other => exact sameItems_comm ih other
    | _ => rfl
  | @object fields _ _ ih =>
    cases b with
    | object other => exact sameFields_comm ih other
    | _ => rfl

end Json

/-- A JSON document, as the decoder returns it. -/
structure Document where
  value : Json
  ordered : value.Ordered

end Gabriel.Core
