import Mathlib

/-!
# `Gabriel.Lib.MachineInt`: 64-bit arithmetic that does not overflow

What an operation on `Int64` gives as an integer, for results that fit (`Fits`). Most results in a
calculation are far from the bounds, which `Roomy` says with less arithmetic.

The checked operations are those of a build with overflow checks: they give the result of the
plain operation, or nothing when it overflows. For each of them there are three facts: a result that
fits passes the check, a result that passed fits, and it is the one of the plain operation. The
theorems:

* `toInt_add`, `toInt_sub`, `toInt_mul`, `toInt_div`, `toInt_mod`: operations as those of integers.
* `toInt_floorDiv`: a division that rounds down, whatever the sign.
* `checkedAdd_of_fits`, `of_checkedAdd`, `eq_of_checkedAdd`: a sum with its check, and in the same
  way differences and products.
* `checkedAddU64_of_lt`, `checkedMulU64_of_lt`: the same of unsigned numbers.
-/

set_option autoImplicit false

namespace MachineInt

/-- An integer that is a value of `Int64`. -/
def Fits (a : ℤ) : Prop := -9223372036854775808 ≤ a ∧ a ≤ 9223372036854775807

instance (a : ℤ) : Decidable (Fits a) := inferInstanceAs (Decidable (_ ∧ _))

/-- An integer that is far from the bounds of `Int64`. -/
def Roomy (a : ℤ) : Prop := -2 ^ 62 ≤ a ∧ a < 2 ^ 62

/-- What is roomy fits. -/
theorem Roomy.fits {a : ℤ} (h : Roomy a) : Fits a := by
  obtain ⟨hlow, hhigh⟩ := h
  exact ⟨by omega, by omega⟩

/-- An integer that fits is its own residue. -/
theorem bmod_of_fits {a : ℤ} (h : Fits a) : a.bmod (2 ^ 64) = a := by
  obtain ⟨hlow, hhigh⟩ := h
  exact Int.bmod_eq_of_le (by omega) (by omega)

/-- A value of `Int64` is in its range. -/
theorem fits_toInt (x : Int64) : Fits x.toInt := by
  have hlow := x.le_toInt
  have hhigh := x.toInt_lt
  exact ⟨by omega, by omega⟩

/-- It is what the word made from it says. -/
theorem toInt_ofInt_of_fits {a : ℤ} (h : Fits a) : (Int64.ofInt a).toInt = a := by
  rw [Int64.toInt_ofInt]
  exact bmod_of_fits h

/-- The same for a roomy one. -/
theorem toInt_ofInt {a : ℤ} (h : Roomy a) : (Int64.ofInt a).toInt = a :=
  toInt_ofInt_of_fits h.fits

variable {x y : Int64} {a b : ℤ}

/-! ### Results that fit -/

/-- A sum that fits is the sum of the words. -/
theorem toInt_add_of_fits (hx : x.toInt = a) (hy : y.toInt = b) (h : Fits (a + b)) :
    (x + y).toInt = a + b := by
  rw [Int64.toInt_add, hx, hy, bmod_of_fits h]

/-- A difference that fits is the difference of the words. -/
theorem toInt_sub_of_fits (hx : x.toInt = a) (hy : y.toInt = b) (h : Fits (a - b)) :
    (x - y).toInt = a - b := by
  rw [Int64.toInt_sub, hx, hy, bmod_of_fits h]

/-- A product that fits is the product of the words. -/
theorem toInt_mul_of_fits (hx : x.toInt = a) (hy : y.toInt = b) (h : Fits (a * b)) :
    (x * y).toInt = a * b := by
  rw [Int64.toInt_mul, hx, hy, bmod_of_fits h]

/-! ### Results that are far from the bounds -/

/-- A roomy sum is the sum of the words. -/
theorem toInt_add (hx : x.toInt = a) (hy : y.toInt = b) (h : Roomy (a + b)) :
    (x + y).toInt = a + b := toInt_add_of_fits hx hy h.fits

/-- A roomy difference is the difference of the words. -/
theorem toInt_sub (hx : x.toInt = a) (hy : y.toInt = b) (h : Roomy (a - b)) :
    (x - y).toInt = a - b := toInt_sub_of_fits hx hy h.fits

/-- A roomy product is the product of the words. -/
theorem toInt_mul (hx : x.toInt = a) (hy : y.toInt = b) (h : Roomy (a * b)) :
    (x * y).toInt = a * b := toInt_mul_of_fits hx hy h.fits

/-! ### Division, order and casts -/

/-- Division of words that are not negative is the one of integers. -/
theorem toInt_div (hx : x.toInt = a) (hy : y.toInt = b) (ha : 0 ≤ a) (hb : 0 < b) :
    (x / y).toInt = a / b := by
  have hne : y ≠ -1 := by
    rintro rfl
    rw [← hy] at hb
    exact absurd hb (by decide)
  rw [Int64.toInt_div_of_ne_right x y hne, hx, hy, Int.tdiv_eq_ediv_of_nonneg ha]

/-- A division that rounds down, whatever the sign: what is negative is moved by one less than the
divisor, as the division of the machine cuts towards zero. -/
theorem toInt_floorDiv {d start : Int64} (hd : d.toInt = b) (hb : 0 < b)
    (hpos : 0 ≤ a → start.toInt = a) (hneg : a < 0 → start.toInt = a - (b - 1)) :
    (start / d).toInt = a / b := by
  rcases lt_or_ge a 0 with ha | ha
  · have hne : d ≠ -1 := by
      rintro rfl
      rw [← hd] at hb
      exact absurd hb (by decide)
    have hmoved : a - (b - 1) = -(b - 1 - a) := by omega
    rw [Int64.toInt_div_of_ne_right start d hne, hneg ha, hd, hmoved, Int.neg_tdiv,
      Int.tdiv_eq_ediv_of_nonneg (by omega)]
    -- The quotient of what is moved is the negated one, rounded up.
    obtain ⟨q, hq⟩ : ∃ q, q = (b - 1 - a) / b := ⟨_, rfl⟩
    have hlow : q * b ≤ b - 1 - a := by
      rw [hq]
      exact Int.ediv_mul_le _ (by omega)
    have hhigh : b - 1 - a < (q + 1) * b := by
      rw [hq]
      exact Int.lt_ediv_add_one_mul_self _ hb
    rw [← hq]
    refine le_antisymm ?_ ?_
    · rw [Int.le_ediv_iff_mul_le hb]
      linarith
    · refine Int.lt_add_one_iff.mp ?_
      rw [Int.ediv_lt_iff_lt_mul hb]
      linarith
  · exact toInt_div (hpos ha) hd ha hb

/-- The remainder of such words is the one of integers. -/
theorem toInt_mod (hx : x.toInt = a) (hy : y.toInt = b) (ha : 0 ≤ a) :
    (x % y).toInt = a % b := by
  rw [Int64.toInt_mod, hx, hy, Int.tmod_eq_emod_of_nonneg ha]

/-- Words are in the order of what they say. -/
theorem le_iff (hx : x.toInt = a) (hy : y.toInt = b) : x ≤ y ↔ a ≤ b := by
  rw [Int64.le_iff_toInt_le, hx, hy]

/-- And strictly so. -/
theorem lt_iff (hx : x.toInt = a) (hy : y.toInt = b) : x < y ↔ a < b := by
  rw [Int64.lt_iff_toInt_lt, hx, hy]

/-- An unsigned number of at most 63 bits, as a signed one. -/
theorem toInt_toInt64 {n : UInt64} (h : n.toNat ≤ 9223372036854775807) :
    n.toInt64.toInt = n.toNat := by
  show n.toBitVec.toInt = n.toNat
  rw [BitVec.toInt_eq_toNat_of_lt]
  · rfl
  · show 2 * n.toNat < 2 ^ 64
    omega

/-- A number that is not negative, as an unsigned one. -/
theorem toUInt64_eq (hx : x.toInt = a) (ha : 0 ≤ a) : x.toUInt64 = UInt64.ofNat a.toNat := by
  obtain ⟨n, rfl⟩ := Int.eq_ofNat_of_zero_le ha
  have hxn : x = Int64.ofInt (n : ℤ) := by rw [← hx, Int64.ofInt_toInt]
  rw [hxn, Int64.ofInt_eq_ofNat, Int64.toUInt64_ofNat', Int.toNat_natCast]

/-- The greater of two numbers. -/
theorem toInt_max (hx : x.toInt = a) (hy : y.toInt = b) : (max x y).toInt = max a b := by
  show (if x ≤ y then y else x).toInt = max a b
  by_cases h : x ≤ y
  · rw [if_pos h, hy, max_eq_right ((le_iff hx hy).mp h)]
  · have hlt : ¬ a ≤ b := fun hle => h ((le_iff hx hy).mpr hle)
    rw [if_neg h, hx, max_eq_left (by omega)]

/-! ### With overflow checks -/

/-- A sum, unless it overflows. -/
def checkedAdd (x y : Int64) : Option Int64 :=
  if Fits (x.toInt + y.toInt) then some (x + y) else none

/-- A difference, unless it overflows. -/
def checkedSub (x y : Int64) : Option Int64 :=
  if Fits (x.toInt - y.toInt) then some (x - y) else none

/-- A product, unless it overflows. -/
def checkedMul (x y : Int64) : Option Int64 :=
  if Fits (x.toInt * y.toInt) then some (x * y) else none

/-- An unsigned sum, unless it overflows. -/
def checkedAddU64 (x y : UInt64) : Option UInt64 :=
  if x.toNat + y.toNat < 2 ^ 64 then some (x + y) else none

/-- An unsigned product, unless it overflows. -/
def checkedMulU64 (x y : UInt64) : Option UInt64 :=
  if x.toNat * y.toNat < 2 ^ 64 then some (x * y) else none

/-- A sum that fits passes its check. -/
theorem checkedAdd_of_fits (hx : x.toInt = a) (hy : y.toInt = b) (h : Fits (a + b)) :
    checkedAdd x y = some (x + y) := by
  rw [checkedAdd, hx, hy, if_pos h]

/-- A difference that fits passes its check. -/
theorem checkedSub_of_fits (hx : x.toInt = a) (hy : y.toInt = b) (h : Fits (a - b)) :
    checkedSub x y = some (x - y) := by
  rw [checkedSub, hx, hy, if_pos h]

/-- A product that fits passes its check. -/
theorem checkedMul_of_fits (hx : x.toInt = a) (hy : y.toInt = b) (h : Fits (a * b)) :
    checkedMul x y = some (x * y) := by
  rw [checkedMul, hx, hy, if_pos h]

/-- And so does a roomy one. -/
theorem checkedMul_roomy (hx : x.toInt = a) (hy : y.toInt = b) (h : Roomy (a * b)) :
    checkedMul x y = some (x * y) := checkedMul_of_fits hx hy h.fits

/-- A checked sum says the sum of what its words say. -/
theorem exists_checkedAdd (hx : x.toInt = a) (hy : y.toInt = b) (h : Fits (a + b)) :
    ∃ z, checkedAdd x y = some z ∧ z.toInt = a + b :=
  ⟨_, checkedAdd_of_fits hx hy h, toInt_add_of_fits hx hy h⟩

/-- A checked difference says the difference. -/
theorem exists_checkedSub (hx : x.toInt = a) (hy : y.toInt = b) (h : Fits (a - b)) :
    ∃ z, checkedSub x y = some z ∧ z.toInt = a - b :=
  ⟨_, checkedSub_of_fits hx hy h, toInt_sub_of_fits hx hy h⟩

/-- A checked product says the product. -/
theorem exists_checkedMul (hx : x.toInt = a) (hy : y.toInt = b) (h : Fits (a * b)) :
    ∃ z, checkedMul x y = some z ∧ z.toInt = a * b :=
  ⟨_, checkedMul_of_fits hx hy h, toInt_mul_of_fits hx hy h⟩

/-- A checked sum is the plain one. -/
theorem eq_of_checkedAdd {z : Int64} (h : checkedAdd x y = some z) : z = x + y :=
  (Option.some.inj (Option.ite_none_right_eq_some.mp h).2).symm

/-- A checked difference is the plain one. -/
theorem eq_of_checkedSub {z : Int64} (h : checkedSub x y = some z) : z = x - y :=
  (Option.some.inj (Option.ite_none_right_eq_some.mp h).2).symm

/-- A checked product is the plain one. -/
theorem eq_of_checkedMul {z : Int64} (h : checkedMul x y = some z) : z = x * y :=
  (Option.some.inj (Option.ite_none_right_eq_some.mp h).2).symm

/-- A sum that passes its check fits, and is said by the result. -/
theorem of_checkedAdd {z : Int64} (hx : x.toInt = a) (hy : y.toInt = b)
    (h : checkedAdd x y = some z) : Fits (a + b) ∧ z.toInt = a + b := by
  obtain ⟨hfits, hz⟩ := Option.ite_none_right_eq_some.mp h
  rw [hx, hy] at hfits
  exact ⟨hfits, Option.some.inj hz ▸ toInt_add_of_fits hx hy hfits⟩

/-- The same for a difference. -/
theorem of_checkedSub {z : Int64} (hx : x.toInt = a) (hy : y.toInt = b)
    (h : checkedSub x y = some z) : Fits (a - b) ∧ z.toInt = a - b := by
  obtain ⟨hfits, hz⟩ := Option.ite_none_right_eq_some.mp h
  rw [hx, hy] at hfits
  exact ⟨hfits, Option.some.inj hz ▸ toInt_sub_of_fits hx hy hfits⟩

/-- The same for a product. -/
theorem of_checkedMul {z : Int64} (hx : x.toInt = a) (hy : y.toInt = b)
    (h : checkedMul x y = some z) : Fits (a * b) ∧ z.toInt = a * b := by
  obtain ⟨hfits, hz⟩ := Option.ite_none_right_eq_some.mp h
  rw [hx, hy] at hfits
  exact ⟨hfits, Option.some.inj hz ▸ toInt_mul_of_fits hx hy hfits⟩

/-- An unsigned sum that fits. -/
theorem checkedAddU64_of_lt {m n : UInt64} (h : m.toNat + n.toNat < 2 ^ 64) :
    checkedAddU64 m n = some (m + n) ∧ (m + n).toNat = m.toNat + n.toNat := by
  refine ⟨if_pos h, ?_⟩
  rw [UInt64.toNat_add, Nat.mod_eq_of_lt h]

/-- An unsigned product that fits. -/
theorem checkedMulU64_of_lt {m n : UInt64} (h : m.toNat * n.toNat < 2 ^ 64) :
    checkedMulU64 m n = some (m * n) ∧ (m * n).toNat = m.toNat * n.toNat := by
  refine ⟨if_pos h, ?_⟩
  rw [UInt64.toNat_mul, Nat.mod_eq_of_lt h]

end MachineInt
