import Mathlib

/-!
# `Gabriel.Lib.Double`: the numbers of `f64`

The roundings of a double-precision number to 53 significant bits, for natural numbers and for
quotients, and the type of its values: a rational number, or something that is not finite.

A number is rounded to a multiple of a power of two, to the nearest one, and of two to the even one.
So the order of two numbers of the same size is that of two quotients, and a rounding lies between
the powers of two around its number. The theorems:

* `toF64_of_lt`, `ofInt_of_lt`: a number of at most 53 bits is exact.
* `roundQuotient_mono`: rounding to one unit keeps the order.
* `toF64_bounds`: a rounding lies between the powers of two around the number.
* `toF64_mono`, `ofInt_mono`: rounding keeps the order of two integers, up to making them equal.
-/

set_option autoImplicit false

namespace Double

/-- The nearest integer to a quotient; of two, the even one. -/
def roundQuotient (num den : Nat) : Nat :=
  let q := num / den
  let twice := 2 * (num % den)
  if den < twice ∨ (twice = den ∧ q % 2 = 1) then q + 1 else q

/-- `n as f64`: 53 significant bits. -/
def toF64 (n : Nat) : Nat :=
  let unit := 2 ^ (n.log2 - 52)
  roundQuotient n unit * unit

/-- The quotient of two numbers as an `f64`, in units of `2 ^ -64`. -/
def quotientF64 (num den : Nat) : Nat :=
  let unit := 2 ^ ((num * 2 ^ 64 / den).log2 - 52)
  roundQuotient (num * 2 ^ 64) (den * unit) * unit

/-- `z as f64` for an integer with a sign. -/
def ofInt (z : Int) : Int := if z < 0 then -(toF64 z.natAbs : Int) else toF64 z.natAbs

/-- A value of `f64`. Infinities and NaN are not told apart. -/
inductive F64 where
  | finite (value : ℚ)
  | notFinite
  deriving DecidableEq

/-- A natural number as a value of `f64`. -/
def F64.ofNat (n : Nat) : F64 := .finite (toF64 n)

/-- A number of at most 53 bits is exact. -/
theorem toF64_of_lt {n : Nat} (h : n < 2 ^ 53) : toF64 n = n := by
  have hlog : n.log2 - 52 = 0 := by
    by_cases hzero : n = 0
    · rw [hzero]
      rfl
    · have hlt : n.log2 < 53 := (Nat.log2_lt hzero).mpr h
      omega
  unfold toF64 roundQuotient
  rw [hlog]
  simp [Nat.mod_one]

/-! ### The order of two roundings -/

/-- Rounding to one unit keeps the order. -/
theorem roundQuotient_mono {m n : Nat} (h : m ≤ n) (den : Nat) :
    roundQuotient m den ≤ roundQuotient n den := by
  have hquotient : m / den ≤ n / den := Nat.div_le_div_right h
  rcases Nat.lt_or_eq_of_le hquotient with hlt | heq
  · -- The greater quotient is at least what the smaller one is rounded up to.
    have hup : roundQuotient m den ≤ m / den + 1 := by
      unfold roundQuotient
      dsimp only
      split_ifs <;> omega
    have hdown : n / den ≤ roundQuotient n den := by
      unfold roundQuotient
      dsimp only
      split_ifs <;> omega
    omega
  · have hm := Nat.div_add_mod m den
    have hn := Nat.div_add_mod n den
    rw [heq] at hm
    unfold roundQuotient
    dsimp only
    rw [heq]
    split_ifs <;> omega

/-- A quotient without a remainder is not rounded. -/
theorem roundQuotient_mul {k den : Nat} (h : 0 < den) : roundQuotient (k * den) den = k := by
  unfold roundQuotient
  rw [Nat.mul_div_cancel k h, Nat.mul_mod_left, Nat.mul_zero]
  dsimp only
  rw [if_neg]
  omega

/-- A rounding lies between the powers of two around the number. -/
theorem toF64_bounds {n : Nat} (h : n ≠ 0) : 2 ^ n.log2 ≤ toF64 n ∧ toF64 n ≤ 2 ^ (n.log2 + 1) := by
  have hunit : 0 < 2 ^ (n.log2 - 52) := Nat.two_pow_pos _
  have hpower : ∀ k, n.log2 - 52 ≤ k →
      roundQuotient (2 ^ k) (2 ^ (n.log2 - 52)) * 2 ^ (n.log2 - 52) = 2 ^ k := by
    intro k hk
    have hsplit : 2 ^ k = 2 ^ (k - (n.log2 - 52)) * 2 ^ (n.log2 - 52) := by
      rw [← Nat.pow_add, Nat.sub_add_cancel hk]
    rw [hsplit, roundQuotient_mul hunit]
  unfold toF64
  dsimp only
  constructor
  · calc 2 ^ n.log2 = roundQuotient (2 ^ n.log2) (2 ^ (n.log2 - 52)) * 2 ^ (n.log2 - 52) :=
          (hpower _ (Nat.sub_le _ _)).symm
      _ ≤ _ := Nat.mul_le_mul_right _ (roundQuotient_mono (Nat.log2_self_le h) _)
  · calc roundQuotient n (2 ^ (n.log2 - 52)) * 2 ^ (n.log2 - 52)
        ≤ roundQuotient (2 ^ (n.log2 + 1)) (2 ^ (n.log2 - 52)) * 2 ^ (n.log2 - 52) :=
          Nat.mul_le_mul_right _ (roundQuotient_mono (Nat.lt_log2_self).le _)
      _ = 2 ^ (n.log2 + 1) := hpower _ (by omega)

/-- Zero is a double. -/
theorem toF64_zero : toF64 0 = 0 := toF64_of_lt (by decide)

/-- **Rounding keeps the order of two numbers.** -/
theorem toF64_mono {m n : Nat} (h : m ≤ n) : toF64 m ≤ toF64 n := by
  by_cases hzero : m = 0
  · rw [hzero, toF64_zero]
    exact Nat.zero_le _
  have hn : n ≠ 0 := by omega
  have hlog : m.log2 ≤ n.log2 := by
    rw [Nat.le_log2 hn]
    exact (Nat.log2_self_le hzero).trans h
  rcases Nat.lt_or_eq_of_le hlog with hlt | heq
  · calc toF64 m ≤ 2 ^ (m.log2 + 1) := (toF64_bounds hzero).2
      _ ≤ 2 ^ n.log2 := Nat.pow_le_pow_right (by decide) hlt
      _ ≤ toF64 n := (toF64_bounds hn).1
  · unfold toF64
    rw [heq]
    exact Nat.mul_le_mul_right _ (roundQuotient_mono h _)

/-- **Rounding keeps the order of two integers.** -/
theorem ofInt_mono {x y : Int} (h : x ≤ y) : ofInt x ≤ ofInt y := by
  unfold ofInt
  by_cases hx : x < 0
  · rw [if_pos hx]
    by_cases hy : y < 0
    · rw [if_pos hy]
      have hmono : toF64 y.natAbs ≤ toF64 x.natAbs := toF64_mono (by omega)
      omega
    · rw [if_neg hy]
      omega
  · rw [if_neg hx, if_neg (by omega)]
    have hmono : toF64 x.natAbs ≤ toF64 y.natAbs := toF64_mono (by omega)
    omega

/-- An integer of at most 53 bits is exact. -/
theorem ofInt_of_lt {z : Int} (h : z.natAbs < 2 ^ 53) : ofInt z = z := by
  unfold ofInt
  rw [toF64_of_lt h]
  split_ifs <;> omega

end Double
