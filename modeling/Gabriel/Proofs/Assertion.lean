import Gabriel.Engine.Assertion
import Gabriel.Lib.Utf8

/-!
# `Gabriel.Proofs.Assertion`: when an assertion is judged rightly

Two integers are compared after rounding both to floating-point numbers. The comparison is that of
the integers when they are equal, when they have different roundings, or when rounding away their
difference does not change the answer (`Judged`). Rounding keeps the order (`ofInt_lt_iff`), so
the first two cases follow from the order of the doubles, and the third is what is left.

An assertion that cannot be judged is one whose path is no JSON path, or that lacks the path or the
expected value that it needs (`Mistyped`). What it looks at is not there, and one operator asks for
just that. The theorems:

* `valuesEqual_iff`: two integers are taken for equal exactly when their roundings are.
* `less_iff`: integers are compared as their doubles are.
* `numbers_exact_iff`: an assertion about two integers is judged by their order exactly when they
  are `Judged`.
* `mistyped_fails_iff`: every mistyped assertion fails, but for one that something is missing.
-/

set_option autoImplicit false

namespace Gabriel.Engine

open Gabriel.Core Text

/-! ### Integers -/

/-- The integer a JSON number is. -/
def integerOf : JsonNumber → Option Int
  | .posInt n => some n.toNat
  | .negInt n => some n.toInt
  | .float _ => none

/-- What an operator says about two integers. -/
def Holds (op : AssertOp) (x y : Int) : Prop :=
  match op with
  | .eq => x = y
  | .ne => x ≠ y
  | .lt => x < y
  | .gt => y < x
  | _ => False

/-- The operators that compare numbers. -/
def AssertOp.comparesNumbers (op : AssertOp) : Prop := op ∈ [AssertOp.eq, .ne, .lt, .gt]

/-- Rounding does not change the answer: the two integers have different roundings, or are equal, or
are the other way round. -/
def Judged (op : AssertOp) (x y : Int) : Prop :=
  Double.ofInt x = Double.ofInt y →
    match op with
    | .lt => y ≤ x
    | .gt => x ≤ y
    | _ => x = y

variable {floatValue : Text → ℚ} {renderJson pretty : Json → Text}

/-- An integer is compared as the double next to it. -/
theorem asF64_of_integerOf {n : JsonNumber} {x : Int} (h : integerOf n = some x) :
    asF64 floatValue (.number n) = some (Double.ofInt x : ℚ) := by
  cases n with
  | posInt n =>
    obtain rfl := Option.some.inj h
    rfl
  | negInt n =>
    obtain rfl := Option.some.inj h
    rfl
  | float text => exact absurd h.symm (Option.some_ne_none x)

/-- Numbers that are the same have the same integer. -/
theorem eq_of_same {m n : JsonNumber} {x y : Int} (hx : integerOf m = some x)
    (hy : integerOf n = some y) (h : (Json.number m).same (.number n) = true) : x = y := by
  have hsame : m.same n = true := h
  cases m with
  | float text => exact absurd hx.symm (Option.some_ne_none x)
  | posInt a =>
    cases n with
    | posInt b =>
      rw [show a = b from eq_of_beq hsame, hy] at hx
      exact (Option.some.inj hx).symm
    | _ => exact absurd hsame Bool.false_ne_true
  | negInt a =>
    cases n with
    | negInt b =>
      rw [show a = b from eq_of_beq hsame, hy] at hx
      exact (Option.some.inj hx).symm
    | _ => exact absurd hsame Bool.false_ne_true

/-- Two integers are taken for equal exactly when their roundings are equal. -/
theorem valuesEqual_iff {m n : JsonNumber} {x y : Int} (hx : integerOf m = some x)
    (hy : integerOf n = some y) :
    valuesEqual floatValue (.number m) (.number n) = true ↔ Double.ofInt x = Double.ofInt y := by
  unfold valuesEqual
  rw [asF64_of_integerOf hx, asF64_of_integerOf hy]
  by_cases hsame : (Json.number m).same (.number n) = true
  · rw [if_pos hsame]
    exact iff_of_true rfl (congrArg _ (eq_of_same hx hy hsame))
  · rw [if_neg hsame, decide_eq_true_iff, Int.cast_inj]

/-- Integers are compared as their doubles are. -/
theorem less_iff {m n : JsonNumber} {x y : Int} (hx : integerOf m = some x)
    (hy : integerOf n = some y) :
    less floatValue (.number m) (.number n) = true ↔ Double.ofInt x < Double.ofInt y := by
  unfold less
  rw [asF64_of_integerOf hx, asF64_of_integerOf hy, decide_eq_true_iff, Int.cast_lt]

/-- A rounding that is less comes from an integer that is less. -/
theorem ofInt_lt_iff {x y : Int} :
    Double.ofInt x < Double.ofInt y ↔ x < y ∧ Double.ofInt x ≠ Double.ofInt y := by
  constructor
  · intro h
    refine ⟨?_, ne_of_lt h⟩
    by_contra hle
    exact absurd (Double.ofInt_mono (not_lt.mp hle)) (not_le.mpr h)
  · rintro ⟨hlt, hne⟩
    exact lt_of_le_of_ne (Double.ofInt_mono hlt.le) hne

/-- The comparison of two integers is exact when rounding does not change it. -/
theorem compare_exact_iff {op : AssertOp} (hop : op.comparesNumbers) {m n : JsonNumber} {x y : Int}
    (hx : integerOf m = some x) (hy : integerOf n = some y) :
    (compare (comparingLib renderJson pretty floatValue) op (.number m) (.number n) = true
        ↔ Holds op x y) ↔ Judged op x y := by
  have hcongr : x = y → Double.ofInt x = Double.ofInt y := congrArg _
  unfold AssertOp.comparesNumbers at hop
  unfold compare Judged Holds
  -- Each operator compares the rounded numbers; order is kept by rounding, equality is not.
  cases op with
  | eq =>
    show (valuesEqual floatValue _ _ = true ↔ _) ↔ _
    rw [valuesEqual_iff hx hy]
    tauto
  | ne =>
    show ((!valuesEqual floatValue _ _) = true ↔ _) ↔ _
    rw [Bool.not_eq_true', ← Bool.not_eq_true, valuesEqual_iff hx hy]
    dsimp only
    tauto
  | lt =>
    show (less floatValue _ _ = true ↔ _) ↔ _
    rw [less_iff hx hy, ofInt_lt_iff]
    dsimp only
    rw [← not_lt]
    tauto
  -- `>` asks `<` the other way round.
  | gt =>
    show (less floatValue _ _ = true ↔ _) ↔ _
    rw [less_iff hy hx, ofInt_lt_iff]
    dsimp only
    rw [← not_lt]
    tauto
  -- The other operators compare no numbers.
  | _ => exact absurd hop (by decide)

/-- A TOML integer is that integer. -/
theorem integerOf_toml (y : Int64) :
    ∃ n, tomlToJson (.integer y) = .number n ∧ integerOf n = some y.toInt := by
  rw [tomlToJson]
  by_cases hy : 0 ≤ y
  · rw [if_pos hy]
    refine ⟨_, rfl, ?_⟩
    show some (y.toUInt64.toNat : Int) = _
    rw [Int64.toNat_toUInt64_of_le hy]
    have hpos : 0 ≤ y.toInt := Int64.le_iff_toInt_le.mp hy
    exact congrArg some (Int.toNat_of_nonneg hpos)
  · rw [if_neg hy]
    exact ⟨_, rfl, rfl⟩

/-- A number and a string are never equal. -/
theorem valuesEqual_number_string (n : JsonNumber) (text : Text) :
    valuesEqual floatValue (.number n) (.string text) = false
      ∧ valuesEqual floatValue (.string text) (.number n) = false := by
  constructor
  · unfold valuesEqual
    rw [if_neg (show ¬ (Json.number n).same (.string text) = true from Bool.false_ne_true)]
    cases asF64 floatValue (.number n) <;> rfl
  · unfold valuesEqual
    rw [if_neg (show ¬ (Json.string text).same (.number n) = true from Bool.false_ne_true)]
    rfl

/-! ### Assertions -/

section Evaluate

variable {platform : Platform} {lib : JsonLib} {totalMs : UInt64} {response : ExecutedResponse}
  {assertion : Assertion}

/-- A comparison passes as `compare` says. -/
theorem evaluate_compare {actual : Json} {value : TomlValue}
    (hactual : assertionActual platform totalMs response assertion = some actual)
    (hvalue : assertion.value = some value) (hop : assertion.op.comparesNumbers) :
    (evaluate platform lib totalMs response assertion).passed
      = compare lib assertion.op actual (tomlToJson value) := by
  unfold evaluate
  rw [hactual, hvalue]
  unfold AssertOp.comparesNumbers at hop
  cases h : assertion.op with
  | exists_ => rw [h] at hop; exact absurd hop (by decide)
  | missing => rw [h] at hop; exact absurd hop (by decide)
  | _ => rfl

/-- One of two values is a number and the other one a string. -/
def NumberAndString (a b : Json) : Prop :=
  (∃ n text, a = .number n ∧ b = .string text) ∨ ∃ text n, a = .string text ∧ b = .number n

/-- **When numeric assertions are exact.** An assertion about two integers is judged by their order
exactly when rounding both does not change the answer. And a number never equals a string. -/
theorem numbers_exact_iff (platform : Platform) (totalMs : UInt64) (response : ExecutedResponse)
    (assertion : Assertion) :
    (∀ n x y, assertionActual platform totalMs response assertion = some (.number n) →
      integerOf n = some x → assertion.value = some (.integer y) →
      assertion.op.comparesNumbers →
      (((evaluate platform (comparingLib renderJson pretty floatValue) totalMs response
          assertion).passed = true ↔ Holds assertion.op x y.toInt)
        ↔ Judged assertion.op x y.toInt))
    ∧ ∀ actual value, assertionActual platform totalMs response assertion = some actual →
      assertion.value = some value → NumberAndString actual (tomlToJson value) →
      assertion.op = .eq →
      (evaluate platform (comparingLib renderJson pretty floatValue) totalMs response
        assertion).passed = false := by
  constructor
  -- The integer of the TOML file becomes a JSON number of the same value.
  · intro n x y hactual hx hvalue hop
    obtain ⟨m, hm, hy⟩ := integerOf_toml y
    rw [evaluate_compare hactual hvalue hop, hm]
    exact compare_exact_iff hop hx hy
  -- A number and a string are never equal, whichever side they are on.
  · intro actual value hactual hvalue hmixed hop
    have hcompares : assertion.op.comparesNumbers := by
      rw [hop]
      exact List.mem_cons_self
    rw [evaluate_compare hactual hvalue hcompares, hop]
    show valuesEqual floatValue actual (tomlToJson value) = false
    rcases hmixed with ⟨n, text, rfl, htext⟩ | ⟨text, n, rfl, hnumber⟩
    · rw [htext]
      exact (valuesEqual_number_string n text).1
    · rw [hnumber]
      exact (valuesEqual_number_string n text).2

/-- An assertion that cannot be judged: its path is no JSON path, or it needs a path or an expected
value and has none. -/
def Mistyped (assertion : Assertion) : Prop :=
  (assertion.target = .body ∧ ∃ path error, assertion.path = some path
    ∧ Jsonpath.parse path = .error error)
  ∨ (assertion.target = .header ∧ assertion.path = none)
  ∨ (assertion.op ∈ [AssertOp.eq, .ne, .lt, .gt, .contains] ∧ assertion.value = none)

/-- What an assertion with an unreadable path or without the path it needs looks at is not there. -/
theorem assertionActual_eq_none
    (h : (assertion.target = .body ∧ ∃ path error, assertion.path = some path
        ∧ Jsonpath.parse path = .error error)
      ∨ (assertion.target = .header ∧ assertion.path = none)) :
    assertionActual platform totalMs response assertion = none := by
  unfold assertionActual
  rcases h with ⟨htarget, path, error, hpath, hparse⟩ | ⟨htarget, hpath⟩
  · rw [htarget, hpath]
    dsimp only
    cases response.json platform with
    | none => rfl
    | some json =>
      rw [Option.bind_some]
      unfold Jsonpath.select
      rw [hparse]
      rfl
  · rw [htarget, hpath]
    rfl

/-- **Which mistyped assertions fail.** All but those that something is missing: what cannot be
looked at is taken for missing. -/
theorem mistyped_fails_iff (platform : Platform) (lib : JsonLib) (totalMs : UInt64)
    (response : ExecutedResponse) {assertion : Assertion} (h : Mistyped assertion) :
    (evaluate platform lib totalMs response assertion).passed = false
      ↔ assertion.op ≠ .missing := by
  rcases or_assoc.mpr h with hnone | ⟨hop, hvalue⟩
  · unfold evaluate
    rw [assertionActual_eq_none hnone]
    cases assertion.op with
    | missing => exact iff_of_false (fun h => Bool.false_ne_true h.symm) fun hne => hne rfl
    | _ => exact iff_of_true rfl (by decide)
  · unfold evaluate
    rw [hvalue]
    cases hcase : assertion.op with
    | exists_ => rw [hcase] at hop; exact absurd hop (by decide)
    | missing => rw [hcase] at hop; exact absurd hop (by decide)
    | _ =>
      refine iff_of_true ?_ (by decide)
      cases assertionActual platform totalMs response assertion <;> rfl

end Evaluate

/-! ### An identifier above `2 ^ 53` -/

/-- A body with one identifier. -/
def idBody : List UInt8 := Utf8.encode "\x7b\"id\":9007199254740993\x7d".toList

/-- A response with that body. -/
def idResponse : ExecutedResponse where
  status := 200
  statusText := "OK".toList
  httpVersion := "HTTP/2".toList
  headers := .fromIter []
  body := idBody
  finalUrl := "https://api.test/users".toList

/-- A platform that reads it. -/
def idPlatform : Platform :=
  { emptyPlatform with
    parseJson := fun bytes =>
      if bytes = idBody then .ok (.object [("id".toList, .number (.posInt 9007199254740993))])
      else .error "expected value".toList }

/-- A library that writes every value as `null`. -/
def nullLib : JsonLib := comparingLib (fun _ => "null".toList) (fun _ => "null".toList) fun _ => 0

/-- A short duration is judged rightly. -/
theorem numbers_exact_duration :
    (evaluate idPlatform nullLib 25 idResponse
        { target := .durationMs, op := .lt, value := some (.integer 1000) }).passed = true
      ↔ Holds .lt 25 1000 := by
  have hop : AssertOp.comparesNumbers .lt := by
    unfold AssertOp.comparesNumbers
    decide
  have hjudged : Judged .lt 25 (1000 : Int64).toInt := by
    intro hsame
    have hsmall : Double.ofInt 25 = 25 ∧ Double.ofInt (1000 : Int64).toInt = 1000 :=
      ⟨Double.ofInt_of_lt (by decide), Double.ofInt_of_lt (by decide)⟩
    rw [hsmall.1, hsmall.2] at hsame
    exact absurd hsame (by decide)
  exact ((numbers_exact_iff idPlatform 25 idResponse _).1 (.posInt 25) 25 1000 rfl rfl rfl hop).mpr
    hjudged

/-- An identifier is taken for its neighbour. -/
theorem not_numbers_exact_id :
    ¬ ((evaluate idPlatform nullLib 25 idResponse
          { target := .body, path := some "id".toList,
            value := some (.integer 9007199254740992) }).passed = true
        ↔ Holds .eq 9007199254740993 9007199254740992) := by
  have hpassed : (evaluate idPlatform nullLib 25 idResponse
      { target := .body, path := some "id".toList,
        value := some (.integer 9007199254740992) }).passed = true := by
    decide +kernel
  intro h
  have hequal : (9007199254740993 : Int) = 9007199254740992 := h.mp hpassed
  exact absurd hequal (by decide)

/-- What a path that is none leads to is not equal to anything. -/
theorem mistyped_fails_eq :
    (evaluate idPlatform nullLib 25 idResponse
        { target := .body, path := some "id[0".toList, value := some (.integer 1) }).passed
      = false := by
  refine (mistyped_fails_iff idPlatform nullLib 25 idResponse (.inl ⟨rfl, ?_⟩)).mpr (by decide)
  exact ⟨"id[0".toList, .badJsonPath "id[0".toList, rfl, by decide⟩

/-- But it is missing. -/
theorem not_mistyped_fails_missing :
    Mistyped { target := .body, path := some "id[0".toList, op := .missing }
      ∧ (evaluate idPlatform nullLib 25 idResponse
        { target := .body, path := some "id[0".toList, op := .missing }).passed = true := by
  refine ⟨.inl ⟨rfl, "id[0".toList, .badJsonPath "id[0".toList, rfl, by decide⟩, ?_⟩
  decide +kernel

end Gabriel.Engine
