import Mathlib.Algebra.Order.Field.Power
import Mathlib.Data.Int.Log
import Mathlib.Data.Rat.Floor
import Mathlib.Tactic.FieldSimp
import Mathlib.Tactic.Linarith
import Mathlib.Tactic.NormNum
import Mathlib.Tactic.Positivity
import Mathlib.Tactic.Ring

/-! Binary floating point with 53 digits and exponents from -1074 on, as rational
numbers: rounding to the nearest one, ties to even. -/

set_option autoImplicit false

namespace Double

/-- The nearest integer, ties to even. -/
def roundEven (number : ℚ) : ℤ :=
  let low := ⌊number⌋
  if number - low < 1 / 2 then low
  else if 1 / 2 < number - low then low + 1
  else if low % 2 = 0 then low
  else low + 1

/-- The distance between the doubles around a number. -/
def spacing (number : ℚ) : ℚ := 2 ^ max (Int.log 2 |number| - 52) (-1074)

/-- The nearest double, `none` if that is an infinity. -/
def nearest (number : ℚ) : Option ℚ :=
  let rounded := roundEven (number / spacing number) * spacing number
  if |rounded| < 2 ^ 1024 then some rounded else none

/-! ## Integers -/

section

variable {number : ℚ}

theorem roundEven_near (number : ℚ) : |roundEven number - number| ≤ 1 / 2 := by
  have low := Int.floor_le number
  have high := Int.lt_floor_add_one number
  rw [abs_le, roundEven]
  split_ifs <;> constructor <;> push_cast <;> linarith

theorem roundEven_intCast (number : ℤ) : roundEven number = number := by
  rw [roundEven, Int.floor_intCast, sub_self]
  exact if_pos (by norm_num)

/-- A tie below an even integer goes up to it. -/
theorem le_roundEven_iff {bound : ℤ} (even : bound % 2 = 0) : bound ≤ roundEven number ↔ (bound : ℚ) - 1 / 2 ≤ number := by
  have low := Int.floor_le number
  have high := Int.lt_floor_add_one number
  have apart (next : ⌊number⌋ + 1 ≤ bound) : (⌊number⌋ : ℚ) + 1 ≤ bound := by exact_mod_cast next
  have under (below : bound ≤ ⌊number⌋) : (bound : ℚ) ≤ ⌊number⌋ := by exact_mod_cast below
  have close (near : bound ≤ ⌊number⌋ + 1) : (bound : ℚ) ≤ ⌊number⌋ + 1 := by exact_mod_cast near
  have far (past : ⌊number⌋ + 2 ≤ bound) : (⌊number⌋ : ℚ) + 2 ≤ bound := by exact_mod_cast past
  rw [roundEven]
  split_ifs with less more whole
  · constructor
    · intro below
      linarith [under below]
    · intro reached
      by_contra next
      linarith [apart (by omega)]
  · constructor
    · intro near
      linarith [close near]
    · intro reached
      by_contra past
      linarith [far (by omega)]
  · constructor
    · intro below
      linarith [under below]
    · intro reached
      by_contra next
      linarith [far (by omega)]
  · constructor
    · intro near
      linarith [close near]
    · intro reached
      by_contra past
      linarith [far (by omega)]

end

/-! ## Doubles -/

section

variable {number double : ℚ}

theorem spacing_pos (number : ℚ) : 0 < spacing number := zpow_pos (by norm_num) _

theorem nearest_eq (found : nearest number = some double) :
    double = roundEven (number / spacing number) * spacing number ∧ |double| < 2 ^ 1024 := by
  rw [nearest] at found
  split_ifs at found with finite
  rw [← Option.some.inj found]
  exact ⟨rfl, finite⟩

theorem rounded_near (number : ℚ) :
    |roundEven (number / spacing number) * spacing number - number| ≤ spacing number / 2 := by
  have positive := spacing_pos number
  have near := roundEven_near (number / spacing number)
  have scaled : roundEven (number / spacing number) * spacing number - number =
      (roundEven (number / spacing number) - number / spacing number) * spacing number := by
    field_simp
  rw [scaled, abs_mul, abs_of_pos positive]
  calc _ ≤ 1 / 2 * spacing number := mul_le_mul_of_nonneg_right near positive.le
    _ = spacing number / 2 := by ring

/-- The distance is small beside the number, or the smallest there is. -/
theorem spacing_le (nonzero : number ≠ 0) : spacing number ≤ |number| / 2 ^ 52 + 2 ^ (-1074 : ℤ) := by
  have small : (0 : ℚ) < 2 ^ (-1074 : ℤ) := by positivity
  have power : (2 : ℚ) ^ Int.log 2 |number| ≤ |number| := by
    exact_mod_cast Int.zpow_log_le_self (by norm_num) (abs_pos.mpr nonzero)
  rw [spacing]
  rcases max_choice (Int.log 2 |number| - 52) (-1074) with left | right
  · rw [left, zpow_sub₀ (by norm_num)]
    have scaled : (2 : ℚ) ^ Int.log 2 |number| / 2 ^ (52 : ℤ) ≤ |number| / 2 ^ 52 :=
      div_le_div_of_nonneg_right power (by norm_num)
    linarith
  · rw [right]
    have positive : 0 ≤ |number| / 2 ^ 52 := by positivity
    linarith

/-- Rounding keeps the size of a number, roughly. -/
theorem rounded_coarse (nonnegative : 0 ≤ number) :
    |roundEven (number / spacing number) * spacing number - number| ≤ number / 2 + 1 / 8 := by
  rcases nonnegative.eq_or_lt with rfl | positive
  · rw [zero_div, show roundEven 0 = 0 from roundEven_intCast 0]
    norm_num
  · have small := spacing_le positive.ne'
    rw [abs_of_pos positive] at small
    have fine : number / 2 ^ 52 ≤ number := div_le_self nonnegative (by norm_num)
    have least : (2 : ℚ) ^ (-1074 : ℤ) ≤ 2 ^ (-2 : ℤ) := zpow_le_zpow_right₀ (by norm_num) (by norm_num)
    have quarter : (2 : ℚ) ^ (-2 : ℤ) = 1 / 4 := by norm_num
    have unit : spacing number ≤ number + 1 / 4 := small.trans (add_le_add fine (least.trans_eq quarter))
    refine (rounded_near number).trans ?_
    linarith only [unit]

theorem nearest_coarse (nonnegative : 0 ≤ number) (found : nearest number = some double) :
    |double - number| ≤ number / 2 + 1 / 8 := by
  rw [(nearest_eq found).1]
  exact rounded_coarse nonnegative

/-- Only large numbers are rounded to infinity. -/
theorem one_le_of_nearest (nonnegative : 0 ≤ number) (infinite : nearest number = none) : 1 ≤ number := by
  rw [nearest] at infinite
  split_ifs at infinite with finite
  have large : (2 : ℚ) ≤ 2 ^ 1024 := by
    calc (2 : ℚ) = 2 ^ 1 := by norm_num
      _ ≤ 2 ^ 1024 := pow_le_pow_right₀ (by norm_num) (by norm_num)
  have past := large.trans (not_lt.mp finite)
  obtain ⟨low, high⟩ := abs_le.mp (rounded_coarse nonnegative)
  rcases le_abs'.mp past with below | above
  · linarith only [below, low, nonnegative]
  · linarith only [above, high]

theorem nearest_nonneg (nonnegative : 0 ≤ number) (found : nearest number = some double) : 0 ≤ double := by
  have positive := spacing_pos number
  have scaled : 0 ≤ number / spacing number := div_nonneg nonnegative positive.le
  have digits : 0 ≤ roundEven (number / spacing number) := by
    refine (le_roundEven_iff rfl).mpr ?_
    push_cast
    linarith
  rw [(nearest_eq found).1]
  exact mul_nonneg (by exact_mod_cast digits) positive.le

theorem digits_le (number : ℚ) : |roundEven (number / spacing number)| ≤ 2 ^ 53 := by
  have positive := spacing_pos number
  have below : |number / spacing number| < 2 ^ 53 := by
    rw [abs_div, abs_of_pos positive, div_lt_iff₀ positive, spacing]
    have high := Int.lt_zpow_succ_log_self (by norm_num : 1 < 2) |number|
    calc |number| < 2 ^ (Int.log 2 |number| + 1) := by exact_mod_cast high
      _ = 2 ^ (53 : ℤ) * 2 ^ (Int.log 2 |number| - 52) := by
        rw [← zpow_add₀ (by norm_num)]
        congr 1
        ring
      _ ≤ 2 ^ (53 : ℤ) * 2 ^ max (Int.log 2 |number| - 52) (-1074) := by
        gcongr
        · norm_num
        · exact le_max_left _ _
  have near := abs_le.mp (roundEven_near (number / spacing number))
  have bounds := abs_lt.mp below
  rw [abs_le]
  constructor
  · have low : ((-2 ^ 53 - 1 : ℤ) : ℚ) < roundEven (number / spacing number) := by
      push_cast
      linarith
    have := Int.cast_lt.mp low
    omega
  · have high : (roundEven (number / spacing number) : ℚ) < ((2 ^ 53 + 1 : ℤ) : ℚ) := by
      push_cast
      linarith
    have := Int.cast_lt.mp high
    omega

/-- A multiple of its own spacing is a double. -/
theorem nearest_of_multiple (count : ℤ) (multiple : double = count * spacing double) (finite : |double| < 2 ^ 1024) :
    nearest double = some double := by
  have count_eq : double / spacing double = count := by
    rw [div_eq_iff (spacing_pos double).ne']
    exact multiple
  rw [nearest, count_eq, roundEven_intCast, ← multiple]
  exact if_pos finite

@[simp] theorem nearest_zero : nearest 0 = some 0 :=
  nearest_of_multiple 0 (by norm_num) (by norm_num)

/-- Spacings are powers of two, each a multiple of the smaller ones. -/
theorem spacing_dvd {first second : ℤ} (le : first ≤ second) : ∃ count : ℤ, (2 : ℚ) ^ second = count * 2 ^ first := by
  refine ⟨2 ^ (second - first).toNat, ?_⟩
  push_cast
  rw [← zpow_natCast, ← zpow_add₀ (by norm_num), Int.toNat_of_nonneg (by omega)]
  congr 1
  ring

/-- A rounded number is rounded to itself. -/
theorem nearest_double (found : nearest number = some double) : nearest double = some double := by
  obtain ⟨same, finite⟩ := nearest_eq found
  by_cases zero : double = 0
  · refine nearest_of_multiple 0 ?_ finite
    rw [zero]
    norm_num
  set digits := roundEven (number / spacing number)
  set power := max (Int.log 2 |number| - 52) (-1074) with powerEq
  have unit : spacing number = 2 ^ power := rfl
  have bound := digits_le number
  have size : |double| = |digits| * 2 ^ power := by
    rw [same, abs_mul, abs_of_pos (spacing_pos number), unit, Int.cast_abs]
  have positive : (0 : ℚ) < 2 ^ power := by positivity
  rcases lt_or_eq_of_le bound with less | full
  · -- Below 2^53 spacings, the spacing at the double is not larger.
    have below : |double| < 2 ^ (power + 53) := by
      rw [size, zpow_add₀ (by norm_num), mul_comm ((2 : ℚ) ^ power)]
      have cast : ((|digits| : ℤ) : ℚ) < ((2 ^ 53 : ℤ) : ℚ) := Int.cast_lt.mpr less
      push_cast at cast
      exact mul_lt_mul_of_pos_right (by exact_mod_cast less) positive
    have log : Int.log 2 |double| < power + 53 :=
      (Int.lt_zpow_iff_log_lt (by norm_num) (abs_pos.mpr zero)).mp (by exact_mod_cast below)
    obtain ⟨count, multiple⟩ := spacing_dvd (show max (Int.log 2 |double| - 52) (-1074) ≤ power by omega)
    refine nearest_of_multiple (digits * count) ?_ finite
    rw [spacing, Int.cast_mul, mul_assoc, ← multiple, same, unit]
  · -- At 2^53 spacings, the spacing doubles.
    have whole : |double| = ((2 : ℕ) : ℚ) ^ (power + 53) := by
      rw [size, full, zpow_add₀ (by norm_num)]
      push_cast
      ring
    have log : Int.log 2 |double| = power + 53 := by
      rw [whole]
      exact Int.log_zpow (by norm_num) _
    have doubled : spacing double = 2 ^ (power + 1) := by
      rw [spacing, log]
      congr 1
      omega
    obtain ⟨half, halves⟩ : ∃ half, digits = 2 * half := by
      rcases abs_choice digits with same | same <;> rw [same] at full
      · exact ⟨2 ^ 52, by rw [full]; norm_num⟩
      · exact ⟨-2 ^ 52, by omega⟩
    refine nearest_of_multiple half ?_ finite
    rw [doubled, same, unit, halves, zpow_add₀ (by norm_num)]
    push_cast
    ring

/-- Every double is a multiple of the smallest one. -/
theorem double_grid (found : nearest number = some double) : ∃ count : ℤ, double = count * 2 ^ (-1074 : ℤ) := by
  obtain ⟨same, -⟩ := nearest_eq found
  obtain ⟨count, multiple⟩ := spacing_dvd (le_max_right (Int.log 2 |number| - 52) (-1074))
  refine ⟨roundEven (number / spacing number) * count, ?_⟩
  rw [Int.cast_mul, mul_assoc, ← multiple, same]
  rfl

/-! ## Integral parts -/

/-- Whether the double nearest to the number has the integral part: with spacings
below one, half a spacing is added, and with others all doubles are integers. -/
def HasFloor (number : ℚ) (part : ℤ) : Prop :=
  if spacing number < 1 then part ≤ number + spacing number / 2 ∧ number + spacing number / 2 < part + 1
  else nearest number = some (part : ℚ)

theorem floor_nearest_iff {part : ℤ} : (nearest number).map Int.floor = some part ↔ HasFloor number part := by
  have positive := spacing_pos number
  set digits := roundEven (number / spacing number) with digitsEq
  rw [HasFloor]
  split_ifs with fine
  · -- So many spacings are one, an even number of them.
    obtain ⟨half, halves⟩ : ∃ half : ℤ, spacing number * (2 * half) = 1 := by
      have negative : max (Int.log 2 |number| - 52) (-1074) < 0 := by
        by_contra large
        exact absurd fine (not_lt.mpr (one_le_zpow₀ (by norm_num) (not_lt.mp large)))
      obtain ⟨half, multiple⟩ := spacing_dvd (show max (Int.log 2 |number| - 52) (-1074) ≤ -1 by omega)
      refine ⟨half, ?_⟩
      rw [mul_left_comm, mul_comm (spacing number), spacing, ← multiple]
      norm_num
    have scaled (integer : ℤ) : (integer : ℚ) = (integer * (2 * half) : ℤ) * spacing number := by
      push_cast
      rw [mul_assoc, mul_comm _ (spacing number), halves, mul_one]
    have moved (integer : ℤ) : integer * (2 * half) ≤ digits ↔ (integer : ℚ) ≤ number + spacing number / 2 := by
      rw [digitsEq, le_roundEven_iff (by rw [mul_left_comm]; exact Int.mul_emod_right 2 _), le_div_iff₀ positive, sub_mul,
        ← scaled]
      constructor <;> intro <;> linarith
    have finite : nearest number = some (digits * spacing number) := by
      have bound : |((digits : ℤ) : ℚ)| ≤ 2 ^ 53 := by exact_mod_cast digits_le number
      refine if_pos ?_
      rw [abs_mul, abs_of_pos positive]
      calc |((digits : ℤ) : ℚ)| * spacing number ≤ 2 ^ 53 * 1 := mul_le_mul bound fine.le positive.le (by norm_num)
        _ < 2 ^ 1024 := by
          rw [mul_one]
          exact pow_lt_pow_right₀ (by norm_num) (by norm_num)
    rw [finite, Option.map_some, Option.some.injEq, Int.floor_eq_iff]
    have below (integer : ℤ) : (integer : ℚ) ≤ digits * spacing number ↔ (integer : ℚ) ≤ number + spacing number / 2 := by
      rw [← moved, scaled, mul_le_mul_iff_left₀ positive, Int.cast_le]
    have above := below (part + 1)
    push_cast at above
    rw [below, ← not_le, above, not_le]
  · -- All doubles are integers here.
    have large : 0 ≤ max (Int.log 2 |number| - 52) (-1074) := by
      by_contra negative
      exact fine (zpow_lt_one_of_neg₀ (by norm_num) (not_le.mp negative))
    cases found : nearest number with
    | none => simp
    | some double =>
      obtain ⟨same, -⟩ := nearest_eq found
      obtain ⟨count, multiple⟩ := spacing_dvd large
      have whole : double = ((digits * count : ℤ) : ℚ) := by
        rw [same, ← digitsEq, spacing, multiple]
        push_cast
        ring
      rw [whole, Option.map_some, Int.floor_intCast, Option.some.injEq, Option.some.injEq, Int.cast_inj]

end

end Double
