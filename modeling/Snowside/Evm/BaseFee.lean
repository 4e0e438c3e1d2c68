import Mathlib.Algebra.Order.Group.Int
import Mathlib.Tactic.Linarith
import Snowside.Evm.FeeConfig
import Snowside.Evm.FeeWindow

/-! The base fee of a child block. -/

set_option autoImplicit false

namespace Snowside.Evm

open Checked

/-- `Uint64` of a big integer: the low bits of its magnitude. -/
def bigUint64 (number : Int) : UInt64 := .ofNat number.natAbs

/-- `Int64` of a big integer: the low bits of its magnitude as a signed number,
with its sign. -/
def bigInt64 (number : Int) : Int :=
  (if number < 0 then -BitVec.ofNat 64 number.natAbs else BitVec.ofNat 64 number.natAbs).toInt

/-- `Div` of big integers. -/
def bigDiv (number divisor : Int) : Except Fault Int :=
  if divisor = 0 then .error .divisionByZero else .ok (number / divisor)

def maxUint256 : Int := 2 ^ 256 - 1

def selectBigWithinBounds (lowerBound : Option Int) (value : Int) (upperBound : Option Int) : Int :=
  if lowerBound.any fun bound => value < bound then lowerBound.getD value
  else if upperBound.any fun bound => bound < value then upperBound.getD value
  else value

/-- The change of the base fee for a distance from the gas target. -/
def baseFeeDelta (distance : UInt64) (parentBaseFee : Int) (parentGasTarget : UInt64)
    (baseFeeChangeDenominator : Option Int) : Except Fault Int := do
  let share ← bigDiv (distance.toNat * parentBaseFee) parentGasTarget.toNat
  let denominator ← need .nilPointer baseFeeChangeDenominator
  let num ← bigDiv share denominator
  return max num 1

/-- The child is the first block with a base fee. -/
abbrev FirstBlock (config : NetworkUpgrades) (parent : Header) : Prop :=
  config.isSubnetEVM parent.time = false ∨ parent.number = 0

def baseFeeFromWindow (config : NetworkUpgrades) (feeConfig : FeeConfig) (parent : Header) (timestamp : UInt64) :
    Except Fault Int :=
  if FirstBlock config parent then do
    let minBaseFee ← need .nilPointer feeConfig.minBaseFee
    return bigInt64 minBaseFee
  else do
    let dynamicFeeWindow ← feeWindow config parent timestamp
    let baseFee ← need .nilPointer parent.baseFee
    let targetGas ← need .nilPointer feeConfig.targetGas
    let parentGasTarget := bigUint64 targetGas
    let totalGas := dynamicFeeWindow.sum
    -- The base fee is kept as it is, even out of bounds.
    if totalGas = parentGasTarget then return baseFee
    else if parentGasTarget < totalGas then
      let delta ← baseFeeDelta (totalGas - parentGasTarget) baseFee parentGasTarget feeConfig.baseFeeChangeDenominator
      return selectBigWithinBounds feeConfig.minBaseFee (baseFee + delta) (some maxUint256)
    else
      let delta ← baseFeeDelta (parentGasTarget - totalGas) baseFee parentGasTarget feeConfig.baseFeeChangeDenominator
      if timestamp < parent.time then throw (.invalidTimestamp timestamp parent.time)
      else
        -- Once for every window without a block.
        let windowsElapsed := (timestamp - parent.time) / 10
        let delta := if 1 < windowsElapsed then delta * windowsElapsed.toNat else delta
        return selectBigWithinBounds feeConfig.minBaseFee (baseFee - delta) (some maxUint256)

/-- `BaseFee`; before SubnetEVM there is none. -/
def baseFee (config : NetworkUpgrades) (feeConfig : FeeConfig) (parent : Header) (timeMS : UInt64) :
    Except Fault (Option Int) :=
  if config.isSubnetEVM (timeMS / 1000) then (baseFeeFromWindow config feeConfig parent (timeMS / 1000)).map some
  else .ok none

/-! ## Narrow numbers -/

theorem bigUint64_eq {number : Int} (nonneg : 0 ≤ number) (small : number < 2 ^ 64) :
    ((bigUint64 number).toNat : Int) = number := by
  have : number.natAbs < 2 ^ 64 := by omega
  rw [bigUint64, UInt64.toNat_ofNat', Nat.mod_eq_of_lt this]
  omega

theorem bigUint64_toNat (number : Int) : (bigUint64 number).toNat = number.natAbs % 2 ^ 64 := UInt64.toNat_ofNat'

theorem bigInt64_eq {number : Int} (nonneg : 0 ≤ number) : bigInt64 number = number ↔ number < 2 ^ 63 := by
  have reduced : bigInt64 number = (number.natAbs : Int).bmod (2 ^ 64) := by
    rw [bigInt64, if_neg (not_lt.mpr nonneg), BitVec.toInt_ofNat']
  rw [reduced, Int.bmod_def]
  split <;> omega

/-! ## The bounds -/

/-- The bound of the base fee that a configuration sets. -/
def FeeValues.clamp (fees : FeeValues) (value : Int) : Int :=
  if value < fees.minBaseFee then fees.minBaseFee else min value maxUint256

theorem selectBigWithinBounds_eq (fees : FeeValues) (value : Int) :
    selectBigWithinBounds fees.toConfig.minBaseFee value (some maxUint256) = fees.clamp value := by
  unfold selectBigWithinBounds FeeValues.clamp
  simp only [FeeValues.toConfig, Option.any_some, decide_eq_true_eq, Option.getD_some]
  split
  · rfl
  · split <;> omega

/-! ## The formula over the integers -/

namespace FeeValues

variable (fees : FeeValues)

/-- The change for the total gas of the window, of which none is too small. -/
def delta (totalGas parentBaseFee : Int) : Int :=
  max (|totalGas - fees.targetGas| * parentBaseFee / fees.targetGas / fees.baseFeeChangeDenominator) 1

/-- The base fee after the window, with every field as the integer it is. -/
def nextBaseFee (totalGas parentBaseFee : Int) (timeElapsed : Nat) : Int :=
  if totalGas = fees.targetGas then parentBaseFee
  else if fees.targetGas < totalGas then fees.clamp (parentBaseFee + fees.delta totalGas parentBaseFee)
  else fees.clamp (parentBaseFee - fees.delta totalGas parentBaseFee * max 1 (timeElapsed / windowLen : Nat))

def exactBaseFee (config : NetworkUpgrades) (parent : Header) (timestamp : UInt64) : Except Fault Int :=
  if FirstBlock config parent then .ok fees.minBaseFee
  else do
    let window ← feeWindow config parent timestamp
    let parentBaseFee ← need .nilPointer parent.baseFee
    return fees.nextBaseFee window.sum.toNat parentBaseFee (timestamp.toNat - parent.time.toNat)

end FeeValues

variable {config : NetworkUpgrades} {fees : FeeValues} {parent : Header} {timestamp : UInt64}

theorem feeWindow_forward {window : Window} (later : ¬ FirstBlock config parent)
    (found : feeWindow config parent timestamp = .ok window) : parent.time ≤ timestamp := by
  unfold feeWindow at found
  rw [if_neg later] at found
  split at found
  · cases found
  · split at found
    · cases found
    · next forward => exact UInt64.not_lt.mp forward

theorem baseFeeDelta_eq {distance target : UInt64} {totalGas : Int} (parentBaseFee : Int)
    (exact_target : (target.toNat : Int) = fees.targetGas) (apart : (distance.toNat : Int) = |totalGas - fees.targetGas|)
    (positive : fees.targetGas ≠ 0) (divisible : fees.baseFeeChangeDenominator ≠ 0) :
    baseFeeDelta distance parentBaseFee target fees.toConfig.baseFeeChangeDenominator =
      .ok (fees.delta totalGas parentBaseFee) := by
  have share : bigDiv (distance.toNat * parentBaseFee) target.toNat =
      .ok (|totalGas - fees.targetGas| * parentBaseFee / fees.targetGas) := by
    rw [bigDiv, exact_target, if_neg positive, apart]
  rw [baseFeeDelta, share, ok_bind, FeeValues.toConfig_baseFeeChangeDenominator, need_some, ok_bind, bigDiv,
    if_neg divisible, ok_bind, pure_eq, FeeValues.delta]

/-- One decrease for every whole window, and one at least. -/
theorem windows_elapsed (delta : Int) (elapsed : UInt64) :
    (if 1 < elapsed / 10 then delta * (elapsed / 10).toNat else delta) =
      delta * (max 1 (elapsed.toNat / windowLen) : Nat) := by
  have whole : (elapsed / 10).toNat = elapsed.toNat / windowLen := UInt64.toNat_div _ _
  simp only [UInt64.lt_iff_toNat_lt, whole, UInt64.toNat_one]
  split
  · next more => rw [max_eq_right more.le]
  · next one => rw [max_eq_left (Nat.not_lt.mp one), Nat.cast_one, mul_one]

/-- Where the narrowed fields keep their values, so does the formula. -/
theorem baseFeeFromWindow_eq (fees : VerifiedFees) (target : fees.targetGas < 2 ^ 64) (minimum : fees.minBaseFee < 2 ^ 63)
    (config : NetworkUpgrades) (parent : Header) (timestamp : UInt64) :
    baseFeeFromWindow config fees.toConfig parent timestamp = fees.exactBaseFee config parent timestamp := by
  have exact_target := bigUint64_eq fees.targetGas_pos.le target
  have positive := fees.targetGas_pos.ne'
  have divisible := fees.baseFeeChangeDenominator_pos.ne'
  unfold baseFeeFromWindow FeeValues.exactBaseFee
  by_cases first : FirstBlock config parent
  · rw [if_pos first, if_pos first]
    simp only [FeeValues.toConfig, need_some, ok_bind, pure_eq, (bigInt64_eq fees.minBaseFee_nonneg).mpr minimum]
  rw [if_neg first, if_neg first]
  cases found : feeWindow config parent timestamp with
  | error fault => rfl
  | ok window =>
    cases parent.baseFee with
    | none => rfl
    | some baseFee =>
      rw [need_some, ok_bind, ok_bind, ok_bind, ok_bind, FeeValues.toConfig_targetGas, need_some, ok_bind, pure_eq,
        FeeValues.nextBaseFee]
      have forward := feeWindow_forward first found
      have elapsed : (timestamp - parent.time).toNat = timestamp.toNat - parent.time.toNat :=
        UInt64.toNat_sub_of_le _ _ forward
      generalize window.sum = totalGas
      generalize bigUint64 fees.targetGas = target at exact_target
      -- Each side of the target has its subtraction, which does not wrap there.
      obtain above | same | below := Nat.lt_trichotomy target.toNat totalGas.toNat
      · have apart := UInt64.toNat_sub_of_le _ _ (UInt64.le_iff_toNat_le.mpr above.le)
        have distance : ((totalGas - target).toNat : Int) = |(totalGas.toNat : Int) - fees.targetGas| := by
          rw [abs_of_pos (by omega)]
          omega
        rw [if_neg fun same => by subst same; omega, if_pos (UInt64.lt_iff_toNat_lt.mpr above), if_neg (by omega),
          if_pos (by omega), baseFeeDelta_eq baseFee exact_target distance positive divisible, ok_bind,
          selectBigWithinBounds_eq, pure_eq]
      · rw [if_pos (UInt64.toNat_inj.mp same.symm), if_pos (by omega), pure_eq]
      · have apart := UInt64.toNat_sub_of_le _ _ (UInt64.le_iff_toNat_le.mpr below.le)
        have distance : ((target - totalGas).toNat : Int) = |(totalGas.toNat : Int) - fees.targetGas| := by
          rw [abs_of_neg (by omega)]
          omega
        rw [if_neg fun same => by subst same; omega, if_neg fun above => by have := UInt64.lt_iff_toNat_lt.mp above; omega,
          if_neg (by omega), if_neg (by omega), baseFeeDelta_eq baseFee exact_target distance positive divisible, ok_bind,
          if_neg (UInt64.not_lt.mpr forward)]
        simp only [selectBigWithinBounds_eq, windows_elapsed, elapsed]

end Snowside.Evm
