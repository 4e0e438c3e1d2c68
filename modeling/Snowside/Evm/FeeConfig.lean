import Mathlib.Tactic.Simps.Basic
import Snowside.Evm.Header
import Snowside.Partial.Checked

/-! Fee configurations and the check that accepts them. -/

set_option autoImplicit false

namespace Snowside.Evm

open Checked

structure FeeConfig where
  gasLimit : Option Int
  /-- In seconds. -/
  targetBlockRate : UInt64
  minBaseFee : Option Int
  targetGas : Option Int
  baseFeeChangeDenominator : Option Int
  minBlockGasCost : Option Int
  maxBlockGasCost : Option Int
  blockGasCostStep : Option Int
  deriving DecidableEq, Repr

inductive FeeConfigError where
  | gasLimitNil
  | minBaseFeeNil
  | targetGasNil
  | baseFeeChangeDenominatorNil
  | minBlockGasCostNil
  | maxBlockGasCostNil
  | blockGasCostStepNil
  | gasLimitTooLow (gasLimit : Int)
  | targetBlockRateTooLow (targetBlockRate : UInt64)
  | minBaseFeeNegative (minBaseFee : Int)
  | targetGasTooLow (targetGas : Int)
  | baseFeeChangeDenominatorTooLow (baseFeeChangeDenominator : Int)
  | minBlockGasCostNegative (minBlockGasCost : Int)
  | minBlockGasCostTooHigh (minBlockGasCost maxBlockGasCost : Int)
  | blockGasCostStepNegative (blockGasCostStep : Int)
  | maxBlockGasCostNotUint64 (maxBlockGasCost : Int)
  | gasLimitExceedsHashLength
  | targetBlockRateExceedsHashLength
  | minBaseFeeExceedsHashLength
  | targetGasExceedsHashLength
  | baseFeeChangeDenominatorExceedsHashLength
  | minBlockGasCostExceedsHashLength
  | maxBlockGasCostExceedsHashLength
  | blockGasCostStepExceedsHashLength
  deriving DecidableEq, Repr

/-- `IsUint64`. -/
def isUint64 (number : Int) : Bool := 0 ≤ number ∧ number < 2 ^ 64

/-- More than 32 bytes of magnitude. -/
def isBiggerThanHashLen (number : Int) : Bool := 2 ^ 256 ≤ number.natAbs

/-- The fields of a configuration without nil. -/
structure FeeValues where
  gasLimit : Int
  targetBlockRate : UInt64
  minBaseFee : Int
  targetGas : Int
  baseFeeChangeDenominator : Int
  minBlockGasCost : Int
  maxBlockGasCost : Int
  blockGasCostStep : Int
  deriving DecidableEq, Repr

namespace FeeValues

@[simps] def toConfig (fees : FeeValues) : FeeConfig where
  gasLimit := some fees.gasLimit
  targetBlockRate := fees.targetBlockRate
  minBaseFee := some fees.minBaseFee
  targetGas := some fees.targetGas
  baseFeeChangeDenominator := some fees.baseFeeChangeDenominator
  minBlockGasCost := some fees.minBlockGasCost
  maxBlockGasCost := some fees.maxBlockGasCost
  blockGasCostStep := some fees.blockGasCostStep

variable (fees : FeeValues)

/-- The second switch of `Verify`. -/
def checkBounds : Except FeeConfigError Unit := firstFailure [
  (fees.gasLimit ≤ 0, .gasLimitTooLow fees.gasLimit),
  (fees.targetBlockRate ≤ 0, .targetBlockRateTooLow fees.targetBlockRate),
  (fees.minBaseFee < 0, .minBaseFeeNegative fees.minBaseFee),
  (fees.targetGas ≤ 0, .targetGasTooLow fees.targetGas),
  (fees.baseFeeChangeDenominator ≤ 0, .baseFeeChangeDenominatorTooLow fees.baseFeeChangeDenominator),
  (fees.minBlockGasCost < 0, .minBlockGasCostNegative fees.minBlockGasCost),
  (fees.maxBlockGasCost < fees.minBlockGasCost, .minBlockGasCostTooHigh fees.minBlockGasCost fees.maxBlockGasCost),
  (fees.blockGasCostStep < 0, .blockGasCostStepNegative fees.blockGasCostStep),
  (!isUint64 fees.maxBlockGasCost, .maxBlockGasCostNotUint64 fees.maxBlockGasCost)]

def checkByteLens : Except FeeConfigError Unit := firstFailure [
  (isBiggerThanHashLen fees.gasLimit, .gasLimitExceedsHashLength),
  (isBiggerThanHashLen fees.targetBlockRate.toNat, .targetBlockRateExceedsHashLength),
  (isBiggerThanHashLen fees.minBaseFee, .minBaseFeeExceedsHashLength),
  (isBiggerThanHashLen fees.targetGas, .targetGasExceedsHashLength),
  (isBiggerThanHashLen fees.baseFeeChangeDenominator, .baseFeeChangeDenominatorExceedsHashLength),
  (isBiggerThanHashLen fees.minBlockGasCost, .minBlockGasCostExceedsHashLength),
  (isBiggerThanHashLen fees.maxBlockGasCost, .maxBlockGasCostExceedsHashLength),
  (isBiggerThanHashLen fees.blockGasCostStep, .blockGasCostStepExceedsHashLength)]

end FeeValues

namespace FeeConfig

/-- The first switch of `Verify`: no field is nil. -/
def values (config : FeeConfig) : Except FeeConfigError FeeValues := do
  let gasLimit ← need .gasLimitNil config.gasLimit
  let minBaseFee ← need .minBaseFeeNil config.minBaseFee
  let targetGas ← need .targetGasNil config.targetGas
  let baseFeeChangeDenominator ← need .baseFeeChangeDenominatorNil config.baseFeeChangeDenominator
  let minBlockGasCost ← need .minBlockGasCostNil config.minBlockGasCost
  let maxBlockGasCost ← need .maxBlockGasCostNil config.maxBlockGasCost
  let blockGasCostStep ← need .blockGasCostStepNil config.blockGasCostStep
  return { gasLimit, targetBlockRate := config.targetBlockRate, minBaseFee, targetGas, baseFeeChangeDenominator,
           minBlockGasCost, maxBlockGasCost, blockGasCostStep }

def verify (config : FeeConfig) : Except FeeConfigError Unit := do
  let fees ← config.values
  fees.checkBounds
  fees.checkByteLens

end FeeConfig

/-- The values that `Verify` accepts. -/
structure VerifiedFees extends FeeValues where
  gasLimit_pos : 0 < gasLimit
  gasLimit_lt : gasLimit < 2 ^ 256
  targetBlockRate_ne : targetBlockRate ≠ 0
  minBaseFee_nonneg : 0 ≤ minBaseFee
  minBaseFee_lt : minBaseFee < 2 ^ 256
  targetGas_pos : 0 < targetGas
  targetGas_lt : targetGas < 2 ^ 256
  baseFeeChangeDenominator_pos : 0 < baseFeeChangeDenominator
  baseFeeChangeDenominator_lt : baseFeeChangeDenominator < 2 ^ 256
  minBlockGasCost_nonneg : 0 ≤ minBlockGasCost
  minBlockGasCost_le : minBlockGasCost ≤ maxBlockGasCost
  maxBlockGasCost_lt : maxBlockGasCost < 2 ^ 64
  blockGasCostStep_nonneg : 0 ≤ blockGasCostStep
  blockGasCostStep_lt : blockGasCostStep < 2 ^ 256

@[simp] theorem FeeValues.values_toConfig (fees : FeeValues) : fees.toConfig.values = .ok fees := rfl

theorem FeeValues.toConfig_injective : Function.Injective toConfig := fun _ _ same =>
  Except.ok.inj (congrArg FeeConfig.values same)

theorem FeeConfig.values_eq_ok {config : FeeConfig} {fees : FeeValues} (found : config.values = .ok fees) :
    config = fees.toConfig := by
  simp only [values, bind_eq_ok, need_eq_ok, pure_eq, Except.ok.injEq] at found
  obtain ⟨gasLimit, same₁, minBaseFee, same₂, targetGas, same₃, denominator, same₄, minCost, same₅, maxCost, same₆, step,
    same₇, rfl⟩ := found
  obtain ⟨⟩ := config
  simp only at same₁ same₂ same₃ same₄ same₅ same₆ same₇
  simp only [FeeValues.toConfig, same₁, same₂, same₃, same₄, same₅, same₆, same₇]

theorem isBiggerThanHashLen_eq_false {number : Int} :
    isBiggerThanHashLen number = false ↔ -(2 ^ 256) < number ∧ number < 2 ^ 256 := by
  rw [isBiggerThanHashLen, decide_eq_false_iff_not]
  omega

namespace FeeValues

variable {fees : FeeValues}

theorem checkBounds_eq_ok : fees.checkBounds = .ok () ↔ 0 < fees.gasLimit ∧ fees.targetBlockRate ≠ 0 ∧
    0 ≤ fees.minBaseFee ∧ 0 < fees.targetGas ∧ 0 < fees.baseFeeChangeDenominator ∧ 0 ≤ fees.minBlockGasCost ∧
    fees.minBlockGasCost ≤ fees.maxBlockGasCost ∧ 0 ≤ fees.blockGasCostStep ∧
    (0 ≤ fees.maxBlockGasCost ∧ fees.maxBlockGasCost < 2 ^ 64) := by
  simp [checkBounds, firstFailure_eq_ok, isUint64]

theorem checkByteLens_eq_ok : fees.checkByteLens = .ok () ↔ ∀ number ∈ [fees.gasLimit, fees.targetBlockRate.toNat,
    fees.minBaseFee, fees.targetGas, fees.baseFeeChangeDenominator, fees.minBlockGasCost, fees.maxBlockGasCost,
    fees.blockGasCostStep], -(2 ^ 256) < number ∧ number < 2 ^ 256 := by
  simp [checkByteLens, firstFailure_eq_ok, isBiggerThanHashLen_eq_false]

end FeeValues

/-- `Verify` accepts exactly the verified values. -/
theorem FeeConfig.verify_eq_ok {config : FeeConfig} :
    config.verify = .ok () ↔ ∃ fees : VerifiedFees, config = fees.toConfig := by
  constructor
  · intro verified
    obtain ⟨fees, found, verified⟩ := bind_eq_ok.mp verified
    obtain ⟨_, bounded, short⟩ := bind_eq_ok.mp verified
    obtain ⟨gasLimit, rate, minBaseFee, targetGas, denominator, minCost, ordered, step, maxCost⟩ :=
      FeeValues.checkBounds_eq_ok.mp bounded
    have short := FeeValues.checkByteLens_eq_ok.mp short
    simp only [List.mem_cons, List.not_mem_nil, or_false, forall_eq_or_imp, forall_eq] at short
    obtain ⟨gasLimit', -, minBaseFee', targetGas', denominator', -, -, step'⟩ := short
    exact ⟨⟨fees, gasLimit, gasLimit'.2, rate, minBaseFee, minBaseFee'.2, targetGas, targetGas'.2,
      denominator, denominator'.2, minCost, ordered, maxCost.2, step, step'.2⟩, values_eq_ok found⟩
  · rintro ⟨fees, rfl⟩
    have bounded : fees.checkBounds = .ok () := FeeValues.checkBounds_eq_ok.mpr
      ⟨fees.gasLimit_pos, fees.targetBlockRate_ne, fees.minBaseFee_nonneg, fees.targetGas_pos,
        fees.baseFeeChangeDenominator_pos, fees.minBlockGasCost_nonneg, fees.minBlockGasCost_le,
        fees.blockGasCostStep_nonneg, fees.minBlockGasCost_nonneg.trans fees.minBlockGasCost_le,
        fees.maxBlockGasCost_lt⟩
    have short : fees.checkByteLens = .ok () := by
      obtain ⟨fees, gasLimit, gasLimit', rate, minBaseFee, minBaseFee', targetGas, targetGas', denominator,
        denominator', minCost, ordered, maxCost, step, step'⟩ := fees
      have := fees.targetBlockRate.toNat_lt
      -- What has bounds of its own is short.
      refine FeeValues.checkByteLens_eq_ok.mpr ?_
      simp only [List.mem_cons, List.not_mem_nil, or_false, forall_eq_or_imp, forall_eq]
      omega
    rw [verify, FeeValues.values_toConfig, ok_bind, bounded, ok_bind]
    exact short

end Snowside.Evm
