import Mathlib.Tactic.Ring
import Snowside.Evm.BaseFee

/-! The gas cost of a block, and the fees that pay for it. -/

set_option autoImplicit false

namespace Snowside.Evm

open Checked

/-! ## Numbers that do not wrap -/

namespace Safemath

def absDiff (x y : UInt64) : UInt64 := if x < y then y - x else x - y

def add (x y : UInt64) : Option UInt64 := if x.toNat + y.toNat ≤ maxUint64 then some (x + y) else none

def sub (x y : UInt64) : Option UInt64 := if y ≤ x then some (x - y) else none

def mul (x y : UInt64) : Option UInt64 := if x.toNat * y.toNat ≤ maxUint64 then some (x * y) else none

theorem absDiff_toNat (x y : UInt64) : ((absDiff x y).toNat : Int) = |(x.toNat : Int) - y.toNat| := by
  unfold absDiff
  split
  · next less =>
    have apart := UInt64.toNat_sub_of_le _ _ (UInt64.le_of_lt less)
    have := UInt64.lt_iff_toNat_lt.mp less
    rw [abs_of_neg (by omega)]
    omega
  · next more =>
    have apart := UInt64.toNat_sub_of_le _ _ (UInt64.not_lt.mp more)
    have := UInt64.le_iff_toNat_le.mp (UInt64.not_lt.mp more)
    rw [abs_of_nonneg (by omega)]
    omega

/-- A product that saturates. -/
theorem mul_getD (x y : UInt64) : ((mul x y).getD (.ofNat maxUint64)).toNat = min maxUint64 (x.toNat * y.toNat) := by
  unfold mul
  split
  · next fits =>
    rw [Option.getD_some, UInt64.toNat_mul, Nat.mod_eq_of_lt (by unfold maxUint64 at fits; omega), min_eq_right fits]
  · next large => rw [Option.getD_none, maxUint64_toNat, min_eq_left (by omega)]

theorem add_toNat {x y z : UInt64} (found : add x y = some z) : z.toNat = x.toNat + y.toNat := by
  unfold add at found
  split at found
  · next fits =>
    cases found
    rw [UInt64.toNat_add, Nat.mod_eq_of_lt (by unfold maxUint64 at fits; omega)]
  · cases found

theorem add_eq_none {x y : UInt64} : add x y = none ↔ maxUint64 < x.toNat + y.toNat := by
  unfold add
  split <;> simp <;> omega

theorem sub_toNat {x y z : UInt64} (found : sub x y = some z) : z.toNat + y.toNat = x.toNat := by
  unfold sub at found
  split at found
  · next fits =>
    cases found
    have := UInt64.le_iff_toNat_le.mp fits
    rw [UInt64.toNat_sub_of_le _ _ fits]
    omega
  · cases found

theorem sub_eq_none {x y : UInt64} : sub x y = none ↔ x.toNat < y.toNat := by
  simp only [sub, UInt64.le_iff_toNat_le]
  split <;> simp <;> omega

end Safemath

/-! ## The cost -/

namespace Blockgascost

/-- A longer time than the target lowers the cost of the parent, and a shorter one raises it. -/
def costWithin (minBlockGasCost maxBlockGasCost targetBlockRate parentCost step timeElapsed : UInt64) : UInt64 :=
  let deviation := Safemath.absDiff targetBlockRate timeElapsed
  let change := (Safemath.mul step deviation).getD (.ofNat maxUint64)
  let cost :=
    if targetBlockRate < timeElapsed then (Safemath.sub parentCost change).getD minBlockGasCost
    else (Safemath.add parentCost change).getD maxBlockGasCost
  if cost < minBlockGasCost then minBlockGasCost else if maxBlockGasCost < cost then maxBlockGasCost else cost

def blockGasCost (feeConfig : FeeConfig) (parentCost step timeElapsed : UInt64) : Except Fault UInt64 := do
  let minBlockGasCost ← need .nilPointer feeConfig.minBlockGasCost
  let maxBlockGasCost ← need .nilPointer feeConfig.maxBlockGasCost
  return costWithin (bigUint64 minBlockGasCost) (bigUint64 maxBlockGasCost) feeConfig.targetBlockRate parentCost step
    timeElapsed

end Blockgascost

def blockGasCostWithStep (feeConfig : FeeConfig) (parentCost : Option Int) (step timeElapsed : UInt64) :
    Except Fault UInt64 :=
  match parentCost with
  | none => (need .nilPointer feeConfig.minBlockGasCost).map bigUint64
  | some parentCost => Blockgascost.blockGasCost feeConfig (bigUint64 parentCost) step timeElapsed

/-- None before SubnetEVM, and zero in Granite. -/
def blockGasCost (config : NetworkUpgrades) (feeConfig : FeeConfig) (parent : Header) (timestamp : UInt64) :
    Except Fault (Option Int) :=
  if config.isSubnetEVM timestamp = false then .ok none
  else if config.isGranite timestamp then .ok (some 0)
  else do
    let step ← need .nilPointer feeConfig.blockGasCostStep
    let timeElapsed := if parent.time ≤ timestamp then timestamp - parent.time else 0
    let cost ← blockGasCostWithStep feeConfig parent.blockGasCost (bigUint64 step) timeElapsed
    return some cost.toNat

namespace FeeValues

variable (fees : FeeValues)

def clampCost (cost : Int) : Int := max fees.minBlockGasCost (min cost fees.maxBlockGasCost)

/-- The cost without a bound on any number in between. -/
def nextBlockGasCost (step : Int) (parentCost timeElapsed : Nat) : Int :=
  fees.clampCost (parentCost + step * (fees.targetBlockRate.toNat - timeElapsed))

def exactBlockGasCost (config : NetworkUpgrades) (parent : Header) (timestamp : UInt64) : Option Int :=
  if config.isSubnetEVM timestamp = false then none
  else if config.isGranite timestamp then some 0
  else
    match parent.blockGasCost with
    | none => some fees.minBlockGasCost
    | some parentCost =>
        some (fees.nextBlockGasCost fees.blockGasCostStep (bigUint64 parentCost).toNat
          (timestamp.toNat - parent.time.toNat))

end FeeValues

variable (fees : VerifiedFees)

theorem costs_narrow : ((bigUint64 fees.minBlockGasCost).toNat : Int) = fees.minBlockGasCost ∧
    ((bigUint64 fees.maxBlockGasCost).toNat : Int) = fees.maxBlockGasCost :=
  ⟨bigUint64_eq fees.minBlockGasCost_nonneg (fees.minBlockGasCost_le.trans_lt fees.maxBlockGasCost_lt),
    bigUint64_eq (fees.minBlockGasCost_nonneg.trans fees.minBlockGasCost_le) fees.maxBlockGasCost_lt⟩

theorem clamped_toNat {lower upper : UInt64} (ordered : lower.toNat ≤ upper.toNat) (value : UInt64) :
    (if value < lower then lower else if upper < value then upper else value).toNat =
      max lower.toNat (min value.toNat upper.toNat) := by
  simp only [UInt64.lt_iff_toNat_lt]
  split
  · omega
  · split <;> omega

/-- An increase past the largest number is past the upper bound. -/
theorem raised_toNat (parentCost change upper : UInt64) :
    min ((Safemath.add parentCost change).getD upper).toNat upper.toNat =
      min (parentCost.toNat + change.toNat) upper.toNat := by
  have := toNat_le_max upper
  cases found : Safemath.add parentCost change with
  | none =>
    have := Safemath.add_eq_none.mp found
    rw [Option.getD_none]
    omega
  | some cost => rw [Option.getD_some, Safemath.add_toNat found]

/-- A decrease past zero is past the lower bound. -/
theorem lowered_toNat (parentCost change lower : UInt64) :
    max lower.toNat ((Safemath.sub parentCost change).getD lower).toNat =
      max lower.toNat (parentCost.toNat - change.toNat) := by
  cases found : Safemath.sub parentCost change with
  | none =>
    have := Safemath.sub_eq_none.mp found
    rw [Option.getD_none]
    omega
  | some cost =>
    have := Safemath.sub_toNat found
    rw [Option.getD_some]
    omega

/-- What saturates on the way is clamped at the end. -/
theorem Blockgascost.costWithin_toNat {lower upper : UInt64} (ordered : lower.toNat ≤ upper.toNat)
    (rate parentCost step timeElapsed : UInt64) :
    ((costWithin lower upper rate parentCost step timeElapsed).toNat : Int) =
      max (lower.toNat : Int) (min (parentCost.toNat + step.toNat * (rate.toNat - timeElapsed.toNat)) upper.toNat) := by
  -- Only the size of the change can have saturated, and then a bound is reached.
  have deviation := Safemath.absDiff_toNat rate timeElapsed
  have saturated := Safemath.mul_getD step (Safemath.absDiff rate timeElapsed)
  have fits := toNat_le_max upper
  have parent_fits := toNat_le_max parentCost
  unfold costWithin
  rw [clamped_toNat ordered]
  generalize (Safemath.mul step _).getD _ = change at *
  generalize Safemath.absDiff rate timeElapsed = distance at *
  simp only [UInt64.lt_iff_toNat_lt]
  split
  · next slow =>
    have product : (step.toNat : Int) * (rate.toNat - timeElapsed.toNat) = -(step.toNat * distance.toNat : Nat) := by
      rw [Nat.cast_mul, deviation, abs_of_neg (by omega)]
      ring
    have lowered := lowered_toNat parentCost change lower
    omega
  · next fast =>
    have product : (step.toNat : Int) * (rate.toNat - timeElapsed.toNat) = (step.toNat * distance.toNat : Nat) := by
      rw [Nat.cast_mul, deviation, abs_of_nonneg (by omega)]
    have raised := raised_toNat parentCost change upper
    omega

theorem Blockgascost.blockGasCost_eq (parentCost step timeElapsed : UInt64) :
    ∃ cost, Blockgascost.blockGasCost fees.toConfig parentCost step timeElapsed = .ok cost ∧
      (cost.toNat : Int) = fees.nextBlockGasCost step.toNat parentCost.toNat timeElapsed.toNat := by
  obtain ⟨minimum, maximum⟩ := costs_narrow fees
  have ordered := fees.minBlockGasCost_le
  refine ⟨_, rfl, ?_⟩
  rw [costWithin_toNat (by omega), minimum, maximum]
  rfl

/-- Whatever overflows on the way, the cost is the formula over the integers, clamped. -/
theorem Blockgascost.blockGasCost_clamped {feeConfig : FeeConfig} {minimum maximum : UInt64}
    (lower : feeConfig.minBlockGasCost = some (minimum.toNat : Int))
    (upper : feeConfig.maxBlockGasCost = some (maximum.toNat : Int)) (ordered : minimum ≤ maximum)
    (parentCost step timeElapsed : UInt64) :
    ∃ cost, Blockgascost.blockGasCost feeConfig parentCost step timeElapsed = .ok cost ∧
      (cost.toNat : Int) = max (minimum.toNat : Int) (min
        (parentCost.toNat + step.toNat * (feeConfig.targetBlockRate.toNat - timeElapsed.toNat)) maximum.toNat) := by
  have narrow : ∀ number : UInt64, bigUint64 number.toNat = number := by
    intro number
    have same := bigUint64_eq (Int.natCast_nonneg number.toNat) (by exact_mod_cast number.toNat_lt)
    exact UInt64.toNat_inj.mp (by exact_mod_cast same)
  refine ⟨costWithin minimum maximum feeConfig.targetBlockRate parentCost step timeElapsed, ?_, ?_⟩
  · unfold Blockgascost.blockGasCost
    rw [lower, upper, need_some, ok_bind, need_some, ok_bind, narrow, narrow, pure_eq]
  · exact costWithin_toNat (UInt64.le_iff_toNat_le.mp ordered) feeConfig.targetBlockRate parentCost step timeElapsed

/-- Costs between 5 and 100, and a block a day. -/
def Blockgascost.sampleConfig : FeeConfig := ⟨none, 86400, none, none, none, some 5, some 100, none⟩

/-- A change past the largest number ends at the upper bound. -/
theorem Blockgascost.blockGasCost_clamped_sample :
    ∃ cost, Blockgascost.blockGasCost Blockgascost.sampleConfig 7 1000000000000000000 1 = .ok cost ∧ (cost.toNat : Int) = 100 := by
  obtain ⟨cost, found, same⟩ := @Blockgascost.blockGasCost_clamped Blockgascost.sampleConfig 5 100 rfl rfl (by decide) 7
    1000000000000000000 1
  exact ⟨cost, found, same.trans (by decide)⟩

/-- The step is the only field that is narrowed on the way to the cost. -/
theorem blockGasCost_eq (config : NetworkUpgrades) (parent : Header) (timestamp : UInt64) :
    blockGasCost config fees.toConfig parent timestamp =
      .ok ({ fees.toFeeValues with blockGasCostStep := (bigUint64 fees.blockGasCostStep).toNat }.exactBlockGasCost
        config parent timestamp) := by
  unfold blockGasCost FeeValues.exactBlockGasCost
  split
  · rfl
  split
  · rfl
  -- A child before its parent counts as one of the same second.
  have elapsed : (if parent.time ≤ timestamp then timestamp - parent.time else 0).toNat =
      timestamp.toNat - parent.time.toNat := by
    split
    · next forward => exact UInt64.toNat_sub_of_le _ _ forward
    · next back =>
      have := UInt64.lt_iff_toNat_lt.mp (UInt64.not_le.mp back)
      rw [UInt64.toNat_zero]
      omega
  rw [← elapsed]
  generalize (if parent.time ≤ timestamp then timestamp - parent.time else 0) = timeElapsed
  cases parent.blockGasCost with
  | none =>
    obtain ⟨minimum, -⟩ := costs_narrow fees
    simp only [FeeValues.toConfig_blockGasCostStep, need_some, ok_bind, blockGasCostWithStep,
      FeeValues.toConfig_minBlockGasCost]
    exact congrArg (fun cost => Except.ok (some cost)) minimum
  | some parentCost =>
    obtain ⟨cost, found, same⟩ :=
      Blockgascost.blockGasCost_eq fees (bigUint64 parentCost) (bigUint64 fees.blockGasCostStep) timeElapsed
    simp only [FeeValues.toConfig_blockGasCostStep, need_some, ok_bind, blockGasCostWithStep, found, pure_eq]
    exact congrArg (fun cost => Except.ok (some cost)) same

/-! ## The block fee -/

/-- Of a receipt, the gas its transaction used. -/
structure Receipt where
  gasUsed : UInt64
  deriving DecidableEq, Repr

inductive BlockFeeError (TipError : Type) where
  | invalidBaseFee (baseFee : Option Int)
  | invalidRequiredBlockGasCost (requiredBlockGasCost : Option Int)
  | invalidExtraStateChangeContribution (contribution : Int)
  | tip (cause : TipError)
  /-- Panic: a receipt has no transaction. -/
  | indexOutOfRange
  | fault (cause : Fault)
  | insufficientBlockGas (expected found : Int)
  deriving DecidableEq, Repr

section

variable {Transaction TipError : Type}
  -- The tip per gas that a transaction pays over a base fee.
  (effectiveGasTip : Transaction → Int → Except TipError Int)

/-- Adds what each transaction paid over the base fee. -/
def addPremiums (baseFee total : Int) : List Transaction → List Receipt → Except (BlockFeeError TipError) Int
  | _, [] => .ok total
  | [], _ :: _ => .error .indexOutOfRange
  | tx :: txs, receipt :: receipts => do
      let txFeePremium ← (effectiveGasTip tx baseFee).mapError .tip
      addPremiums baseFee (total + txFeePremium * receipt.gasUsed.toNat) txs receipts

def verifyBlockFee (baseFee requiredBlockGasCost : Option Int) (txs : List Transaction) (receipts : List Receipt)
    (extraStateChangeContribution : Option Int) : Except (BlockFeeError TipError) Unit := do
  let positive ← need (.invalidBaseFee baseFee) (baseFee.filter (0 < ·))
  let required ← need (.invalidRequiredBlockGasCost requiredBlockGasCost) (requiredBlockGasCost.filter (isUint64 ·))
  if required = 0 then return
  else
    let contribution := extraStateChangeContribution.getD 0
    refuse (contribution < 0) (.invalidExtraStateChangeContribution contribution)
    let totalBlockFee ← addPremiums effectiveGasTip positive contribution txs receipts
    let blockGas ← (bigDiv totalBlockFee positive).mapError .fault
    refuse (blockGas < required) (.insufficientBlockGas required blockGas)

variable {effectiveGasTip}

theorem addPremiums_error {baseFee total : Int} {txs : List Transaction} {receipts : List Receipt}
    {error : BlockFeeError TipError} (failed : addPremiums effectiveGasTip baseFee total txs receipts = .error error) :
    error = .indexOutOfRange ∨ ∃ cause, error = .tip cause := by
  induction receipts generalizing txs total with
  | nil => cases txs <;> cases failed
  | cons receipt receipts ih =>
    cases txs with
    | nil => exact .inl (Except.error.inj failed).symm
    | cons tx txs =>
      unfold addPremiums at failed
      cases tipped : effectiveGasTip tx baseFee with
      | error cause =>
        rw [tipped] at failed
        exact .inr ⟨cause, (Except.error.inj failed).symm⟩
      | ok txFeePremium =>
        rw [tipped] at failed
        exact ih failed

/-- A positive base fee is valid, and divides. -/
theorem verifyBlockFee_positive {baseFee : Int} (positive : 0 < baseFee) {requiredBlockGasCost : Option Int}
    {txs : List Transaction} {receipts : List Receipt} {contribution : Option Int} {error : BlockFeeError TipError}
    (failed : verifyBlockFee effectiveGasTip (some baseFee) requiredBlockGasCost txs receipts contribution =
      .error error) :
    (∀ rejected, error ≠ .invalidBaseFee rejected) ∧ error ≠ .fault .divisionByZero := by
  have valid : (some baseFee).filter (0 < ·) = some baseFee := by simp [positive]
  rw [verifyBlockFee, valid, need_some, ok_bind] at failed
  obtain invalid | ⟨required, -, failed⟩ := bind_eq_error.mp failed
  · obtain ⟨-, rfl⟩ := need_eq_error.mp invalid
    exact ⟨fun _ => by simp, by simp⟩
  split at failed
  · cases failed
  obtain invalid | ⟨-, -, failed⟩ := bind_eq_error.mp failed
  · obtain ⟨-, rfl⟩ := refuse_eq_error.mp invalid
    exact ⟨fun _ => by simp, by simp⟩
  -- The premiums fail with errors of their own.
  obtain failed | ⟨totalBlockFee, -, failed⟩ := bind_eq_error.mp failed
  · obtain rfl | ⟨cause, rfl⟩ := addPremiums_error failed
    · exact ⟨fun _ => by simp, by simp⟩
    · exact ⟨fun _ => by simp, by simp⟩
  rw [bigDiv, if_neg positive.ne'] at failed
  obtain ⟨-, rfl⟩ := refuse_eq_error.mp failed
  exact ⟨fun _ => by simp, by simp⟩

end

end Snowside.Evm
