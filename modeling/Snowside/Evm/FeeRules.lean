import Snowside.Evm.BlockGasCost

/-! The gas limit of a block, and the fee rules over the fields of a configuration as they are. -/

set_option autoImplicit false

namespace Snowside.Evm

open Checked

/-- Constants of the protocol for gas limits before SubnetEVM. -/
structure ProtocolParams where
  minGasLimit : UInt64
  maxGasLimit : UInt64
  gasLimitBoundDivisor : UInt64
  deriving DecidableEq, Repr

inductive GasLimitError where
  | fault (cause : Fault)
  | unexpected (expected : Int) (found : UInt64)
  | outOfRange (found minimum maximum : UInt64)
  | tooFar (found parentGasLimit limit : UInt64)
  deriving DecidableEq, Repr

def gasLimit (config : NetworkUpgrades) (feeConfig : FeeConfig) (parent : Header) (timeMS : UInt64) :
    Except Fault UInt64 :=
  if config.isSubnetEVM (timeMS / 1000) then (need .nilPointer feeConfig.gasLimit).map bigUint64
  else .ok parent.gasLimit

/-- `VerifyGasLimit` before SubnetEVM. -/
def verifyGasLimitBounds (params : ProtocolParams) (parent header : Header) : Except GasLimitError Unit := do
  refuse (header.gasLimit < params.minGasLimit ∨ params.maxGasLimit < header.gasLimit)
    (.outOfRange header.gasLimit params.minGasLimit params.maxGasLimit)
  let diff := Safemath.absDiff parent.gasLimit header.gasLimit
  let limit := parent.gasLimit / params.gasLimitBoundDivisor
  refuse (limit ≤ diff) (.tooFar header.gasLimit parent.gasLimit limit)

def verifyGasLimit (params : ProtocolParams) (config : NetworkUpgrades) (feeConfig : FeeConfig)
    (parent header : Header) : Except GasLimitError Unit :=
  if config.isSubnetEVM header.time then do
    let gasLimit ← need (.fault .nilPointer) feeConfig.gasLimit
    refuse (header.gasLimit ≠ bigUint64 gasLimit) (.unexpected (bigUint64 gasLimit).toNat header.gasLimit)
  else verifyGasLimitBounds params parent header

/-! ## Fields as they are -/

namespace FeeValues

variable (fees : FeeValues)

def exactGasLimit (config : NetworkUpgrades) (parent : Header) (timeMS : UInt64) : Int :=
  if config.isSubnetEVM (timeMS / 1000) then fees.gasLimit else parent.gasLimit.toNat

def exactVerifyGasLimit (params : ProtocolParams) (config : NetworkUpgrades) (parent header : Header) :
    Except GasLimitError Unit :=
  if config.isSubnetEVM header.time then
    refuse ((header.gasLimit.toNat : Int) ≠ fees.gasLimit) (.unexpected fees.gasLimit header.gasLimit)
  else verifyGasLimitBounds params parent header

/-- A step of more than 64 bits that still reaches the same bounds: by one second
off the target, the cost leaves the range between them. -/
def WideStepFits : Prop :=
  fees.minBlockGasCost = fees.maxBlockGasCost ∨
  fees.maxBlockGasCost ≤ fees.blockGasCostStep % 2 ^ 64 ∧
    (fees.targetBlockRate.toNat = maxUint64 ∨
      (maxUint64 : Int) ≤ fees.minBlockGasCost + fees.blockGasCostStep % 2 ^ 64)

/-- The fields fit the numbers that the rules narrow them to. -/
structure FieldsFit : Prop where
  gasLimit : fees.gasLimit < 2 ^ 64
  targetGas : fees.targetGas < 2 ^ 64
  minBaseFee : fees.minBaseFee < 2 ^ 63
  blockGasCostStep : fees.blockGasCostStep < 2 ^ 64 ∨ fees.WideStepFits

end FeeValues

/-- Every rule computes what it says of the fields, for every parent and every child that is not before it. -/
structure RulesExact (params : ProtocolParams) (fees : FeeValues) : Prop where
  baseFeeExact : ∀ (config : NetworkUpgrades) (parent : Header) (timestamp : UInt64), parent.time ≤ timestamp →
    baseFeeFromWindow config fees.toConfig parent timestamp = fees.exactBaseFee config parent timestamp ∧
    baseFeeFromWindow config fees.toConfig parent timestamp ≠ .error .divisionByZero
  gasLimitExact : ∀ (config : NetworkUpgrades) (parent : Header) (timeMS : UInt64), parent.time ≤ timeMS / 1000 →
    (gasLimit config fees.toConfig parent timeMS).map (fun limit => (limit.toNat : Int)) =
      .ok (fees.exactGasLimit config parent timeMS)
  verifyGasLimitExact : ∀ (config : NetworkUpgrades) (parent header : Header), parent.time ≤ header.time →
    verifyGasLimit params config fees.toConfig parent header = fees.exactVerifyGasLimit params config parent header
  blockGasCostExact : ∀ (config : NetworkUpgrades) (parent : Header) (timestamp : UInt64), parent.time ≤ timestamp →
    blockGasCost config fees.toConfig parent timestamp = .ok (fees.exactBlockGasCost config parent timestamp)

/-! ## Fields that fit -/

theorem feeWindow_fault {config : NetworkUpgrades} {parent : Header} {timestamp : UInt64} :
    feeWindow config parent timestamp ≠ .error .divisionByZero := by
  unfold feeWindow
  split
  · simp
  · split
    · simp
    · split <;> simp

theorem exactBaseFee_fault (fees : FeeValues) (config : NetworkUpgrades) (parent : Header) (timestamp : UInt64) :
    fees.exactBaseFee config parent timestamp ≠ .error .divisionByZero := by
  intro failed
  unfold FeeValues.exactBaseFee at failed
  split at failed
  · cases failed
  obtain failed | ⟨window, -, failed⟩ := bind_eq_error.mp failed
  · exact feeWindow_fault failed
  obtain failed | ⟨baseFee, -, failed⟩ := bind_eq_error.mp failed
  · obtain ⟨-, different⟩ := need_eq_error.mp failed
    cases different
  · cases failed

theorem bigUint64_mod {number : Int} (nonneg : 0 ≤ number) : ((bigUint64 number).toNat : Int) = number % 2 ^ 64 := by
  rw [bigUint64_toNat]
  omega

section

variable (fees : VerifiedFees) (config : NetworkUpgrades) (parent header : Header) (timeMS : UInt64)

theorem gasLimit_eq : (gasLimit config fees.toConfig parent timeMS).map (fun limit => (limit.toNat : Int)) =
    .ok ({ fees.toFeeValues with gasLimit := (bigUint64 fees.gasLimit).toNat }.exactGasLimit config parent timeMS) := by
  unfold gasLimit FeeValues.exactGasLimit
  split <;> rfl

theorem verifyGasLimit_eq (params : ProtocolParams) : verifyGasLimit params config fees.toConfig parent header =
    { fees.toFeeValues with gasLimit := (bigUint64 fees.gasLimit).toNat }.exactVerifyGasLimit params config parent
      header := by
  unfold verifyGasLimit FeeValues.exactVerifyGasLimit
  split
  · rw [FeeValues.toConfig_gasLimit, need_some, ok_bind]
    refine refuse_congr (not_congr ?_) _
    rw [Nat.cast_inj, UInt64.toNat_inj]
  · rfl

theorem clampCost_high {cost : Int} (high : fees.maxBlockGasCost ≤ cost) : fees.clampCost cost = fees.maxBlockGasCost := by
  have := fees.minBlockGasCost_le
  unfold FeeValues.clampCost
  omega

theorem clampCost_low {cost : Int} (low : cost ≤ fees.minBlockGasCost) : fees.clampCost cost = fees.minBlockGasCost := by
  unfold FeeValues.clampCost
  omega

/-- A second before the target, or more. -/
theorem nextBlockGasCost_early {step : Int} (reaches : fees.maxBlockGasCost ≤ step) {timeElapsed : Nat}
    (early : timeElapsed < fees.targetBlockRate.toNat) (parentCost : Nat) :
    fees.nextBlockGasCost step parentCost timeElapsed = fees.maxBlockGasCost := by
  have nonneg : 0 ≤ step := (fees.minBlockGasCost_nonneg.trans fees.minBlockGasCost_le).trans reaches
  have once : step * 1 ≤ step * (fees.targetBlockRate.toNat - timeElapsed) :=
    mul_le_mul_of_nonneg_left (by omega) nonneg
  exact clampCost_high fees (by omega)

/-- A second after the target, or more. -/
theorem nextBlockGasCost_late {step : Int} (nonneg : 0 ≤ step) {parentCost : Nat}
    (reaches : parentCost - step ≤ fees.minBlockGasCost) {timeElapsed : Nat}
    (late : fees.targetBlockRate.toNat < timeElapsed) :
    fees.nextBlockGasCost step parentCost timeElapsed = fees.minBlockGasCost := by
  have once : step * (fees.targetBlockRate.toNat - timeElapsed) ≤ step * -1 :=
    mul_le_mul_of_nonneg_left (by omega) nonneg
  exact clampCost_low fees (by omega)

theorem nextBlockGasCost_wide (fits : fees.WideStepFits) (wide : 2 ^ 64 ≤ fees.blockGasCostStep)
    (parentCost timeElapsed : UInt64) :
    fees.nextBlockGasCost (fees.blockGasCostStep % 2 ^ 64) parentCost.toNat timeElapsed.toNat =
      fees.nextBlockGasCost fees.blockGasCostStep parentCost.toNat timeElapsed.toNat := by
  have fits_max := fees.maxBlockGasCost_lt
  have fits_min := fees.minBlockGasCost_nonneg
  have parent_fits : parentCost.toNat ≤ 2 ^ 64 - 1 := toNat_le_max parentCost
  have elapsed_fits := toNat_le_max timeElapsed
  -- With one bound for both ends nothing else shows; else a second off the target is enough.
  obtain single | ⟨high, low⟩ := fits
  · unfold FeeValues.nextBlockGasCost FeeValues.clampCost
    omega
  obtain early | on_time | late := Nat.lt_trichotomy timeElapsed.toNat fees.targetBlockRate.toNat
  · rw [nextBlockGasCost_early fees high early, nextBlockGasCost_early fees (by omega) early]
  · simp [FeeValues.nextBlockGasCost, on_time]
  · have low : (maxUint64 : Int) ≤ fees.minBlockGasCost + fees.blockGasCostStep % 2 ^ 64 := low.resolve_left (by omega)
    unfold maxUint64 at low
    rw [nextBlockGasCost_late fees (by omega) (by omega) late, nextBlockGasCost_late fees (by omega) (by omega) late]

theorem blockGasCost_exact (fit : fees.blockGasCostStep < 2 ^ 64 ∨ fees.WideStepFits) (timestamp : UInt64)
    (forward : parent.time ≤ timestamp) :
    blockGasCost config fees.toConfig parent timestamp = .ok (fees.exactBlockGasCost config parent timestamp) := by
  rw [blockGasCost_eq, bigUint64_mod fees.blockGasCostStep_nonneg]
  by_cases narrow : fees.blockGasCostStep < 2 ^ 64
  · rw [Int.emod_eq_of_lt fees.blockGasCostStep_nonneg narrow]
  have wide := fit.resolve_left narrow
  have elapsed := UInt64.toNat_sub_of_le _ _ forward
  unfold FeeValues.exactBlockGasCost
  cases parent.blockGasCost with
  | none => rfl
  | some parentCost =>
    have same := nextBlockGasCost_wide fees wide (not_lt.mp narrow) (bigUint64 parentCost) (timestamp - parent.time)
    rw [elapsed] at same
    simp only [← same]
    rfl

theorem rulesExact_of_fit (params : ProtocolParams) (fit : fees.FieldsFit) : RulesExact params fees.toFeeValues where
  baseFeeExact config parent timestamp _ := by
    rw [baseFeeFromWindow_eq fees fit.targetGas fit.minBaseFee]
    exact ⟨rfl, exactBaseFee_fault _ _ _ _⟩
  gasLimitExact config parent timeMS _ := by
    rw [gasLimit_eq, bigUint64_eq fees.gasLimit_pos.le fit.gasLimit]
  verifyGasLimitExact config parent header _ := by
    rw [verifyGasLimit_eq, bigUint64_eq fees.gasLimit_pos.le fit.gasLimit]
  blockGasCostExact config parent timestamp forward :=
    blockGasCost_exact fees config parent fit.blockGasCostStep timestamp forward

end

/-! ## Fields that do not fit -/

/-- Only SubnetEVM, from the start. -/
def subnetOnly : NetworkUpgrades where
  subnetEVMTimestamp := some 0

theorem ago_shift_add (amount : UInt64) {age : Nat} (small : age < windowLen) :
    ((Window.empty.add [amount]).shift 0).ago age = if age = 0 then amount.toNat else 0 := by
  rw [Window.ago_shift small, UInt64.toNat_zero, if_pos (Nat.zero_le age), Nat.sub_zero]
  cases age with
  | zero =>
    have := toNat_le_max amount
    rw [Window.ago_add_zero, Window.ago_empty, Nat.zero_add, min_eq_right this, if_pos rfl]
  | succ age => rw [Window.ago_add_succ _ small, Window.ago_empty, if_neg (Nat.succ_ne_zero age)]

/-- A window that holds gas of the last second only. -/
theorem sum_shift_add (amount : UInt64) : ((Window.empty.add [amount]).shift 0).sum = amount := by
  have slots : (List.range windowLen).map ((Window.empty.add [amount]).shift 0).ago =
      (List.range windowLen).map fun age => if age = 0 then amount.toNat else 0 :=
    List.map_congr_left fun age member => ago_shift_add amount (List.mem_range.mp member)
  have := toNat_le_max amount
  rw [← UInt64.toNat_inj, Window.sum_toNat, Window.sum_ago, slots]
  simp [List.range_succ, this]

section

variable {fees : VerifiedFees} {params : ProtocolParams}

theorem gasLimit_fits (rules : RulesExact params fees.toFeeValues) : fees.gasLimit < 2 ^ 64 := by
  -- Any block shows the gas limit.
  have same := rules.gasLimitExact subnetOnly { number := 0, time := 0 } 0 (UInt64.le_refl _)
  rw [gasLimit_eq] at same
  have same : (((bigUint64 fees.gasLimit).toNat : Nat) : Int) = fees.gasLimit := Except.ok.inj same
  have := (bigUint64 fees.gasLimit).toNat_lt
  omega

theorem minBaseFee_fits (rules : RulesExact params fees.toFeeValues) : fees.minBaseFee < 2 ^ 63 := by
  -- The first block has the minimum fee.
  have same := (rules.baseFeeExact {} { number := 0, time := 0 } 0 (UInt64.le_refl _)).1
  exact (bigInt64_eq fees.minBaseFee_nonneg).mp (Except.ok.inj same)

/-- A parent that used what is left of the gas target, a wei above the minimum. -/
def onTarget (fees : FeeValues) : Header where
  number := 1
  time := 0
  gasUsed := bigUint64 fees.targetGas
  extra := Window.empty.bytes
  baseFee := some (fees.minBaseFee + 1)

theorem onTarget_later (fees : FeeValues) : ¬ FirstBlock subnetOnly (onTarget fees) := by
  rintro (inactive | first)
  · cases inactive
  · cases first

theorem feeWindow_onTarget (fees : FeeValues) : feeWindow subnetOnly (onTarget fees) 0 =
    .ok ((Window.empty.add [bigUint64 fees.targetGas]).shift 0) := by
  have parsed : parseWindow (onTarget fees).extra = .ok .empty := by
    rw [onTarget, ← List.append_nil Window.empty.bytes, parseWindow_bytes]
  have active : subnetOnly.isSubnetEVM (onTarget fees).time := rfl
  have forward : (onTarget fees).time ≤ 0 := UInt64.le_refl 0
  rw [feeWindow_next active one_ne_zero parsed forward]
  simp [onTarget]

/-- On what is left of its target the code keeps the fee. -/
theorem baseFeeFromWindow_onTarget (fees : FeeValues) :
    baseFeeFromWindow subnetOnly fees.toConfig (onTarget fees) 0 = .ok (fees.minBaseFee + 1) := by
  unfold baseFeeFromWindow
  rw [if_neg (onTarget_later fees), feeWindow_onTarget, ok_bind, sum_shift_add]
  simp [onTarget]

theorem targetGas_fits (rules : RulesExact params fees.toFeeValues) : fees.targetGas < 2 ^ 64 := by
  by_contra wide
  have same := (rules.baseFeeExact subnetOnly (onTarget fees.toFeeValues) 0 (UInt64.le_refl _)).1
  rw [baseFeeFromWindow_onTarget, FeeValues.exactBaseFee, if_neg (onTarget_later _), feeWindow_onTarget, ok_bind,
    sum_shift_add] at same
  have same := Except.ok.inj same
  have below := (bigUint64 fees.targetGas).toNat_lt
  rw [FeeValues.nextBaseFee, if_neg (by omega), if_neg (by omega), FeeValues.clamp] at same
  -- The true target is not reached, so the fee would have to fall.
  have one : 1 ≤ fees.delta (bigUint64 fees.targetGas).toNat (fees.minBaseFee + 1) := le_max_right _ _
  have windows : ((max 1 ((UInt64.toNat 0 - (onTarget fees.toFeeValues).time.toNat) / windowLen) : Nat) : Int) = 1 := by
    simp [onTarget]
  rw [windows, mul_one] at same
  split at same <;> omega

/-- A parent that paid so much for its block. -/
def paid (cost : UInt64) : Header where
  number := 1
  time := 0
  blockGasCost := some cost.toNat

theorem exactBlockGasCost_paid (fees : FeeValues) (cost elapsed : UInt64) :
    fees.exactBlockGasCost subnetOnly (paid cost) elapsed =
      some (fees.nextBlockGasCost fees.blockGasCostStep cost.toNat elapsed.toNat) := by
  have active : subnetOnly.isSubnetEVM elapsed := decide_eq_true elapsed.zero_le
  have kept : bigUint64 cost.toNat = cost := by simp [bigUint64]
  have early : subnetOnly.isGranite elapsed = false := rfl
  simp [FeeValues.exactBlockGasCost, active, early, paid, kept]

theorem step_exact (rules : RulesExact params fees.toFeeValues) (cost elapsed : UInt64) :
    fees.nextBlockGasCost (fees.blockGasCostStep % 2 ^ 64) cost.toNat elapsed.toNat =
      fees.nextBlockGasCost fees.blockGasCostStep cost.toNat elapsed.toNat := by
  have same := rules.blockGasCostExact subnetOnly (paid cost) elapsed elapsed.zero_le
  rw [blockGasCost_eq, bigUint64_mod fees.blockGasCostStep_nonneg, exactBlockGasCost_paid, exactBlockGasCost_paid] at same
  exact Option.some.inj (Except.ok.inj same)

theorem nextBlockGasCost_before (step : Int) {before : Nat} (early : before + 1 = fees.targetBlockRate.toNat)
    (parentCost : Nat) : fees.nextBlockGasCost step parentCost before = fees.clampCost (parentCost + step) := by
  have once : (fees.targetBlockRate.toNat : Int) - before = 1 := by omega
  rw [FeeValues.nextBlockGasCost, once, mul_one]

theorem nextBlockGasCost_after (step : Int) {after : Nat} (late : after = fees.targetBlockRate.toNat + 1)
    (parentCost : Nat) : fees.nextBlockGasCost step parentCost after = fees.clampCost (parentCost - step) := by
  have once : (fees.targetBlockRate.toNat : Int) - after = -1 := by omega
  rw [FeeValues.nextBlockGasCost, once, mul_neg_one, ← sub_eq_add_neg]

theorem wideStep_fits (rules : RulesExact params fees.toFeeValues) (wide : 2 ^ 64 ≤ fees.blockGasCostStep) :
    fees.WideStepFits := by
  have below := fees.maxBlockGasCost_lt
  have above := fees.minBlockGasCost_nonneg
  have ordered := fees.minBlockGasCost_le
  have rate_pos : fees.targetBlockRate.toNat ≠ 0 := fun zero => fees.targetBlockRate_ne (UInt64.toNat_inj.mp zero)
  have rate_fits : fees.targetBlockRate.toNat ≤ 2 ^ 64 - 1 := toNat_le_max fees.targetBlockRate
  by_cases single : fees.minBlockGasCost = fees.maxBlockGasCost
  · exact .inl single
  refine .inr ⟨?_, or_iff_not_imp_left.mpr fun late => ?_⟩
  · -- A free parent, one second before the target.
    obtain ⟨before, early⟩ : ∃ before : UInt64, before.toNat + 1 = fees.targetBlockRate.toNat :=
      ⟨.ofNat (fees.targetBlockRate.toNat - 1), by rw [UInt64.toNat_ofNat']; omega⟩
    have highest : fees.clampCost fees.blockGasCostStep = fees.maxBlockGasCost := clampCost_high fees (by omega)
    have same := step_exact rules 0 before
    rw [nextBlockGasCost_before _ early, nextBlockGasCost_before _ early, UInt64.toNat_zero, Nat.cast_zero, zero_add,
      zero_add, highest] at same
    have high : fees.maxBlockGasCost ≤ max fees.minBlockGasCost (fees.blockGasCostStep % 2 ^ 64) :=
      same.ge.trans (max_le_max_left _ (min_le_left _ _))
    exact (le_max_iff.mp high).resolve_left (by omega)
  · -- The dearest parent, one second after the target.
    have dearest : ((UInt64.ofNat maxUint64).toNat : Int) = 2 ^ 64 - 1 := rfl
    have rate_room : fees.targetBlockRate.toNat ≠ 2 ^ 64 - 1 := late
    obtain ⟨after, late⟩ : ∃ after : UInt64, after.toNat = fees.targetBlockRate.toNat + 1 :=
      ⟨.ofNat (fees.targetBlockRate.toNat + 1), by rw [UInt64.toNat_ofNat']; omega⟩
    have lowest : fees.clampCost (2 ^ 64 - 1 - fees.blockGasCostStep) = fees.minBlockGasCost :=
      clampCost_low fees (by omega)
    have same := step_exact rules (.ofNat maxUint64) after
    rw [nextBlockGasCost_after _ late, nextBlockGasCost_after _ late, dearest, lowest] at same
    have largest : (maxUint64 : Int) = 2 ^ 64 - 1 := rfl
    have low := (min_le_iff.mp (max_eq_left_iff.mp same)).resolve_right (by omega)
    omega

end

/-- The rules are exact for a verified configuration if and only if its fields
fit the numbers they are narrowed to. -/
theorem rulesExact_iff_fieldsFit (params : ProtocolParams) {feeConfig : FeeConfig} (verified : feeConfig.verify = .ok ()) :
    ∃ fees : FeeValues, feeConfig = fees.toConfig ∧ (RulesExact params fees ↔ fees.FieldsFit) := by
  obtain ⟨fees, rfl⟩ := FeeConfig.verify_eq_ok.mp verified
  refine ⟨fees.toFeeValues, rfl, fun rules => ?_, rulesExact_of_fit fees params⟩
  exact ⟨gasLimit_fits rules, targetGas_fits rules, minBaseFee_fits rules,
    or_iff_not_imp_left.mpr fun wide => wideStep_fits rules (not_lt.mp wide)⟩

/-- A configuration like those in use. -/
def sampleFees : FeeValues where
  gasLimit := 8000000
  targetBlockRate := 2
  minBaseFee := 25000000000
  targetGas := 15000000
  baseFeeChangeDenominator := 36
  minBlockGasCost := 0
  maxBlockGasCost := 1000000
  blockGasCostStep := 200000

/-- The constants of the protocol as they are set. -/
def sampleParams : ProtocolParams where
  minGasLimit := 5000
  maxGasLimit := 0x7fffffffffffffff
  gasLimitBoundDivisor := 1024

theorem rulesExact_iff_fieldsFit_sample :
    ∃ fees : FeeValues, sampleFees.toConfig = fees.toConfig ∧ (RulesExact sampleParams fees ↔ fees.FieldsFit) :=
  rulesExact_iff_fieldsFit sampleParams (by decide)

/-- A gas target of which 64 bits leave nothing. -/
def zeroTarget : FeeValues := { sampleFees with targetGas := 2 ^ 64 }

/-- A block of the second before. -/
def busyParent : Header where
  number := 1
  time := 0
  gasUsed := 1
  extra := Window.empty.bytes
  baseFee := some 25000000000

/-- A verified gas target of 2^64 divides by zero after any gas use. -/
theorem zeroTarget_divides : zeroTarget.toConfig.verify = .ok () ∧
    baseFeeFromWindow subnetOnly zeroTarget.toConfig busyParent 0 = .error .divisionByZero ∧
    ¬ RulesExact sampleParams zeroTarget := by
  have divides : baseFeeFromWindow subnetOnly zeroTarget.toConfig busyParent 0 = .error .divisionByZero := by decide
  exact ⟨by decide, divides, fun rules => (rules.baseFeeExact _ _ _ (by decide)).2 divides⟩

end Snowside.Evm
