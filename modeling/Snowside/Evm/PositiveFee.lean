import Snowside.Evm.Engine

/-! When the base fee of a chain stays positive. -/

set_option autoImplicit false

namespace Snowside.Evm

open Checked

namespace FeeValues

variable (fees : FeeValues)

/-- Every field is below the power of two. -/
def FitIn (bits : Nat) : Prop := ∀ field ∈ [fees.gasLimit, fees.targetBlockRate.toNat, fees.minBaseFee, fees.targetGas,
  fees.baseFeeChangeDenominator, fees.minBlockGasCost, fees.maxBlockGasCost, fees.blockGasCostStep], field < 2 ^ bits

instance (bits : Nat) : Decidable (fees.FitIn bits) := inferInstanceAs (Decidable (∀ field ∈ _, field < _))

/-- The decrease for idle windows uses up the base fee of the parent. -/
def UsesUp (totalGas parentBaseFee : Int) (timeElapsed : Nat) : Prop :=
  totalGas < fees.targetGas ∧
    parentBaseFee ≤ fees.delta totalGas parentBaseFee * max 1 (timeElapsed / windowLen : Nat)

/-- The base fee of the child is the configured minimum, whatever that is. -/
def FallsToMinimum (config : NetworkUpgrades) (parent : Header) (timestamp : UInt64) : Prop :=
  FirstBlock config parent ∨ ∃ window parentBaseFee, feeWindow config parent timestamp = .ok window ∧
    parent.baseFee = some parentBaseFee ∧
    fees.UsesUp window.sum.toNat parentBaseFee (timestamp.toNat - parent.time.toNat)

end FeeValues

/-! ## One block -/

section

variable (fees : VerifiedFees)

theorem one_le_clamp {value : Int} : 1 ≤ fees.clamp value ↔ 1 ≤ value ∨ 1 ≤ fees.minBaseFee := by
  have := fees.minBaseFee_nonneg
  have : (1 : Int) ≤ maxUint256 := by decide
  unfold FeeValues.clamp
  split <;> omega

theorem one_le_nextBaseFee {parentBaseFee : Int} (positive : 1 ≤ parentBaseFee) (totalGas : Int) (timeElapsed : Nat) :
    1 ≤ fees.nextBaseFee totalGas parentBaseFee timeElapsed ↔
      (fees.UsesUp totalGas parentBaseFee timeElapsed → 1 ≤ fees.minBaseFee) := by
  have increase : 1 ≤ fees.delta totalGas parentBaseFee := le_max_right _ _
  unfold FeeValues.nextBaseFee FeeValues.UsesUp
  split
  · next same => simp [positive, same]
  split
  · next above =>
    rw [one_le_clamp]
    constructor
    · intro _ uses
      omega
    · exact fun _ => .inl (by omega)
  · next different below =>
    have less : totalGas < fees.targetGas := by omega
    rw [one_le_clamp]
    simp only [less, true_and]
    omega

variable {config : NetworkUpgrades} {parent : Header}

theorem one_le_exactBaseFee {timestamp : UInt64} {baseFee : Int}
    (paid : FirstBlock config parent ∨ ∃ parentBaseFee, parent.baseFee = some parentBaseFee ∧ 1 ≤ parentBaseFee)
    (computed : fees.exactBaseFee config parent timestamp = .ok baseFee) :
    1 ≤ baseFee ↔ (fees.FallsToMinimum config parent timestamp → 1 ≤ fees.minBaseFee) := by
  unfold FeeValues.exactBaseFee at computed
  by_cases first : FirstBlock config parent
  · rw [if_pos first] at computed
    obtain rfl := Except.ok.inj computed
    exact ⟨fun positive _ => positive, fun falls => falls (.inl first)⟩
  rw [if_neg first] at computed
  obtain ⟨parentBaseFee, charged, positive⟩ := paid.resolve_left first
  obtain ⟨window, found, computed⟩ := bind_eq_ok.mp computed
  rw [charged, need_some, ok_bind] at computed
  obtain rfl := Except.ok.inj computed
  rw [one_le_nextBaseFee fees positive]
  constructor
  · rintro kept (isFirst | ⟨other, otherFee, same, sameFee, uses⟩)
    · exact absurd isFirst first
    · rw [found] at same
      rw [charged] at sameFee
      obtain rfl := Except.ok.inj same
      obtain rfl := Option.some.inj sameFee
      exact kept uses
  · exact fun falls uses => falls (.inr ⟨window, parentBaseFee, found, charged, uses⟩)

end

/-- A block whose gas fields are accepted under a verified configuration of small fields. -/
structure GasChecked {ReaderError : Type} (params : ProtocolParams) (config : NetworkUpgrades)
    (chain : ChainHeaderReader ReaderError) (parent header : Header) : Prop where
  time : parent.time ≤ header.time
  fees : ∃ fees : FeeValues, chain.getFeeConfigAt parent = .ok fees.toConfig ∧ fees.toConfig.verify = .ok () ∧
    fees.FitIn 63
  accepted : verifyHeaderGasFields params config chain header parent = .ok ()

/-- What keeps the base fee of a block positive: SubnetEVM is active at its time
in milliseconds, and a minimum that the fee falls to is positive. -/
structure KeepsFeePositive {ReaderError : Type} (config : NetworkUpgrades) (chain : ChainHeaderReader ReaderError)
    (parent header : Header) : Prop where
  active : config.isSubnetEVM (header.timeMS / 1000)
  minimum : ∀ fees : FeeValues, chain.getFeeConfigAt parent = .ok fees.toConfig →
    fees.FallsToMinimum config parent (header.timeMS / 1000) → 1 ≤ fees.minBaseFee

/-- A base fee that the check of the block fee accepts and can divide by. -/
structure PositiveFee (header : Header) : Prop where
  baseFee : ∃ baseFee, header.baseFee = some baseFee ∧ 1 ≤ baseFee
  verified : ∀ {Transaction TipError : Type} (effectiveGasTip : Transaction → Int → Except TipError Int)
    (requiredBlockGasCost : Option Int) (txs : List Transaction) (receipts : List Receipt) (contribution : Option Int)
    (error : BlockFeeError TipError),
    verifyBlockFee effectiveGasTip header.baseFee requiredBlockGasCost txs receipts contribution = .error error →
    (∀ rejected, error ≠ .invalidBaseFee rejected) ∧ error ≠ .fault .divisionByZero

theorem positiveFee_iff {header : Header} : PositiveFee header ↔ ∃ baseFee, header.baseFee = some baseFee ∧ 1 ≤ baseFee := by
  refine ⟨PositiveFee.baseFee, fun positive => ⟨positive, ?_⟩⟩
  obtain ⟨baseFee, charged, positive⟩ := positive
  intro Transaction TipError effectiveGasTip requiredBlockGasCost txs receipts contribution error failed
  rw [charged] at failed
  exact verifyBlockFee_positive positive failed

section

variable {ReaderError : Type} {params : ProtocolParams} {config : NetworkUpgrades}
  {chain : ChainHeaderReader ReaderError} {parent header : Header}

theorem gasChecked_positive (checked : GasChecked params config chain parent header)
    (paid : FirstBlock config parent ∨ PositiveFee parent) :
    PositiveFee header ↔ KeepsFeePositive config chain parent header := by
  obtain ⟨values, configured, verified, small⟩ := checked.fees
  obtain ⟨fees, same⟩ := FeeConfig.verify_eq_ok.mp verified
  obtain rfl : values = fees.toFeeValues := FeeValues.toConfig_injective same
  obtain ⟨feeConfig, same, -, -, charged, -⟩ := verifyHeaderGasFields_eq_ok.mp checked.accepted
  obtain rfl : fees.toConfig = feeConfig := Except.ok.inj (configured.symm.trans same)
  simp only [FeeValues.FitIn, List.mem_cons, List.not_mem_nil, or_false, forall_eq_or_imp, forall_eq] at small
  obtain ⟨-, -, minimum, target, -⟩ := small
  rw [positiveFee_iff]
  unfold baseFee at charged
  by_cases active : config.isSubnetEVM (header.timeMS / 1000)
  · rw [if_pos active, baseFeeFromWindow_eq fees (by omega) minimum] at charged
    cases computed : fees.exactBaseFee config parent (header.timeMS / 1000) with
    | error fault =>
      rw [computed] at charged
      cases charged
    | ok fee =>
      rw [computed] at charged
      obtain charged : some fee = header.baseFee := Except.ok.inj charged
      have kept := one_le_exactBaseFee fees (paid.imp_right positiveFee_iff.mp) computed
      rw [← charged]
      constructor
      · rintro ⟨_, ⟨⟩, positive⟩
        refine ⟨active, fun other same falls => ?_⟩
        obtain rfl := FeeValues.toConfig_injective (Except.ok.inj (configured.symm.trans same))
        exact kept.mp positive falls
      · exact fun keeps => ⟨fee, rfl, kept.mpr (keeps.minimum _ configured)⟩
  · -- No base fee at all before SubnetEVM.
    rw [if_neg active] at charged
    rw [← Except.ok.inj charged]
    exact iff_of_false (by simp) fun keeps => active keeps.active

end

/-- Every base fee of a chain is positive if and only if each block keeps it positive. -/
theorem chain_positiveFee_iff {ReaderError : Type} {params : ProtocolParams} {config : NetworkUpgrades}
    {chain : ChainHeaderReader ReaderError} {genesis : Header} {headers : List Header} (first : genesis.number = 0)
    (above : Above (GasChecked params config chain) genesis headers) :
    (∀ header ∈ headers, PositiveFee header) ↔ Above (KeepsFeePositive config chain) genesis headers := by
  induction above with
  | start => exact ⟨fun _ => .start, fun _ _ member => absurd member List.not_mem_nil⟩
  | @extend headers header above checked ih =>
    -- The parent is the genesis, or a block that paid for itself.
    have paid (positive : ∀ other ∈ headers, PositiveFee other) :
        FirstBlock config (tip genesis headers) ∨ PositiveFee (tip genesis headers) := by
      cases headers with
      | nil => exact .inl (.inr first)
      | cons parent _ => exact .inr (positive parent List.mem_cons_self)
    rw [List.forall_mem_cons]
    constructor
    · rintro ⟨positive, before⟩
      exact (ih.mp before).extend ((gasChecked_positive checked (paid before)).mp positive)
    · rintro (_ | ⟨before, keeps⟩)
      have before := ih.mpr before
      exact ⟨(gasChecked_positive checked (paid before)).mpr keeps, before⟩

/-- A verified configuration without a minimum base fee. -/
def freeFees : FeeValues := { sampleFees with minBaseFee := 0 }

def freeChain : ChainHeaderReader Unit where
  getFeeConfigAt _ := .ok freeFees.toConfig
  getCoinbaseAt _ := .ok ⟨0, true⟩

def freeGenesis : Header where
  number := 0
  time := 0

/-- The first block, with no base fee to pay. -/
def freeHeader : Header where
  number := 1
  time := 0
  gasLimit := 8000000
  extra := Window.empty.bytes
  baseFee := some 0
  blockGasCost := some 0

theorem freeHeader_checked : GasChecked sampleParams subnetOnly freeChain freeGenesis freeHeader where
  time := by decide
  fees := ⟨freeFees, rfl, by decide, by decide⟩
  accepted := by decide

theorem chain_positiveFee_iff_sample :
    (∀ header ∈ [freeHeader], PositiveFee header) ↔
      Above (KeepsFeePositive subnetOnly freeChain) freeGenesis [freeHeader] :=
  chain_positiveFee_iff rfl (.extend .start freeHeader_checked)

/-- A verified minimum of zero gives a first block that its own check rejects. -/
theorem freeHeader_rejected : subnetOnly.isSubnetEVM freeGenesis.time ∧
    Above (GasChecked sampleParams subnetOnly freeChain) freeGenesis [freeHeader] ∧
    freeHeader.baseFee = some 0 ∧
    verifyBlockFee (fun (_ : Unit) _ => (.ok 0 : Except Unit Int)) freeHeader.baseFee freeHeader.blockGasCost [] [] none =
      .error (.invalidBaseFee (some 0)) ∧
    ¬ ∀ header ∈ [freeHeader], PositiveFee header := by
  refine ⟨rfl, .extend .start freeHeader_checked, rfl, rfl, fun positive => ?_⟩
  obtain ⟨baseFee, charged, positive⟩ := (positive freeHeader List.mem_cons_self).baseFee
  obtain rfl : 0 = baseFee := Option.some.inj charged
  omega

end Snowside.Evm
