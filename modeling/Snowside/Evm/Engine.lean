import Snowside.Evm.FeeRules

/-! The consensus engine: what it verifies of a header and of a block. -/

set_option autoImplicit false

namespace Snowside.Evm

open Checked

/-! ## Extra data -/

/-- The most extra data before SubnetEVM. -/
def maximumExtraDataSize : Nat := 64

inductive ExtraLengthError where
  | invalidExtraLength (expected found : Nat)
  deriving DecidableEq, Repr

def verifyExtra (config : NetworkUpgrades) (time : UInt64) (extra : Bytes) : Except ExtraLengthError Unit :=
  if config.isDurango time then
    refuse (extra.length < windowSize) (.invalidExtraLength windowSize extra.length)
  else if config.isSubnetEVM time then
    refuse (extra.length ≠ windowSize) (.invalidExtraLength windowSize extra.length)
  else refuse (maximumExtraDataSize < extra.length) (.invalidExtraLength maximumExtraDataSize extra.length)

/-! ## Headers -/

/-- Who receives the fees of a block. -/
structure ConfiguredCoinbase where
  address : Address
  isAllowFeeRecipients : Bool
  deriving DecidableEq, Repr

/-- What the engine reads of the state after a block. -/
structure ChainHeaderReader (ReaderError : Type) where
  getFeeConfigAt : Header → Except ReaderError FeeConfig
  getCoinbaseAt : Header → Except ReaderError ConfiguredCoinbase

inductive HeaderError (ReaderError : Type) where
  | unclesUnsupported
  | extraLength (cause : ExtraLengthError)
  | reader (cause : ReaderError)
  | gasLimit (cause : GasLimitError)
  | extra (cause : ExtraError)
  | fault (cause : Fault)
  | unexpectedBaseFee (expected found : Option Int)
  | invalidBlockGasCost (found expected : Option Int)
  | invalidCoinbase (found required : Address)
  | invalidNumber
  deriving DecidableEq, Repr

structure Mode where
  modeSkipHeader : Bool := false
  modeSkipBlockFee : Bool := false
  modeSkipCoinbase : Bool := false
  deriving DecidableEq, Repr

structure DummyEngine where
  consensusMode : Mode := {}
  desiredDelayExcess : Option UInt64 := none
  deriving DecidableEq, Repr

section

variable {ReaderError : Type} (params : ProtocolParams) (config : NetworkUpgrades)
  (chain : ChainHeaderReader ReaderError)

/-- Against the fee configuration after the parent. -/
def verifyHeaderGasFields (header parent : Header) : Except (HeaderError ReaderError) Unit := do
  let feeConfig ← (chain.getFeeConfigAt parent).mapError .reader
  (verifyGasLimit params config feeConfig parent header).mapError .gasLimit
  (verifyExtraPrefix config parent header).mapError .extra
  let expectedBaseFee ← (baseFee config feeConfig parent header.timeMS).mapError .fault
  refuse (header.baseFee ≠ expectedBaseFee) (.unexpectedBaseFee expectedBaseFee header.baseFee)
  let expectedBlockGasCost ← (blockGasCost config feeConfig parent header.time).mapError .fault
  refuse (header.blockGasCost ≠ expectedBlockGasCost) (.invalidBlockGasCost header.blockGasCost expectedBlockGasCost)

namespace DummyEngine

variable (engine : DummyEngine)

def verifyCoinbase (header parent : Header) : Except (HeaderError ReaderError) Unit :=
  if engine.consensusMode.modeSkipCoinbase then .ok ()
  else do
    let configuredAtParent ← (chain.getCoinbaseAt parent).mapError .reader
    refuse (configuredAtParent.isAllowFeeRecipients = false ∧ configuredAtParent.address ≠ header.coinbase)
      (.invalidCoinbase header.coinbase configuredAtParent.address)

def verifyHeader (header parent : Header) (uncle : Bool) : Except (HeaderError ReaderError) Unit := do
  refuse uncle .unclesUnsupported
  (verifyExtra config header.time header.extra).mapError .extraLength
  verifyHeaderGasFields params config chain header parent
  verifyCoinbase chain engine header parent
  refuse (header.number - parent.number ≠ 1) .invalidNumber

end DummyEngine

end

/-- A header is accepted if each of its fields is the expected one. -/
theorem verifyHeaderGasFields_eq_ok {ReaderError : Type} {params : ProtocolParams} {config : NetworkUpgrades}
    {chain : ChainHeaderReader ReaderError} {header parent : Header} :
    verifyHeaderGasFields params config chain header parent = .ok () ↔
      ∃ feeConfig, chain.getFeeConfigAt parent = .ok feeConfig ∧
        verifyGasLimit params config feeConfig parent header = .ok () ∧
        verifyExtraPrefix config parent header = .ok () ∧
        baseFee config feeConfig parent header.timeMS = .ok header.baseFee ∧
        blockGasCost config feeConfig parent header.time = .ok header.blockGasCost := by
  simp only [verifyHeaderGasFields, bind_eq_ok, mapError_eq_ok, refuse_eq_ok, not_not]
  constructor
  · rintro ⟨feeConfig, configured, _, limited, _, prefixed, _, charged, -, rfl, _, priced, rfl⟩
    exact ⟨feeConfig, configured, limited, prefixed, charged, priced⟩
  · rintro ⟨feeConfig, configured, limited, prefixed, charged, priced⟩
    exact ⟨feeConfig, configured, (), limited, (), prefixed, _, charged, (), rfl, _, priced, rfl⟩

end Snowside.Evm
