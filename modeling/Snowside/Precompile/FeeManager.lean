import Snowside.Precompile.Setter

/-! The fee manager: the fee configuration in force, in storage. -/

set_option autoImplicit false

namespace Snowside.Precompile.FeeManager

open Evm (Address Bytes FeeConfig FeeValues)
open Checked Stateful

def contractAddress : Address := 0x0200000000000000000000000000000000000003

/-! ## Storage -/

inductive FeeConfigField where
  | gasLimit
  | targetBlockRate
  | minBaseFee
  | targetGas
  | baseFeeChangeDenominator
  | minBlockGasCost
  | maxBlockGasCost
  | blockGasCostStep
  deriving DecidableEq, Repr

/-- The fields in the order of their keys. -/
def feeConfigFields : List FeeConfigField := [.gasLimit, .targetBlockRate, .minBaseFee, .targetGas,
  .baseFeeChangeDenominator, .minBlockGasCost, .maxBlockGasCost, .blockGasCostStep]

abbrev numFeeConfigField : Nat := 8

namespace FeeConfigField

def index : FeeConfigField → Fin numFeeConfigField
  | gasLimit => 0
  | targetBlockRate => 1
  | minBaseFee => 2
  | targetGas => 3
  | baseFeeChangeDenominator => 4
  | minBlockGasCost => 5
  | maxBlockGasCost => 6
  | blockGasCostStep => 7

/-- Keys count from one. The number is the first byte of the storage key. -/
def key (field : FeeConfigField) : Hash := hashOf [.ofNat (field.index + 1)]

def get (fees : FeeValues) : FeeConfigField → Int
  | gasLimit => fees.gasLimit
  | targetBlockRate => fees.targetBlockRate.toNat
  | minBaseFee => fees.minBaseFee
  | targetGas => fees.targetGas
  | baseFeeChangeDenominator => fees.baseFeeChangeDenominator
  | minBlockGasCost => fees.minBlockGasCost
  | maxBlockGasCost => fees.maxBlockGasCost
  | blockGasCostStep => fees.blockGasCostStep

end FeeConfigField

/-- Fees of one word a field. -/
def feesOf (word : FeeConfigField → Hash) : FeeValues where
  gasLimit := (word .gasLimit).big
  targetBlockRate := .ofNat (word .targetBlockRate).toNat
  minBaseFee := (word .minBaseFee).big
  targetGas := (word .targetGas).big
  baseFeeChangeDenominator := (word .baseFeeChangeDenominator).big
  minBlockGasCost := (word .minBlockGasCost).big
  maxBlockGasCost := (word .maxBlockGasCost).big
  blockGasCostStep := (word .blockGasCostStep).big

def packFees (fees : FeeValues) : List Hash := feeConfigFields.map fun field => bigToHash (field.get fees)

/-- 'lca'. -/
def feeConfigLastChangedAtKey : Hash := hashOf [0x6c, 0x63, 0x61]

def getStoredFeeConfig (db : StateDB) : FeeValues := feesOf fun field => db.getState contractAddress field.key

def getFeeConfigLastChangedAt (db : StateDB) : Int := (db.getState contractAddress feeConfigLastChangedAtKey).big

def storeFeeConfig (feeConfig : FeeConfig) (blockNumber : Option Int) : Action PrecompileError StateDB Unit := do
  check (feeConfig.verify.mapError .feeConfig)
  -- No field is nil once the configuration is verified.
  let fees ← check (feeConfig.values.mapError .feeConfig)
  feeConfigFields.forM fun field => modify (·.setState contractAddress field.key (bigToHash (field.get fees)))
  let number ← check (need .nilBlockNumber blockNumber)
  modify (·.setState contractAddress feeConfigLastChangedAtKey (bigToHash number))

/-! ## Functions -/

def feeConfigInputLen : Nat := hashLength * numFeeConfigField

def setFeeConfigGasCost : UInt64 := writeGasCostPerSlot * (.ofNat numFeeConfigField + 1)

def getFeeConfigGasCost : UInt64 := readGasCostPerSlot * .ofNat numFeeConfigField

def getLastChangedAtGasCost : UInt64 := readGasCostPerSlot

def feeConfigChangedEventGasCost : UInt64 :=
  getFeeConfigGasCost + logGas + logTopicGas * 2 + 2 * .ofNat feeConfigInputLen * logDataGas

def unpackSetFeeConfigInput (input : Bytes) (useStrictMode : Bool) : Except PrecompileError FeeValues := do
  refuse (useStrictMode ∧ input.length ≠ feeConfigInputLen) (.invalidLen input.length)
  let words ← (unpackWords input numFeeConfigField useStrictMode).mapError .unpackInput
  return feesOf fun field => words[field.index]

def feeConfigChangedID : Hash := 0x4c98e43adb5962c18f3f0e6dd066e2a2de258d3b4f695b317b77c8f27cd044fc

def packFeeConfigChangedEvent (sender : Address) (oldConfig newConfig : FeeValues) : Event :=
  ([feeConfigChangedID, addressToHash sender], packWords (packFees oldConfig ++ packFees newConfig))

def setFeeConfigSetter : Setter FeeValues where
  address := contractAddress
  gasCost := setFeeConfigGasCost
  unpack := unpackSetFeeConfigInput
  refusal := .cannotChangeFee
  eventGasCost := feeConfigChangedEventGasCost
  pack db caller feeConfig := packFeeConfigChangedEvent caller (getStoredFeeConfig db) feeConfig
  store accessibleState feeConfig := storeFeeConfig feeConfig.toConfig accessibleState.blockNumber

def setFeeConfig : RunStatefulPrecompileFunc := setFeeConfigSetter.execute

def getFeeConfig : RunStatefulPrecompileFunc := fun _ _ _ _ =>
  reader getFeeConfigGasCost fun db => .ok (packWords (packFees (getStoredFeeConfig db)))

def getFeeConfigLastChangedAtFunction : RunStatefulPrecompileFunc := fun _ _ _ _ =>
  reader getLastChangedAtGasCost fun db => .ok (packWords [bigToHash (getFeeConfigLastChangedAt db)])

def precompile : StatefulPrecompile where
  functions := createAllowListFunctions contractAddress ++ [
    { selector := [0x5f, 0xbb, 0xc0, 0xd2], execute := getFeeConfig },
    { selector := [0x9e, 0x05, 0x54, 0x9a], execute := getFeeConfigLastChangedAtFunction },
    { selector := [0x8f, 0x10, 0xb5, 0x86], execute := setFeeConfig }]

end Snowside.Precompile.FeeManager
