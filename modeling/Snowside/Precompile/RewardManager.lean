import Snowside.Precompile.Setter

/-! The reward manager: the address that is paid the fees, in storage. -/

set_option autoImplicit false

namespace Snowside.Precompile.RewardManager

open Evm (Address Bytes)
open Checked Stateful

def contractAddress : Address := 0x0200000000000000000000000000000000000004

def blackholeAddr : Address := 0x0100000000000000000000000000000000000000

/-! ## Storage -/

/-- 'rask'. -/
def rewardAddressStorageKey : Hash := hashOf [0x72, 0x61, 0x73, 0x6b]

/-- 'afrav'. -/
def allowFeeRecipientsAddressValue : Hash := hashOf [0x61, 0x66, 0x72, 0x61, 0x76]

/-- The reward address, and whether fee recipients are allowed instead. -/
def getStoredRewardAddress (db : StateDB) : Address × Bool :=
  let val := db.getState contractAddress rewardAddressStorageKey
  (val.address, val = allowFeeRecipientsAddressValue)

def storeRewardAddress (val : Address) (db : StateDB) : StateDB :=
  db.setState contractAddress rewardAddressStorageKey (addressToHash val)

def enableAllowFeeRecipients (db : StateDB) : StateDB :=
  db.setState contractAddress rewardAddressStorageKey allowFeeRecipientsAddressValue

def disableFeeRewards (db : StateDB) : StateDB :=
  db.setState contractAddress rewardAddressStorageKey (addressToHash blackholeAddr)

/-! ## Functions -/

/-- One slot is written and the allow list is read. -/
def allowFeeRecipientsGasCost : UInt64 := writeGasCostPerSlot + readAllowListGasCost

def areFeeRecipientsAllowedGasCost : UInt64 := readAllowListGasCost

def currentRewardAddressGasCost : UInt64 := readAllowListGasCost

def disableRewardsGasCost : UInt64 := writeGasCostPerSlot + readAllowListGasCost

def setRewardAddressGasCost : UInt64 := writeGasCostPerSlot + readAllowListGasCost

def feeRecipientsAllowedEventGasCost : UInt64 := logGas + logTopicGas * 2

def rewardAddressChangedEventGasCost : UInt64 := logGas + logTopicGas * 4 + readGasCostPerSlot

def rewardsDisabledEventGasCost : UInt64 := logGas + logTopicGas * 2

def feeRecipientsAllowedID : Hash := 0xabb1949bd129fef9b84601a48aee89d600d90074ca10216a02ce43996be55991

def rewardAddressChangedID : Hash := 0xc2a9e07cba6f4920acaa5933bd0406949d5dbef7ee698e786ea23e8708f32a6c

def rewardsDisabledID : Hash := 0xeb121f0335efe8f4b8ebef7793c18c171834696989656a8c345acc558359fabf

def packFeeRecipientsAllowedEvent (sender : Address) : Event := ([feeRecipientsAllowedID, addressToHash sender], [])

def packRewardAddressChangedEvent (sender oldRewardAddress newRewardAddress : Address) : Event :=
  ([rewardAddressChangedID, addressToHash sender, addressToHash oldRewardAddress, addressToHash newRewardAddress], [])

def packRewardsDisabledEvent (sender : Address) : Event := ([rewardsDisabledID, addressToHash sender], [])

def unpackSetRewardAddressInput (input : Bytes) (useStrictMode : Bool) : Except PrecompileError Address := do
  let word ← (unpackWord input useStrictMode).mapError .abi
  return word.address

def allowFeeRecipientsSetter : Setter Unit where
  address := contractAddress
  gasCost := allowFeeRecipientsGasCost
  unpack _ _ := .ok ()
  refusal := .cannotAllowFeeRecipients
  eventGasCost := feeRecipientsAllowedEventGasCost
  pack _ caller _ := packFeeRecipientsAllowedEvent caller
  store _ _ := modify enableAllowFeeRecipients

def disableRewardsSetter : Setter Unit where
  address := contractAddress
  gasCost := disableRewardsGasCost
  unpack _ _ := .ok ()
  refusal := .cannotDisableRewards
  eventGasCost := rewardsDisabledEventGasCost
  pack _ caller _ := packRewardsDisabledEvent caller
  store _ _ := modify disableFeeRewards

def setRewardAddressSetter : Setter Address where
  address := contractAddress
  gasCost := setRewardAddressGasCost
  unpack := unpackSetRewardAddressInput
  refusal := .cannotSetRewardAddress
  validate rewardAddress := refuse (rewardAddress = 0) .emptyRewardAddress
  eventGasCost := rewardAddressChangedEventGasCost
  pack db caller rewardAddress := packRewardAddressChangedEvent caller (getStoredRewardAddress db).1 rewardAddress
  store _ rewardAddress := modify (storeRewardAddress rewardAddress)

def allowFeeRecipients : RunStatefulPrecompileFunc := allowFeeRecipientsSetter.execute

def disableRewards : RunStatefulPrecompileFunc := disableRewardsSetter.execute

def setRewardAddress : RunStatefulPrecompileFunc := setRewardAddressSetter.execute

def areFeeRecipientsAllowed : RunStatefulPrecompileFunc := fun _ _ _ _ =>
  reader areFeeRecipientsAllowedGasCost fun db => .ok (packWords [packBool (getStoredRewardAddress db).2])

def currentRewardAddress : RunStatefulPrecompileFunc := fun _ _ _ _ =>
  reader currentRewardAddressGasCost fun db => .ok (packWords [addressToHash (getStoredRewardAddress db).1])

def precompile : StatefulPrecompile where
  functions := createAllowListFunctions contractAddress ++ [
    { selector := [0x03, 0x29, 0x09, 0x9f], execute := allowFeeRecipients },
    { selector := [0xf6, 0x54, 0x2b, 0x2e], execute := areFeeRecipientsAllowed },
    { selector := [0xe9, 0x15, 0x60, 0x8b], execute := currentRewardAddress },
    { selector := [0xbc, 0x17, 0x86, 0x28], execute := disableRewards },
    { selector := [0x5e, 0x00, 0xe6, 0x79], execute := setRewardAddress }]

end Snowside.Precompile.RewardManager
