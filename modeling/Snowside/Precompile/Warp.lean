import Snowside.Precompile.Contract

/-! The warp precompile: messages from other chains, whose predicates are verified
before execution, and messages to other chains, which are logged.
-/

set_option autoImplicit false

namespace Snowside.Precompile.Warp

open Evm (Address Bytes)
open Checked Stateful

def contractAddress : Address := 0x0200000000000000000000000000000000000005

/-! ## Gas -/

structure GasConfig where
  getBlockchainID : UInt64
  getVerifiedWarpMessageBase : UInt64
  perWarpMessageChunk : UInt64
  sendWarpMessageBase : UInt64
  perWarpMessageByte : UInt64
  deriving DecidableEq, Repr

/-- The cost of a signature that is made and served. -/
def addWarpMessageBaseGasCost : UInt64 := 20000

def preGraniteGasConfig : GasConfig where
  getBlockchainID := 2
  getVerifiedWarpMessageBase := 2
  perWarpMessageChunk := 3200
  sendWarpMessageBase := logGas + 3 * logTopicGas + addWarpMessageBaseGasCost + writeGasCostPerSlot
  perWarpMessageByte := logDataGas

def graniteGasConfig : GasConfig where
  getBlockchainID := 200
  getVerifiedWarpMessageBase := 750
  perWarpMessageChunk := 512
  sendWarpMessageBase := preGraniteGasConfig.sendWarpMessageBase
  perWarpMessageByte := preGraniteGasConfig.perWarpMessageByte

def currentGasConfig (rules : Rules) : GasConfig :=
  if rules.isGraniteActivated then graniteGasConfig else preGraniteGasConfig

/-- `SafeMul`: the product, and whether it overflows. -/
def safeMul (x y : UInt64) : UInt64 × Bool := (x * y, 2 ^ 64 ≤ x.toNat * y.toNat)

/-- Gas for so many pieces. -/
def chargeEach (gasCost : UInt64) (count : Nat) : Execution Unit :=
  let product := safeMul gasCost (.ofNat count)
  if product.2 then outOfGas else charge product.1

/-! ## Messages -/

structure Message where
  sourceChainID : Hash
  payload : Bytes
  deriving DecidableEq, Repr

structure AddressedCall where
  sourceAddress : Bytes
  payload : Bytes
  deriving DecidableEq, Repr

structure UnsignedMessage where
  id : Hash
  bytes : Bytes
  deriving DecidableEq, Repr

/-- The format of messages; `none` is an error. -/
structure Format where
  predicateBytes : List Hash → Option Bytes
  parseMessage : Bytes → Option Message
  parseAddressedCall : Bytes → Option AddressedCall
  parseHash : Bytes → Option Hash
  newAddressedCall : Bytes → Bytes → Option Bytes
  newUnsignedMessage : UInt32 → Hash → Bytes → Option UnsignedMessage

/-- `BytesToAddress`: the last 20 bytes. -/
def bytesToAddress (bytes : Bytes) : Address := (bytesToHash bytes).address

/-- A dynamic tuple and whether it is valid. -/
def packGetVerifiedWarpMessageOutput (sourceChainID : Hash) (originSenderAddress : Address) (payload : Bytes)
    (valid : Bool) : Bytes :=
  packWords [0x40, packBool valid, sourceChainID, addressToHash originSenderAddress, 0x60] ++ packBytesSlice payload

def packGetVerifiedWarpBlockHashOutput (sourceChainID blockHash : Hash) (valid : Bool) : Bytes :=
  packWords [sourceChainID, blockHash, packBool valid]

structure MessageHandler where
  packFailed : Bytes
  handleMessage : Message → Except PrecompileError Bytes

section

variable (format : Format)

def addressedPayloadHandler : MessageHandler where
  packFailed := packGetVerifiedWarpMessageOutput 0 0 [] false
  handleMessage message := do
    let call ← need .invalidAddressedPayload (format.parseAddressedCall message.payload)
    return packGetVerifiedWarpMessageOutput message.sourceChainID (bytesToAddress call.sourceAddress) call.payload true

def blockHashHandler : MessageHandler where
  packFailed := packGetVerifiedWarpBlockHashOutput 0 0 false
  handleMessage message := do
    let hash ← need .invalidBlockHashPayload (format.parseHash message.payload)
    return packGetVerifiedWarpBlockHashOutput message.sourceChainID hash true

/-! ## Functions -/

def unpackGetVerifiedWarpMessageInput (input : Bytes) : Except AbiError Nat := do
  let word ← unpackWord input false
  readUint32 word

def maxInt32 : Nat := 2 ^ 31 - 1

def handleWarpMessage (handler : MessageHandler) : RunStatefulPrecompileFunc := fun accessibleState _ input _ => do
  let warpGasConfig := currentGasConfig accessibleState.rules
  charge warpGasConfig.getVerifiedWarpMessageBase
  let warpIndex ← check ((unpackGetVerifiedWarpMessageInput input).mapError .invalidIndexInput)
  check (refuse (maxInt32 < warpIndex) .indexTooLarge)
  let predicate := accessibleState.getPredicate contractAddress warpIndex
  let failed := accessibleState.predicateResults contractAddress warpIndex
  readPredicate warpGasConfig (if failed then none else predicate)
where
  /-- The message of a predicate that is there and valid. -/
  readPredicate (warpGasConfig : GasConfig) : Option (List Hash) → Execution Bytes
    | none => return handler.packFailed
    | some predicate => do
        chargeEach warpGasConfig.perWarpMessageChunk predicate.length
        let unpackedPredicateBytes ← check (need .invalidPredicateBytes (format.predicateBytes predicate))
        let message ← check (need .invalidWarpMsg (format.parseMessage unpackedPredicateBytes))
        check (handler.handleMessage message)

def getBlockchainID : RunStatefulPrecompileFunc := fun accessibleState _ _ _ =>
  reader (currentGasConfig accessibleState.rules).getBlockchainID fun _ => .ok (packWords [accessibleState.chainID])

def getVerifiedWarpMessage : RunStatefulPrecompileFunc := handleWarpMessage format (addressedPayloadHandler format)

def getVerifiedWarpBlockHash : RunStatefulPrecompileFunc := handleWarpMessage format (blockHashHandler format)

def sendWarpMessageID : Hash := 0x56600c567728a800c0aa927500f831cb451df66a7af570eb4df4dfbf4674887d

def packSendWarpMessageEvent (sourceAddress : Address) (unsignedMessageID : Hash) (unsignedMessageBytes : Bytes) : Event :=
  ([sendWarpMessageID, addressToHash sourceAddress, unsignedMessageID],
    packWords [0x20] ++ packBytesSlice unsignedMessageBytes)

/-- The bytes of an address. -/
def addressBytes (address : Address) : Bytes := (addressToHash address).bytes.drop 12

def sendWarpMessage : RunStatefulPrecompileFunc := fun accessibleState caller input readOnly => do
  let warpGasConfig := currentGasConfig accessibleState.rules
  charge warpGasConfig.sendWarpMessageBase
  chargeEach warpGasConfig.perWarpMessageByte input.length
  check (refuse readOnly .writeProtection)
  let payloadData ← check ((unpackBytes input false).mapError .invalidSendInput)
  let addressedPayload ← check (need .unmadeMessage (format.newAddressedCall (addressBytes caller) payloadData))
  let message ← check (need .unmadeMessage
    (format.newUnsignedMessage accessibleState.networkID accessibleState.chainID addressedPayload))
  emit accessibleState contractAddress (packSendWarpMessageEvent caller message.id message.bytes)
  return packWords [message.id]

def precompile : StatefulPrecompile where
  functions := [
    { selector := [0x42, 0x13, 0xcf, 0x78], execute := getBlockchainID },
    { selector := [0xce, 0x7f, 0x59, 0x29], execute := getVerifiedWarpBlockHash format },
    { selector := [0x6f, 0x82, 0x53, 0x50], execute := getVerifiedWarpMessage format },
    { selector := [0xee, 0x5b, 0x48, 0xeb], execute := sendWarpMessage format }]

end

end Snowside.Precompile.Warp
