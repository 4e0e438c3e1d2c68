import Mathlib.Logic.Function.Basic
import Snowside.Partial.Lru

/-! The warp backend: what it keeps of messages, and when it signs one. -/

set_option autoImplicit false

namespace Snowside.Signing

abbrev Bytes : Type := List UInt8

/-- `payload.Payload`. -/
inductive Payload (Hash : Type) where
  | addressedCall (sourceAddress payload : Bytes)
  | hash (blockID : Hash)

structure ValidatorUptime (ID : Type) where
  validationID : ID
  /-- In seconds. -/
  totalUptime : Nat

/-- Unsigned messages, and what the libraries read in them. Ids do not collide, and a message is read from its bytes. -/
class WarpMessage (Message : Type) (ID Hash : outParam Type) where
  messageID : Message → ID
  networkID : Message → UInt32
  sourceChainID : Message → ID
  bytes : Message → Bytes
  parseUnsignedMessage : Bytes → Option Message
  parsePayload : Message → Option (Payload Hash)
  /-- `messages.Parse`: the only type is that of uptimes. -/
  parseAddressedCall : Bytes → Option (ValidatorUptime ID)
  /-- The message of a network and chain about a block. -/
  newHashMessage : UInt32 → ID → Hash → Option Message
  messageID_injective : Function.Injective messageID
  parse_bytes : ∀ message, parseUnsignedMessage (bytes message) = some message
  payload_newHashMessage : ∀ network chain blockID message, newHashMessage network chain blockID = some message →
    parsePayload message = some (.hash blockID)

open WarpMessage

/-- Of a process of the node. -/
structure Context (ID : Type) where
  networkID : UInt32
  chainID : ID

variable {Message ID Hash Signature : Type} [WarpMessage Message ID Hash]

/-- A message of the network and the chain. -/
def Context.Local (context : Context ID) (message : Message) : Prop :=
  WarpMessage.networkID message = context.networkID ∧ sourceChainID message = context.chainID

/-- What a process holds: after a restart the caches are empty. -/
structure Memory (Message ID Signature : Type) where
  warpSigner : Message → Option Signature
  warpOffChainMessages : List Bytes
  signatureCache : Lru ID Signature
  messageCache : Lru ID Message
  offchainAddressedCallMsgs : List (ID × Message)

/-- The messages on the disk, and the memory. -/
structure Backend (Message ID Signature : Type) where
  db : ID → Option Bytes
  memory : Memory Message ID Signature

/-- What the backend asks of the rest of the node: for an accepted block, and for seconds. -/
structure Outside (ID Hash : Type) where
  getAcceptedBlock : Hash → Bool
  getUptime : ID → Except String Nat

/-! ## The start -/

inductive OffChainError where
  | parsing (index : Nat)
  | wrongNetworkID (index : Nat)
  | wrongSourceChainID (index : Nat)
  | parsingAddressedCall (index : Nat)

def isAddressedCall (message : Message) : Bool :=
  match parsePayload message with
  | some (.addressedCall _ _) => true
  | _ => false

variable [DecidableEq ID]

/-- The map that is filled, one message after another. -/
def initOffChainMessages (context : Context ID) (index : Nat) :
    List Bytes → List (ID × Message) → Except OffChainError (List (ID × Message))
  | [], offchain => .ok offchain
  | encoded :: rest, offchain =>
      match (parseUnsignedMessage encoded : Option Message) with
      | none => .error (.parsing index)
      | some message =>
        if networkID message ≠ context.networkID then .error (.wrongNetworkID index)
        else if sourceChainID message ≠ context.chainID then .error (.wrongSourceChainID index)
        else if isAddressedCall message = false then .error (.parsingAddressedCall index)
        else initOffChainMessages context (index + 1) rest ((messageID message, message) :: offchain)

def messageCacheSize : Nat := 500

def warpSignatureCacheSize : Nat := 500

def newBackend (context : Context ID) (warpSigner : Message → Option Signature) (offchainMessages : List Bytes) :
    Except OffChainError (Memory Message ID Signature) := do
  let offchain ← initOffChainMessages context 0 offchainMessages []
  return ⟨warpSigner, offchainMessages, .empty warpSignatureCacheSize, .empty messageCacheSize, offchain⟩

/-! ## Messages -/

inductive GetMessageError (ID : Type) where
  | notFound
  | parse (messageID : ID)

inductive VerifyError (ID Hash : Type) where
  | getMessage (messageID : ID)
  | parsePayload
  | parseAddressedCall
  | sourceAddress
  | getUptime (cause : String)
  | lowUptime (currentUptimeSeconds totalUptime : Nat) (validationID : ID)
  | block (blockID : Hash)

/-- `ParseErrCode` or `VerifyErrCode`. -/
def VerifyError.code : VerifyError ID Hash → Nat
  | .getMessage _ | .parsePayload | .parseAddressedCall => 1
  | .sourceAddress | .getUptime _ | .lowUptime _ _ _ | .block _ => 2

inductive SignatureError (ID Hash : Type) where
  | verifyWarpMessage (cause : VerifyError ID Hash)
  | validateBlock (cause : VerifyError ID Hash)
  | newHashMessage
  | sign

def verifyUptimeMessage (outside : Outside ID Hash) (uptimeMsg : ValidatorUptime ID) : Except (VerifyError ID Hash) Unit :=
  match outside.getUptime uptimeMsg.validationID with
  | .error cause => .error (.getUptime cause)
  | .ok currentUptimeSeconds =>
    if currentUptimeSeconds < uptimeMsg.totalUptime then
      .error (.lowUptime currentUptimeSeconds uptimeMsg.totalUptime uptimeMsg.validationID)
    else .ok ()

def verifyBlockMessage (outside : Outside ID Hash) (blockID : Hash) : Except (VerifyError ID Hash) Unit :=
  if outside.getAcceptedBlock blockID then .ok () else .error (.block blockID)

def verifyOffchainAddressedCall (Message : Type) {ID Hash : Type} [WarpMessage Message ID Hash] (outside : Outside ID Hash)
    (sourceAddress payload : Bytes) : Except (VerifyError ID Hash) Unit :=
  match parseAddressedCall Message payload with
  | none => .error .parseAddressedCall
  | some uptimeMsg => if sourceAddress ≠ [] then .error .sourceAddress else verifyUptimeMessage outside uptimeMsg

def verifyPayload (outside : Outside ID Hash) (unsignedMessage : Message) : Except (VerifyError ID Hash) Unit :=
  match parsePayload unsignedMessage with
  | none => .error .parsePayload
  | some (.addressedCall sourceAddress payload) => verifyOffchainAddressedCall Message outside sourceAddress payload
  | some (.hash blockID) => verifyBlockMessage outside blockID

namespace Backend

variable (backend : Backend Message ID Signature)

def getMessage (messageID : ID) : Except (GetMessageError ID) Message × Backend Message ID Signature :=
  match backend.memory.messageCache.get messageID with
  | (some message, used) => (.ok message, { backend with memory := { backend.memory with messageCache := used } })
  | (none, _) =>
    match backend.memory.offchainAddressedCallMsgs.lookup messageID with
    | some message => (.ok message, backend)
    | none =>
      match backend.db messageID with
      | none => (.error .notFound, backend)
      | some unsignedMessageBytes =>
        match parseUnsignedMessage unsignedMessageBytes with
        | none => (.error (.parse messageID), backend)
        | some unsignedMessage =>
          (.ok unsignedMessage, { backend with memory :=
            { backend.memory with messageCache := backend.memory.messageCache.put messageID unsignedMessage } })

def signMessage (unsignedMessage : Message) : Except (SignatureError ID Hash) Signature × Backend Message ID Signature :=
  match backend.memory.warpSigner unsignedMessage with
  | none => (.error .sign, backend)
  | some sig =>
    (.ok sig, { backend with memory :=
      { backend.memory with signatureCache := backend.memory.signatureCache.put (messageID unsignedMessage) sig } })

/-- The message is on the disk before it is signed. -/
def addMessage (unsignedMessage : Message) : Except (SignatureError ID Hash) Signature × Backend Message ID Signature :=
  signMessage
    { backend with db := Function.update backend.db (messageID unsignedMessage) (some (bytes unsignedMessage)) } unsignedMessage

def verify (outside : Outside ID Hash) (unsignedMessage : Message) :
    Except (VerifyError ID Hash) Unit × Backend Message ID Signature :=
  match backend.getMessage (messageID unsignedMessage) with
  | (.ok _, after) => (.ok (), after)
  | (.error (.parse messageID), after) => (.error (.getMessage messageID), after)
  | (.error .notFound, after) => (verifyPayload outside unsignedMessage, after)

def getMessageSignature (outside : Outside ID Hash) (unsignedMessage : Message) :
    Except (SignatureError ID Hash) Signature × Backend Message ID Signature :=
  match backend.memory.signatureCache.get (messageID unsignedMessage) with
  | (some sig, used) => (.ok sig, { backend with memory := { backend.memory with signatureCache := used } })
  | (none, _) =>
    match backend.verify outside unsignedMessage with
    | (.error cause, after) => (.error (.verifyWarpMessage cause), after)
    | (.ok _, after) => after.signMessage unsignedMessage

def getBlockSignature (context : Context ID) (outside : Outside ID Hash) (blockID : Hash) :
    Except (SignatureError ID Hash) Signature × Backend Message ID Signature :=
  match (newHashMessage context.networkID context.chainID blockID : Option Message) with
  | none => (.error .newHashMessage, backend)
  | some unsignedMessage =>
    match backend.memory.signatureCache.get (messageID unsignedMessage) with
    | (some sig, used) => (.ok sig, { backend with memory := { backend.memory with signatureCache := used } })
    | (none, _) =>
      match verifyBlockMessage outside blockID with
      | .error cause => (.error (.validateBlock cause), backend)
      | .ok _ => backend.signMessage unsignedMessage

end Backend

end Snowside.Signing
