import Snowside.Blockchain.Node
import Snowside.Signing.Backend

/-! A node that signs: its backend beside the chain, block by block, over crashes and restarts. -/

set_option autoImplicit false

namespace Snowside.Signing

open Ancestry (Ancestor)
open Blockchain (BlockChain ChainBlock Event IsOrigin Node Running Settings StateBlock hash number)
open Runs (System)
open WarpMessage

/-- The data of the logs in the receipts of a block that come from the warp precompile while it is active, and what a log is
unpacked to. -/
class Emitter (Block : Type) (Message : outParam Type) where
  warpLogs : Block → List Bytes
  unpackSendWarpEventDataToMessage : Bytes → Option Message

open Emitter

/-- What may be asked of a backend. -/
inductive Request (Message ID Hash : Type) where
  | message (messageID : ID)
  | verify (unsignedMessage : Message)
  | messageSignature (unsignedMessage : Message)
  | blockSignature (blockID : Hash)

inductive Answer (Message ID Hash Signature : Type) where
  | message (result : Except (GetMessageError ID) Message)
  | verified (result : Except (VerifyError ID Hash) Unit)
  | signature (result : Except (SignatureError ID Hash) Signature)

section

variable {Message ID Hash Signature : Type} [WarpMessage Message ID Hash]

/-- The message that is to be signed. -/
def Request.signs (context : Context ID) : Request Message ID Hash → Option Message
  | .messageSignature unsignedMessage => some unsignedMessage
  | .blockSignature blockID => newHashMessage context.networkID context.chainID blockID
  | _ => none

def Backend.answer [DecidableEq ID] (backend : Backend Message ID Signature) (context : Context ID) (outside : Outside ID Hash) :
    Request Message ID Hash → Answer Message ID Hash Signature × Backend Message ID Signature
  | .message messageID => (.message (backend.getMessage messageID).1, (backend.getMessage messageID).2)
  | .verify unsignedMessage => (.verified (backend.verify outside unsignedMessage).1, (backend.verify outside unsignedMessage).2)
  | .messageSignature unsignedMessage =>
      (.signature (backend.getMessageSignature outside unsignedMessage).1, (backend.getMessageSignature outside unsignedMessage).2)
  | .blockSignature blockID =>
      (.signature (backend.getBlockSignature context outside blockID).1, (backend.getBlockSignature context outside blockID).2)

/-- The uptime that a message claims. -/
def uptimeClaim (message : Message) : Option (ValidatorUptime ID) :=
  match parsePayload message with
  | some (.addressedCall sourceAddress payload) => if sourceAddress = [] then parseAddressedCall Message payload else none
  | _ => none

/-- The uptime that is measured for the claim of a message. -/
def measured (getUptime : ID → Except String Nat) (message : Message) : Option Nat :=
  (uptimeClaim message).bind fun claim => (getUptime claim.validationID).toOption

/-- What a request has the backend sign that it has no signature of. -/
def Backend.newlySigned [DecidableEq ID] (backend : Backend Message ID Signature) (context : Context ID) (outside : Outside ID Hash)
    (request : Request Message ID Hash) : List (Message × Option Nat) :=
  match request.signs context, (backend.answer context outside request).1 with
  | some message, .signature (.ok _) =>
      if (backend.memory.signatureCache.get (messageID message)).1.isNone then [(message, measured outside.getUptime message)] else []
  | _, _ => []

end

section

variable {Block Hash : Type} [ChainBlock Block Hash]

def getBlockIDAtHeight (chain : BlockChain Block Hash) (height : Nat) : Option Hash :=
  if number chain.lastAccepted < height then none else chain.db.getCanonicalHash height

/-- Only accepted blocks, of those that the node gets. -/
def getAcceptedBlock [DecidableEq Hash] (chain : BlockChain Block Hash) (getBlock : Hash → Option Block) (blkID : Hash) :
    Option Block := do
  let blk ← getBlock blkID
  let acceptedBlkID ← getBlockIDAtHeight chain (number blk)
  if acceptedBlkID ≠ blkID then none else some blk

end

/-- The backend of a process. -/
structure Process (Block Message ID Signature : Type) where
  memory : Memory Message ID Signature
  /-- The block that is being accepted, and its logs still to come. -/
  adding : Option (Block × List Bytes)
  /-- The messages that the process has signed, in order, each with the uptime measured for it. -/
  signed : List (Message × Option Nat)

structure VM (Block Message ID Signature : Type) {Hash Root Transaction : Type} [ChainBlock Block Hash]
    [StateBlock Block Root Transaction] where
  node : Node Block
  warpDB : ID → Option Bytes
  process : Option (Process Block Message ID Signature)
  /-- The blocks that consensus has ever accepted. -/
  accepted : List Block

inductive VMEvent (Block Message ID Hash Signature : Type) where
  | node (event : Event Block)
  | initializeVM (warpSigner : Message → Option Signature) (offchainMessages : List Bytes)
  | accept (block : Block)
  | addMessage
  | acceptChain
  | request (request : Request Message ID Hash) (getBlock : Hash → Option Block) (getUptime : ID → Except String Nat)

section

variable {Block Hash Root Transaction Message ID Signature : Type} [ChainBlock Block Hash] [StateBlock Block Root Transaction]

/-- The memory of a node between two calls of consensus. -/
def idle (node : Node Block) : Option (Running Block) :=
  match node.phase with
  | .running memory =>
      match memory.consensus with
      | .writing [] none => some memory
      | _ => none
  | _ => none

variable [WarpMessage Message ID Hash]

/-- What consensus does, and what a signer is documented to do: it signs the messages of its network and chain. -/
def VM.Legal (context : Context ID) (vm : VM Block Message ID Signature) : VMEvent Block Message ID Hash Signature → Prop
  | .node event => vm.node.Legal event
  | .initializeVM warpSigner _ => ∀ message, (warpSigner message).isSome ↔ context.Local message
  | .accept block => vm.node.Legal (.call (.accept block))
  | .addMessage => True
  | .acceptChain => ∀ process block, vm.process = some process → process.adding = some (block, []) →
      vm.node.Legal (.call (.accept block))
  | .request _ _ _ => True

variable [Emitter Block Message] [DecidableEq ID] [DecidableEq Hash] [DecidableEq Root] [DecidableEq Transaction]

namespace VM

variable (settings : Settings) (context : Context ID) (vm : VM Block Message ID Signature)

/-- The answer to a request between two calls of consensus, and the node after it. -/
def respond (request : Request Message ID Hash) (getBlock : Hash → Option Block) (getUptime : ID → Except String Nat) :
    Option (Answer Message ID Hash Signature × VM Block Message ID Signature) :=
  match vm.process, idle vm.node with
  | some ⟨memory, none, signed⟩, some running =>
      let backend : Backend Message ID Signature := ⟨vm.warpDB, memory⟩
      let outside : Outside ID Hash := ⟨fun blockID => (getAcceptedBlock running.state.chain getBlock blockID).isSome, getUptime⟩
      let (answer, after) := backend.answer context outside request
      some (answer, { vm with
        warpDB := after.db
        process := some ⟨after.memory, none, signed ++ backend.newlySigned context outside request⟩ })
  | _, _ => none

/-- An acceptance that fails stops the node, and is left out, as is a start that fails. The backend is made while the chain
boots, but asked only afterwards. -/
def step : VMEvent Block Message ID Hash Signature → Option (VM Block Message ID Signature)
  | .node .crash => (vm.node.step settings .crash).map fun node => { vm with node := node, process := none }
  | .node (.call (.accept _)) => none
  | .node (.call call) =>
      match vm.process with
      | some ⟨_, none, _⟩ => (vm.node.step settings (.call call)).map fun node => { vm with node := node }
      | _ => none
  | .node event => (vm.node.step settings event).map fun node => { vm with node := node }
  | .initializeVM warpSigner offchainMessages =>
      match vm.process, idle vm.node with
      | none, some _ =>
          match newBackend context warpSigner offchainMessages with
          | .ok memory => some { vm with process := some ⟨memory, none, []⟩ }
          | .error _ => none
      | _, _ => none
  | .accept block =>
      match vm.process, idle vm.node with
      | some ⟨memory, none, signed⟩, some _ =>
          some { vm with process := some ⟨memory, some (block, warpLogs block), signed⟩, accepted := block :: vm.accepted }
      | _, _ => none
  | .addMessage =>
      match vm.process with
      | some ⟨memory, some (block, logData :: rest), signed⟩ =>
          match unpackSendWarpEventDataToMessage Block logData with
          | none => none
          | some unsignedMessage =>
            match Backend.addMessage ⟨vm.warpDB, memory⟩ unsignedMessage with
            | (.error _, _) => none
            | (.ok _, after) => some { vm with
                warpDB := after.db
                process := some ⟨after.memory, some (block, rest), signed ++ [(unsignedMessage, none)]⟩ }
      | _ => none
  | .acceptChain =>
      match vm.process with
      | some ⟨memory, some (block, []), signed⟩ =>
          (vm.node.step settings (.call (.accept block))).map fun node =>
            { vm with node := node, process := some ⟨memory, none, signed⟩ }
      | _ => none
  | .request request getBlock getUptime => (vm.respond context request getBlock getUptime).map Prod.snd

end VM

/-- What the index says below the origin names the ancestors of the origin. -/
def Historic (origin : Block) (db : Blockchain.Database Block Hash) : Prop :=
  ∀ height key, height < number origin → db.canonical.entries height = some key →
    ∃ block, Ancestor block origin ∧ hash block = key

/-- A warp log of the block has the message. -/
def Emits (block : Block) (message : Message) : Prop :=
  ∃ logData ∈ warpLogs block, unpackSendWarpEventDataToMessage Block logData = some message

/-- A node begins with messages of earlier blocks at most, after its first start or with the state of a synced block. -/
def vms (settings : Settings) (context : Context ID) (origin : Block) :
    System (VM Block Message ID Signature) (VMEvent Block Message ID Hash Signature) where
  initial vm := (Blockchain.nodes Block settings origin).initial vm.node ∧ Historic origin vm.node.disk.chain ∧
    (∀ key encoded, vm.warpDB key = some encoded → ∃ (message : Message) (block : Block), key = messageID message ∧
      encoded = bytes message ∧ Ancestor block origin ∧ Emits block message) ∧ vm.process = none ∧ vm.accepted = [origin]
  step vm event after := vm.step settings context event = some after

end

end Snowside.Signing
