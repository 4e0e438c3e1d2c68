import Snowside.Precompile.Words

/-! Transactions, and the messages that they are executed as. -/

set_option autoImplicit false

namespace Snowside.Execution

open Evm (Address Bytes)
open Precompile (Hash)

/-- The storage keys of an entry of an access list. -/
abbrev Predicate : Type := List Hash

structure AccessTuple where
  address : Address
  storageKeys : Predicate
  deriving DecidableEq, Repr

abbrev AccessList : Type := List AccessTuple

/-- The entries at an address, in order. -/
def AccessList.entries (list : AccessList) (address : Address) : List Predicate :=
  (list.filter (·.address = address)).map AccessTuple.storageKeys

structure Message where
  /-- `To`. -/
  recipient : Option Address
  /-- `From`. -/
  sender : Address
  nonce : UInt64
  value : Int
  gasLimit : UInt64
  gasPrice : Int
  gasFeeCap : Int
  gasTipCap : Int
  data : Bytes
  accessList : AccessList
  blobGasFeeCap : Option Int
  blobHashes : List Hash
  deriving DecidableEq, Repr

/-- What the node asks of a transaction. Its sender and its intrinsic gas depend on the rules at
the number and the time of a block. -/
class Transaction (T : Type) (TxError : outParam Type) where
  hash : T → Hash
  type : T → UInt8
  nonce : T → UInt64
  gas : T → UInt64
  accessList : T → AccessList
  blobHashes : T → List Hash
  /-- The number of blobs that it carries. -/
  blobTxSidecar : T → Option Nat
  withoutBlobTxSidecar : T → T
  intrinsicGas : Int → UInt64 → T → Except TxError UInt64
  /-- `TransactionToMessage`, under a base fee. -/
  toMessage : Int → UInt64 → Option Int → T → Except TxError Message

open Transaction

/-- What is relied on: a hash stands for all but the blobs. -/
class LawfulTransaction (T : Type) {TxError : Type} [Transaction T TxError] : Prop where
  accessList_of_hash : ∀ tx other : T, hash tx = hash other → accessList tx = accessList other
  hash_withoutBlobTxSidecar : ∀ tx : T, hash (withoutBlobTxSidecar tx) = hash tx
  type_withoutBlobTxSidecar : ∀ tx : T, type (withoutBlobTxSidecar tx) = type tx
  nonce_withoutBlobTxSidecar : ∀ tx : T, nonce (withoutBlobTxSidecar tx) = nonce tx
  blobHashes_withoutBlobTxSidecar : ∀ tx : T, blobHashes (withoutBlobTxSidecar tx) = blobHashes tx
  toMessage_withoutBlobTxSidecar : ∀ number time baseFee (tx : T),
    toMessage number time baseFee (withoutBlobTxSidecar tx) = toMessage number time baseFee tx
  accessList_toMessage : ∀ number time baseFee (tx : T) message,
    toMessage number time baseFee tx = .ok message → message.accessList = accessList tx

/-- `BlobTxType`. -/
def blobTxType : UInt8 := 3

end Snowside.Execution
