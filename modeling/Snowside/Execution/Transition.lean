import Snowside.Evm.Worker
import Snowside.Execution.Predicates
import Snowside.Upgrades.Activation

/-! The execution of a transaction in the context of a block. -/

set_option autoImplicit false

namespace Snowside.Execution

open Checked Stateful
open Evm (Address Bytes windowSize)
open Precompile (Hash)

/-! ## Headers and receipts -/

/-- A header, with what execution reads of it and sets. -/
structure Header extends Evm.Header where
  parentHash : Hash := 0
  difficulty : Int := 0
  parentBeaconRoot : Option Hash := none
  blobGasUsed : Option UInt64 := none
  excessBlobGas : Option UInt64 := none
  root : Hash := 0
  txHash : Hash := 0
  receiptHash : Hash := 0
  bloom : Bytes := []
  deriving DecidableEq, Repr

structure Log where
  address : Address
  topics : List Hash
  data : Bytes
  txHash : Hash
  txIndex : Nat
  index : Nat
  blockNumber : UInt64 := 0
  blockHash : Hash := 0
  deriving DecidableEq, Repr

structure Receipt where
  type : UInt8
  /-- Before Byzantium. -/
  postState : Option Hash
  status : Bool
  cumulativeGasUsed : UInt64
  bloom : Bytes
  logs : List Log
  txHash : Hash
  contractAddress : Address
  gasUsed : UInt64
  blobGasUsed : UInt64
  blobGasPrice : Option Int
  blockHash : Hash
  blockNumber : Int
  transactionIndex : Nat
  deriving DecidableEq, Repr

/-- The part of a receipt that its hash is of. -/
structure ConsensusReceipt where
  type : UInt8
  postState : Option Hash
  status : Bool
  cumulativeGasUsed : UInt64
  bloom : Bytes
  logs : List (Address × List Hash × Bytes)
  deriving DecidableEq, Repr

namespace Receipt

variable (receipt : Receipt)

def consensus : ConsensusReceipt where
  type := receipt.type
  postState := receipt.postState
  status := receipt.status
  cumulativeGasUsed := receipt.cumulativeGasUsed
  bloom := receipt.bloom
  logs := receipt.logs.map fun log => (log.address, log.topics, log.data)

/-- What blooms are made of. -/
def bloomed : List (Address × List Hash) := receipt.logs.map fun log => (log.address, log.topics)

/-- In a block of another hash. -/
def inBlock (hash : Hash) : Receipt :=
  { receipt with blockHash := hash, logs := receipt.logs.map fun log => { log with blockHash := hash } }

@[simp] theorem consensus_inBlock (hash : Hash) : (receipt.inBlock hash).consensus = receipt.consensus := by
  simp [consensus, inBlock, Function.comp_def]

@[simp] theorem bloomed_inBlock (hash : Hash) : (receipt.inBlock hash).bloomed = receipt.bloomed := by
  simp [bloomed, inBlock, Function.comp_def]

@[simp] theorem inBlock_inBlock (hash other : Hash) : (receipt.inBlock other).inBlock hash = receipt.inBlock hash := by
  simp [inBlock, Function.comp_def]

@[simp] theorem gasUsed_inBlock (hash : Hash) : (receipt.inBlock hash).gasUsed = receipt.gasUsed := rfl

@[simp] theorem transactionIndex_inBlock (hash : Hash) :
    (receipt.inBlock hash).transactionIndex = receipt.transactionIndex := rfl

end Receipt

/-- Hashes and encodings. -/
structure Encoding (T : Type) where
  codec : Codec
  headerHash : Header → Hash
  createAddress : Address → UInt64 → Address
  createBloom : List (Address × List Hash) → Bytes
  deriveTxSha : List T → Hash
  deriveReceiptSha : List ConsensusReceipt → Hash
  calcBlobFee : UInt64 → Int
  calcExcessBlobGas : UInt64 → UInt64 → UInt64

/-! ## Contexts -/

/-- What the EVM reads of a block, but for the verdicts on predicates. -/
structure BlockEnv where
  getHash : UInt64 → Hash
  coinbase : Address
  blockNumber : Int
  time : UInt64
  difficulty : Int
  baseFee : Option Int
  blobBaseFee : Option Int
  gasLimit : UInt64

structure BlockContext extends BlockEnv where
  /-- Of the header that precompiles read. -/
  extra : Bytes

/-- The verdicts; `none` is a panic. -/
def BlockContext.predicateResults (codec : Codec) (context : BlockContext) : Option BlockResults :=
  let predicateBytes := predicateBytesFromExtra context.extra
  if predicateBytes = [] then some ∅ else codec.parseBlockResults predicateBytes

section

variable {T : Type} (encoding : Encoding T) (getHeader : Hash → Int → Option Header)

/-- The hash of the ancestor with a number, from a child on. -/
def ancestorHash : Nat → Hash → Int → Hash
  | 0, hash, _ => hash
  | steps + 1, hash, number =>
      match getHeader hash number with
      | none => 0
      | some header => ancestorHash steps header.parentHash (header.number - 1)

def getHashFn (header : Header) (number : UInt64) : Hash :=
  if header.number ≤ number.toNat then 0
  else ancestorHash getHeader (header.number - 1 - number.toNat).toNat header.parentHash (header.number - 1)

def newBlockContext (header : Header) (author : Option Address) (extra : Bytes) : BlockContext where
  getHash := getHashFn getHeader header
  coinbase := author.getD header.coinbase
  blockNumber := header.number
  time := header.time
  difficulty := header.difficulty
  baseFee := header.baseFee
  blobBaseFee := header.excessBlobGas.map encoding.calcBlobFee
  gasLimit := header.gasLimit
  extra := extra

def newEVMBlockContext (header : Header) (author : Option Address) : BlockContext :=
  let predicateBytes := predicateBytesFromExtra header.extra
  if predicateBytes = [] then newBlockContext encoding getHeader header author []
  else
    match encoding.codec.parseBlockResults predicateBytes with
    | none => newBlockContext encoding getHeader header author []
    | some _ => newBlockContext encoding getHeader header author header.extra

def newEVMBlockContextWithPredicateResults (header : Header) (author : Option Address) (predicateBytes : Bytes) :
    BlockContext :=
  { newEVMBlockContext encoding getHeader header author with
    extra := setPredicateBytesInExtra header.extra predicateBytes }

variable {encoding getHeader} {header other : Header} {author : Option Address}

/-- The context is that of the header, whatever becomes of its extra data. -/
theorem toBlockEnv_newEVMBlockContext : (newEVMBlockContext encoding getHeader header author).toBlockEnv =
    (newBlockContext encoding getHeader header author []).toBlockEnv := by
  dsimp only [newEVMBlockContext]
  split
  · rfl
  · split <;> rfl

/-- Headers that differ in what execution sets have the same context. -/
theorem toBlockEnv_newBlockContext (number : header.number = other.number) (parentHash : header.parentHash = other.parentHash)
    (coinbase : header.coinbase = other.coinbase) (time : header.time = other.time)
    (difficulty : header.difficulty = other.difficulty) (baseFee : header.baseFee = other.baseFee)
    (excessBlobGas : header.excessBlobGas = other.excessBlobGas) (gasLimit : header.gasLimit = other.gasLimit)
    (extra extra' : Bytes) : (newBlockContext encoding getHeader header none extra).toBlockEnv =
      (newBlockContext encoding getHeader other none extra').toBlockEnv := by
  have getHash : getHashFn getHeader header = getHashFn getHeader other := by
    funext wanted
    simp only [getHashFn, number, parentHash]
  simp only [newBlockContext, getHash, number, coinbase, time, difficulty, baseFee, excessBlobGas, gasLimit, Option.getD_none]

/-- A finished header has the verdicts that were encoded in it. -/
theorem predicateResults_newEVMBlockContext (lawful : encoding.codec.Lawful) {results : BlockResults} {encoded : Bytes}
    (written : encoding.codec.bytes results = some encoded) (carried : predicateBytesFromExtra header.extra = encoded) :
    ∃ parsed, (newEVMBlockContext encoding getHeader header author).predicateResults encoding.codec = some parsed ∧
      parsed.get = results.get := by
  obtain ⟨parsed, read, same⟩ := lawful.inverts results encoded written
  have nonempty : encoded ≠ [] := fun empty => lawful.versioned results (written.trans (congrArg some empty))
  refine ⟨parsed, ?_, same⟩
  have extra : (newEVMBlockContext encoding getHeader header author).extra = header.extra := by
    simp only [newEVMBlockContext, carried, read, nonempty, if_false]
    rfl
  simp only [BlockContext.predicateResults, extra, carried, nonempty, if_false, read]

/-- A header without verdicts has none. -/
theorem predicateResults_newEVMBlockContext_none (absent : predicateBytesFromExtra header.extra = []) :
    (newEVMBlockContext encoding getHeader header author).predicateResults encoding.codec = some ∅ := by
  have extra : (newEVMBlockContext encoding getHeader header author).extra = [] := by
    simp only [newEVMBlockContext, absent, if_true]
    rfl
  simp only [BlockContext.predicateResults, extra, predicateBytesFromExtra, List.drop_nil, if_true]

theorem predicateResults_withPredicateResults (lawful : encoding.codec.Lawful) {results : BlockResults} {encoded : Bytes}
    (written : encoding.codec.bytes results = some encoded) :
    ∃ parsed, (newEVMBlockContextWithPredicateResults encoding getHeader header author encoded).predicateResults
      encoding.codec = some parsed ∧ parsed.get = results.get := by
  obtain ⟨parsed, read, same⟩ := lawful.inverts results encoded written
  have nonempty : encoded ≠ [] := fun empty => lawful.versioned results (written.trans (congrArg some empty))
  refine ⟨parsed, ?_, same⟩
  simp only [BlockContext.predicateResults, newEVMBlockContextWithPredicateResults, predicateBytesFromExtra_set, nonempty,
    if_false, read]

end

/-! ## The interpreter -/

structure ExecutionResult where
  usedGas : UInt64
  failed : Bool
  deriving DecidableEq, Repr

/-- The state database with the EVM on it, of one chain configuration. Of the verdicts on
predicates precompiles ask for those of the current transaction only. -/
class Interpreter (S : Type) (TxError : outParam Type) extends State.StateDB S where
  setTxContext : Hash → Nat → S → S
  txHash : S → Hash
  txIndex : S → Nat
  /-- Of a transaction, outside any block. -/
  logs : S → Hash → List Log
  snapshot : S → Nat
  revertToSnapshot : Nat → S → S
  addAddressToAccessList : Address → S → S
  intermediateRoot : Bool → S → Hash × S
  /-- With the gas of the pool. -/
  applyMessage : BlockEnv → Option (Address → Bits) → Message → UInt64 → S → Except TxError ExecutionResult × UInt64 × S
  /-- Of a caller, with an input, so much gas and a value. -/
  call : BlockEnv → Address → Address → Bytes → UInt64 → BitVec 256 → S → S

open Interpreter

/-- What is relied on. -/
class LawfulInterpreter (S : Type) {TxError : Type} [Interpreter S TxError] : Prop where
  setTxContext_twice : ∀ (db : S) hash index hash' index',
    setTxContext hash index (setTxContext hash' index' db) = setTxContext hash index db
  txHash_setTxContext : ∀ (db : S) hash index, Interpreter.txHash (setTxContext hash index db) = hash
  txIndex_setTxContext : ∀ (db : S) hash index, txIndex (setTxContext hash index db) = index
  txIndex_finalise : ∀ (db : S), txIndex (State.StateDB.finalise db) = txIndex db
  txIndex_intermediateRoot : ∀ (db : S) deleteEmpty, txIndex (intermediateRoot deleteEmpty db).2 = txIndex db
  root_setTxContext : ∀ (db : S) hash index deleteEmpty,
    (intermediateRoot deleteEmpty (setTxContext hash index db)).1 = (intermediateRoot deleteEmpty db).1
  txIndex_applyMessage : ∀ context verdicts message gas (db : S),
    txIndex (applyMessage context verdicts message gas db).2.2 = txIndex db
  reverts_unchanged : ∀ db : S, revertToSnapshot (snapshot db) db = db
  /-- What a message that fails has done can be reverted. -/
  reverts : ∀ context verdicts message gas (db : S) error,
    (applyMessage context verdicts message gas db).1 = .error error →
      revertToSnapshot (snapshot db) (applyMessage context verdicts message gas db).2.2 = db

/-- `GetLogs`. -/
def getLogs {S TxError : Type} [Interpreter S TxError] (db : S) (hash : Hash) (blockNumber : Int) (blockHash : Hash) :
    List Log :=
  (logs db hash).map fun log => { log with blockNumber := .ofInt blockNumber, blockHash }

/-! ## Transactions -/

/-- The rules of a chain. -/
structure Config where
  upgrades : Upgrades.ChainConfig
  isByzantium : Int → Bool
  isEIP158 : Int → Bool
  isCancun : Int → UInt64 → Bool

/-- What transactions work on, one after another. -/
structure Progress (S : Type) where
  gasPool : UInt64
  db : S
  usedGas : UInt64

def blobTxBlobGasPerBlob : Nat := 131072

section

variable {S T TxError : Type} [Interpreter S TxError] [Transaction T TxError] (encoding : Encoding T) (config : Config)

def applyMessageIn (context : BlockContext) (message : Message) : Action TxError (Progress S) ExecutionResult :=
  ExceptT.mk fun progress =>
    let verdicts := (context.predicateResults encoding.codec).map fun results => results.get (Interpreter.txHash progress.db)
    let applied := applyMessage context.toBlockEnv verdicts message progress.gasPool progress.db
    (applied.1, { progress with gasPool := applied.2.1, db := applied.2.2 })

/-- `Finalise`, or before Byzantium the root for the receipt. -/
def settle (blockNumber : Int) : Action TxError (Progress S) (Option Hash) :=
  ExceptT.mk fun progress =>
    if config.isByzantium blockNumber then (.ok none, { progress with db := State.StateDB.finalise progress.db })
    else
      let settled := intermediateRoot (config.isEIP158 blockNumber) progress.db
      (.ok (some settled.1), { progress with db := settled.2 })

def applyTransaction (message : Message) (blockNumber : Int) (blockHash : Hash) (tx : T) (context : BlockContext) :
    Action TxError (Progress S) Receipt := do
  let result ← applyMessageIn encoding context message
  let root ← settle config blockNumber
  modify fun progress => { progress with usedGas := progress.usedGas + result.usedGas }
  let progress ← get
  let logs := getLogs progress.db (Transaction.hash tx) blockNumber blockHash
  let isBlob := Transaction.type tx = blobTxType
  return {
    type := Transaction.type tx
    postState := root
    status := !result.failed
    cumulativeGasUsed := progress.usedGas
    bloom := encoding.createBloom (logs.map fun log => (log.address, log.topics))
    logs := logs
    txHash := Transaction.hash tx
    contractAddress :=
      if message.recipient = none then encoding.createAddress message.sender (Transaction.nonce tx) else 0
    gasUsed := result.usedGas
    blobGasUsed := if isBlob then .ofNat ((Transaction.blobHashes tx).length * blobTxBlobGasPerBlob) else 0
    blobGasPrice := if isBlob then context.blobBaseFee else none
    blockHash := blockHash
    blockNumber := blockNumber
    transactionIndex := txIndex progress.db }

end

/-! ## The beacon root -/

def systemAddress : Address := 0xfffffffffffffffffffffffffffffffffffffffe

def beaconRootsStorageAddress : Address := 0x000F3df6D732807Ef1319fB7B8bB8522d0Beac02

def processBeaconBlockRoot {S TxError : Type} [Interpreter S TxError] (beaconRoot : Hash) (context : BlockContext) (db : S) :
    S :=
  let db := addAddressToAccessList beaconRootsStorageAddress db
  let db := call context.toBlockEnv systemAddress beaconRootsStorageAddress beaconRoot.bytes 30000000 0 db
  State.StateDB.finalise db

end Snowside.Execution
